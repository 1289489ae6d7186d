/-!
# Numbers

Powers and the bounds of numbers of 64 bits, double precision numbers, their shortest texts and exact fractions.  A
finite number is a mantissa times a power of two; `Double.ofDecimal` rounds a decimal to the nearest one, a tie to the
even mantissa, in exact arithmetic.
-/

namespace Covenant.Number

def twoTo (n : Nat) : Nat := Nat.pow 2 n

def tenTo (n : Nat) : Nat := Nat.pow 10 n

def wordBound : Nat := 18446744073709551616

def int64Bound : Int := 9223372036854775808

def isInt64 (n : Int) : Bool := -int64Bound ≤ n && n < int64Bound

inductive Double where
  | nan
  | infinity (negative : Bool)
  | finite (negative : Bool) (mantissa : Nat) (exponent : Int)
  deriving DecidableEq, Inhabited

structure Decimal where
  negative : Bool := false
  digits : Nat := 0
  exponent : Int := 0

def divEven (n d : Nat) : Nat :=
  let q := n / d
  let twice := 2 * (n % d)
  if twice < d then q else if twice > d then q + 1 else q + q % 2

structure BinaryFormat where
  precision : Nat
  least : Int
  greatest : Int

namespace BinaryFormat

def double : BinaryFormat := ⟨53, -1074, 971⟩

def single : BinaryFormat := ⟨24, -149, 104⟩

/-- The exponent of the power of two that scales a fraction to a full mantissa, but not below the least one. -/
def scale (f : BinaryFormat) (n d : Nat) : Int :=
  let guess : Int := (n.log2 : Int) - (d.log2 : Int) - (f.precision - 1 : Nat)
  -- The guess is exact or one too large.
  let scaled := if guess ≥ 0 then n / (d * twoTo guess.toNat) else n * twoTo (-guess).toNat / d
  max (if scaled < twoTo (f.precision - 1) then guess - 1 else guess) f.least

/-- The mantissa and exponent of the nearest number to a positive fraction, or nothing beyond the largest one. -/
def nearest? (f : BinaryFormat) (n d : Nat) : Option (Nat × Int) :=
  let q := f.scale n d
  let m := if q ≥ 0 then divEven n (d * twoTo q.toNat) else divEven (n * twoTo (-q).toNat) d
  let (m, q) := if m = twoTo f.precision then (twoTo (f.precision - 1), q + 1) else (m, q)
  if q > f.greatest then none else some (m, q)

end BinaryFormat

namespace Double

def ofFraction? (negative : Bool) (n d : Nat) : Option Double :=
  (BinaryFormat.double.nearest? n d).map fun (m, q) => finite negative m q

def digitCount (n : Nat) : Nat := (Nat.toDigits 10 n).length

def ofDecimal? (d : Decimal) : Option Double :=
  let size : Int := digitCount d.digits + d.exponent
  if d.digits = 0 ∨ size < -400 then some (finite d.negative 0 0)
  else if size > 400 then none
  else if d.exponent ≥ 0 then ofFraction? d.negative (d.digits * tenTo d.exponent.toNat) 1
  else ofFraction? d.negative d.digits (tenTo (-d.exponent).toNat)

def truncate? : Double → Option Int
  | finite negative m q =>
    let n : Nat := if q ≥ 0 then m * twoTo q.toNat else m / twoTo (-q).toNat
    some (if negative then -n else n)
  | _ => none

def units (negative : Bool) (m : Nat) (q : Int) : Int :=
  let n : Nat := m * twoTo (q + 1074).toNat
  if negative then -n else n

def atMost : Double → Double → Bool
  | nan, _ => true
  | _, nan => false
  | infinity a, infinity b => a || !b
  | infinity a, finite .. => a
  | finite .., infinity b => !b
  | finite a m q, finite b n r => units a m q ≤ units b n r

end Double

def digitsValue (cs : List Char) : Nat := cs.foldl (fun n c => n * 10 + (c.toNat - '0'.toNat)) 0

def exponentPart? : List Char → Option Int
  | [] => some 0
  | c :: cs =>
    if c == 'e' || c == 'E' then
      let (negative, ds) := match cs with
        | '-' :: ds => (true, ds)
        | '+' :: ds => (false, ds)
        | ds => (false, ds)
      if ds.isEmpty || !ds.all Char.isDigit then none
      else
        let n : Int := digitsValue ds
        some (if negative then -n else n)
    else none

/-- A decimal in positional or exponent notation, with a sign if any; the part before or after the point may be
left out, not both. -/
def Decimal.parse? (s : List Char) : Option Decimal :=
  let (negative, cs) := match s with
    | '-' :: cs => (true, cs)
    | '+' :: cs => (false, cs)
    | cs => (false, cs)
  let whole := cs.takeWhile Char.isDigit
  let (fraction, tail) := match cs.dropWhile Char.isDigit with
    | '.' :: r => (r.takeWhile Char.isDigit, r.dropWhile Char.isDigit)
    | r => ([], r)
  if whole.isEmpty && fraction.isEmpty then none
  else (exponentPart? tail).map fun e =>
    { negative, digits := digitsValue (whole ++ fraction), exponent := e - fraction.length }

structure Fraction where
  num : Nat
  den : Nat

namespace Fraction

def le (a b : Fraction) : Bool := a.num * b.den ≤ b.num * a.den

def lt (a b : Fraction) : Bool := a.num * b.den < b.num * a.den

def quarters (n : Nat) (q : Int) : Fraction :=
  let e := q - 2
  if e ≥ 0 then ⟨n * twoTo e.toNat, 1⟩ else ⟨n, twoTo (-e).toNat⟩

def decimal (digits : Nat) (exponent : Int) : Fraction :=
  if exponent ≥ 0 then ⟨digits * tenTo exponent.toNat, 1⟩ else ⟨digits, tenTo (-exponent).toNat⟩

/-- The exponent of the greatest power of ten that is not above a positive fraction. -/
def magnitude (a : Fraction) : Int :=
  if a.num ≥ a.den then (Double.digitCount (a.num / a.den) : Int) - 1
  else
    let j := Double.digitCount a.den - Double.digitCount a.num
    if a.num * tenTo j ≥ a.den then -(j : Int) else -(j : Int) - 1

def wholeAt (a : Fraction) (exponent : Int) : Nat :=
  if exponent ≥ 0 then a.num / (a.den * tenTo exponent.toNat) else a.num * tenTo (-exponent).toNat / a.den

end Fraction

structure Basin where
  value : Fraction
  lower : Fraction
  upper : Fraction
  /-- Whether the halfway points round to the number as well. -/
  closed : Bool

namespace Basin

def ofMantissa (m : Nat) (q : Int) : Basin :=
  { value := .quarters (4 * m) q
    lower := .quarters (if m = twoTo 52 ∧ q > -1074 then 4 * m - 1 else 4 * m - 2) q
    upper := .quarters (4 * m + 2) q
    closed := m % 2 = 0 }

def contains (b : Basin) (d : Fraction) : Bool :=
  if b.closed then b.lower.le d && d.le b.upper else b.lower.lt d && d.lt b.upper

def decimal? (b : Basin) (count : Nat) : Option (Nat × Int) :=
  let e := b.value.magnitude - (count : Int) + 1
  let d := b.value.wholeAt e
  match b.contains (.decimal d e), b.contains (.decimal (d + 1) e) with
  | true, true =>
    -- The value lies below the middle of the two if and only if the lower one is nearer.
    if b.value.lt (.decimal (10 * d + 5) (e - 1)) then some (d, e) else some (d + 1, e)
  | true, false => some (d, e)
  | false, true => some (d + 1, e)
  | false, false => none

end Basin

def dropZeros : Nat → Nat × Int → Nat × Int
  | fuel + 1, (d, e) => if d ≠ 0 ∧ d % 10 = 0 then dropZeros fuel (d / 10, e + 1) else (d, e)
  | 0, r => r

namespace Double

/-- The fewest digits that read back as the mantissa times the power of two, with their power of ten. -/
def digits (m : Nat) (q : Int) : Nat × Int :=
  if m = 0 then (0, 0)
  else
    let b := Basin.ofMantissa m q
    dropZeros 20 (((List.range 17).findSome? fun n => b.decimal? (n + 1)).getD (0, 0))

def padDigits (width : Nat) (n : Nat) : String :=
  let s := toString n
  String.ofList (List.replicate (width - s.length) '0') ++ s

/-- Digits with a point behind the first and an exponent of two digits or more. -/
def scientific (digits : Nat) (exponent : Int) : String :=
  let ds := (toString digits).toList
  let power := exponent + ds.length - 1
  String.ofList (ds.take 1) ++ (if ds.length > 1 then "." ++ String.ofList (ds.drop 1) else "") ++
    (if power < 0 then "e-" else "e+") ++ padDigits 2 power.natAbs

def positional (digits : Nat) (exponent : Int) : String :=
  let ds := toString digits
  if exponent ≥ 0 then ds ++ String.ofList (List.replicate exponent.toNat '0')
  else
    let places := (-exponent).toNat
    let ds := padDigits (places + 1) digits
    let whole := ds.length - places
    String.ofList (ds.toList.take whole) ++ "." ++ String.ofList (ds.toList.drop whole)

/-- The shortest text: positional from a ten thousandth up to below a million. -/
def short : Double → String
  | nan => "NaN"
  | infinity true => "-Inf"
  | infinity false => "+Inf"
  | finite negative m q =>
    let (d, e) := digits m q
    let power := e + (toString d).length - 1
    (if negative then "-" else "") ++
      if d = 0 then "0" else if power < -4 || power ≥ 6 then scientific d e else positional d e

end Double

structure Ratio where
  num : Int
  den : Nat
  deriving DecidableEq

namespace Ratio

def reduced (num : Int) (den : Nat) : Ratio :=
  let g := Nat.gcd num.natAbs den
  if g = 0 then ⟨0, 1⟩ else ⟨num.tdiv g, den / g⟩

def ofInt (n : Int) : Ratio := ⟨n, 1⟩

def add (a b : Ratio) : Ratio := reduced (a.num * b.den + b.num * a.den) (a.den * b.den)

def neg (a : Ratio) : Ratio := ⟨-a.num, a.den⟩

def sub (a b : Ratio) : Ratio := a.add b.neg

def mul (a b : Ratio) : Ratio := reduced (a.num * b.num) (a.den * b.den)

def div (a b : Ratio) : Ratio :=
  reduced (if b.num < 0 then -(a.num * b.den) else a.num * b.den) (a.den * b.num.natAbs)

def whole? (a : Ratio) : Option Int := if a.den = 1 then some a.num else none

def compare (a b : Ratio) : Ordering := Ord.compare (a.num * b.den) (b.num * a.den)

def ofBinary (negative : Bool) (m : Nat) (q : Int) : Ratio :=
  let n : Int := if negative then -m else m
  if q ≥ 0 then ⟨n * twoTo q.toNat, 1⟩ else reduced n (twoTo (-q).toNat)

def rounded? (f : BinaryFormat) (a : Ratio) : Option Ratio :=
  if a.num = 0 then some a else (f.nearest? a.num.natAbs a.den).map fun (m, q) => ofBinary (a.num < 0) m q

/-- The six most significant digits of a positive fraction, without zeros at the end, and their power of ten. -/
def sixDigits (a : Fraction) : Nat × Int :=
  let e := a.magnitude - 5
  let d := if e ≥ 0 then divEven a.num (a.den * tenTo e.toNat) else divEven (a.num * tenTo (-e).toNat) a.den
  dropZeros 7 (d, e)

def general (digits : Nat) (exponent : Int) : String :=
  let power := exponent + (toString digits).length - 1
  if power < -4 || power ≥ 6 then Double.scientific digits exponent else Double.positional digits exponent

def remote (digits : Nat) (exponent : Int) : String :=
  let ds := toString digits
  let power := exponent + ds.length - 1
  Double.positional digits (1 - (ds.length : Int)) ++ (if power < 0 then "e-" else "e+") ++ toString power.natAbs

/-- The fraction in a message: six digits of the nearest number of double precision.  If they hide that the number is
no integer, all of its digits. -/
def shown (a : Ratio) : String :=
  let sign := if a.num < 0 then "-" else ""
  if a.num = 0 then "0"
  else match BinaryFormat.double.nearest? a.num.natAbs a.den with
    | some (m + 1, q) =>
      let v := ofBinary false (m + 1) q
      let (d, e) := sixDigits ⟨v.num.natAbs, v.den⟩
      let s := general d e
      if a.den != 1 && !s.toList.contains '.' then Double.short (.finite (a.num < 0) (m + 1) q) else sign ++ s
    | _ =>
      let (d, e) := sixDigits ⟨a.num.natAbs, a.den⟩
      sign ++ remote d e

end Ratio

end Covenant.Number
