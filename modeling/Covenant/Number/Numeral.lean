import Covenant.Text.Quoted

/-!
# Numerals

Numbers as people type them where no document format has a say: integers with the base named in front, and fractions
in decimal or hexadecimal notation.  Underscores may divide digits.
-/

namespace Covenant.Number

inductive NumeralFault where
  | shape | range
  deriving Repr

def NumeralFault.text : NumeralFault → String
  | shape => "invalid syntax"
  | range => "value out of range"

def splitSign : List Char → Bool × List Char
  | '-' :: cs => (true, cs)
  | '+' :: cs => (false, cs)
  | cs => (false, cs)

/-- Whether every underscore stands between digits; `after` says that a digit is before the text. -/
def underscoresDivide (isDigit : Char → Bool) (after : Bool) : List Char → Bool
  | [] => true
  | '_' :: c :: cs => after && isDigit c && underscoresDivide isDigit true cs
  | ['_'] => false
  | c :: cs => underscoresDivide isDigit (isDigit c) cs

/-- The base that a numeral names, the digits, and whether it names one.  A leading zero alone means base eight. -/
def splitBase : List Char → Nat × List Char × Bool
  | '0' :: c :: d :: cs =>
    if c == 'x' || c == 'X' then (16, d :: cs, true)
    else if c == 'o' || c == 'O' then (8, d :: cs, true)
    else if c == 'b' || c == 'B' then (2, d :: cs, true)
    else (8, c :: d :: cs, true)
  | '0' :: cs => (8, cs, true)
  | cs => (10, cs, false)

def isHexDigit (c : Char) : Bool := (Text.hexValue? c).isSome

def digitsUpTo64 (base : Nat) : Nat → List Char → Except NumeralFault Nat
  | n, [] => .ok n
  | n, '_' :: cs => digitsUpTo64 base n cs
  | n, c :: cs =>
    match Text.hexValue? c with
    | some d =>
      if d ≥ base then .error .shape
      else if n * base + d ≥ wordBound then .error .range
      else digitsUpTo64 base (n * base + d) cs
    | none => .error .shape

def integer64 (cs : List Char) : Except NumeralFault Int := do
  let (negative, unsigned) := splitSign cs
  let (base, digits, isBased) := splitBase unsigned
  if unsigned.isEmpty then .error .shape
  let n ← digitsUpTo64 base 0 digits
  let isDigit (c : Char) : Bool := if base = 16 then isHexDigit c else c.isDigit
  if digits.contains '_' && !underscoresDivide isDigit isBased digits then .error .shape
  let v : Int := if negative then -n else n
  if isInt64 v then .ok v else .error .range

def hexDouble (negative : Bool) (cs : List Char) : Except NumeralFault Double :=
  let whole := cs.takeWhile isHexDigit
  let (fraction, tail) := match cs.drop whole.length with
    | '.' :: r => (r.takeWhile isHexDigit, r.dropWhile isHexDigit)
    | r => ([], r)
  let power? : Option Int := match tail with
    | p :: r => if p == 'p' || p == 'P' then exponentPart? ('e' :: r) else none
    | [] => none
  match power?, Text.digitsValue? 16 (whole ++ fraction) with
  | some power, some n =>
    if whole.isEmpty && fraction.isEmpty then .error .shape
    else
      let q := power - 4 * (fraction.length : Int)
      let size := q + n.log2
      let value? := if n = 0 || size < -1100 then some (Double.finite negative 0 0)
        else if size > 1100 then none
        else if q ≥ 0 then Double.ofFraction? negative (n * twoTo q.toNat) 1
        else Double.ofFraction? negative n (twoTo (-q).toNat)
      match value? with
      | some v => .ok v
      | none => .error .range
  | _, _ => .error .shape

def double (cs : List Char) : Except NumeralFault Double :=
  let (negative, unsigned) := splitSign cs
  let word := String.ofList (unsigned.map Char.toLower)
  if word == "inf" || word == "infinity" then .ok (.infinity negative)
  else if String.ofList (cs.map Char.toLower) == "nan" then .ok .nan
  else
    let plain := unsigned.filter (· != '_')
    match unsigned with
    | '0' :: x :: digits =>
      if x == 'x' || x == 'X' then
        if unsigned.contains '_' && !underscoresDivide isHexDigit true digits then .error .shape
        else hexDouble negative (plain.drop 2)
      else decimal negative unsigned plain
    | _ => decimal negative unsigned plain
where
  decimal (negative : Bool) (unsigned plain : List Char) : Except NumeralFault Double :=
    if unsigned.contains '_' && !underscoresDivide Char.isDigit false unsigned then .error .shape
    else if plain.head?.any fun c => c == '+' || c == '-' then .error .shape
    else match Decimal.parse? plain with
      | none => .error .shape
      | some d =>
        match Double.ofDecimal? { d with negative } with
        | some v => .ok v
        | none => .error .range

end Covenant.Number
