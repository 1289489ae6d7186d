import Covenant.Source.Lexeme
import Covenant.Source.Type

/-!
# Constants

Constants have exact values: truth values, texts, and numbers of any size, whole, fractional or complex.  A whole
number that was written as a fraction remains one.  A basic type holds a constant if its values include the constant,
up to the precision of fractions.
-/

namespace Covenant.Source

open Number (Ratio BinaryFormat)

inductive Quantity where
  | whole (n : Int)
  | ratio (r : Ratio)
  deriving DecidableEq

namespace Quantity

def toRatio : Quantity → Ratio
  | whole n => .ofInt n
  | ratio r => r

def whole? : Quantity → Option Int
  | whole n => some n
  | ratio r => r.whole?

def isZero (q : Quantity) : Bool := q.toRatio.num == 0

def text : Quantity → String
  | whole n => toString n
  | ratio r => r.shown

def lift (onInts : Int → Int → Int) (onRatios : Ratio → Ratio → Ratio) : Quantity → Quantity → Quantity
  | whole a, whole b => whole (onInts a b)
  | a, b => ratio (onRatios a.toRatio b.toRatio)

def add : Quantity → Quantity → Quantity := lift (· + ·) Ratio.add

def sub : Quantity → Quantity → Quantity := lift (· - ·) Ratio.sub

def mul : Quantity → Quantity → Quantity := lift (· * ·) Ratio.mul

def div (a b : Quantity) : Quantity := ratio (a.toRatio.div b.toRatio)

def neg : Quantity → Quantity
  | whole n => whole (-n)
  | ratio r => ratio r.neg

end Quantity

inductive Constant where
  | bool (b : Bool)
  | string (s : String)
  | number (q : Quantity)
  | complex (re im : Quantity)
  deriving DecidableEq

namespace Constant

def int (n : Int) : Constant := number (.whole n)

def longestText : Nat := 72

def text : Constant → String
  | bool b => if b then "true" else "false"
  | string s =>
    let q := Text.quoted s
    if q.length > longestText then String.ofList (q.toList.take (longestText - 3)) ++ "..." else q
  | number q => q.text
  | complex re im => "(" ++ re.text ++ " + " ++ im.text ++ "i)"

def whole? : Constant → Option Int
  | number q => q.whole?
  | complex re im => if im.isZero then re.whole? else none
  | _ => none

def ratio? : Constant → Option Ratio
  | number q => some q.toRatio
  | complex re im => if im.isZero then some re.toRatio else none
  | _ => none

def realPart : Constant → Quantity
  | number q => q
  | complex re _ => re
  | _ => .whole 0

def imaginaryPart : Constant → Quantity
  | complex _ im => im
  | _ => .whole 0

def isZero : Constant → Bool
  | number q => q.isZero
  | complex re im => re.isZero && im.isZero
  | _ => false

def isNegative : Constant → Bool
  | number q => q.toRatio.num < 0
  | _ => false

def bitLength : Constant → Nat
  | number (.whole n) => if n = 0 then 0 else n.natAbs.log2 + 1
  | _ => 0

/-- The bits that two integers share; a negative one has ones without end in front. -/
def bitAnd (a b : Int) : Int :=
  match a, b with
  | .ofNat m, .ofNat n => .ofNat (m &&& n)
  | .ofNat m, .negSucc n => .ofNat (m - (m &&& n))
  | .negSucc m, .ofNat n => .ofNat (n - (n &&& m))
  | .negSucc m, .negSucc n => .negSucc (m ||| n)

def bitNot (a : Int) : Int := -a - 1

def bitOr (a b : Int) : Int := bitNot (bitAnd (bitNot a) (bitNot b))

def bitXor (a b : Int) : Int := bitOr (bitAnd a (bitNot b)) (bitAnd (bitNot a) b)

def wholeOperation? (op : String) (a b : Int) : Option Int :=
  match op with
  | "/" => some (a.tdiv b)
  | "%" => some (a.tmod b)
  | "&" => some (bitAnd a b)
  | "|" => some (bitOr a b)
  | "^" => some (bitXor a b)
  | "&^" => some (bitAnd a (bitNot b))
  | _ => none

def complexOperation (op : String) (a b : Constant) : Constant :=
  let (p, q) := (a.realPart, a.imaginaryPart)
  let (r, s) := (b.realPart, b.imaginaryPart)
  match op with
  | "+" => complex (p.add r) (q.add s)
  | "-" => complex (p.sub r) (q.sub s)
  | "*" => complex ((p.mul r).sub (q.mul s)) ((q.mul r).add (p.mul s))
  | _ =>
    let size := (r.mul r).add (s.mul s)
    complex (((p.mul r).add (q.mul s)).div size) (((q.mul r).sub (p.mul s)).div size)

def operation (op : String) (isWhole : Bool) (a b : Constant) : Constant :=
  match a, b with
  | bool x, bool y => bool (if op == "&&" then x && y else x || y)
  | string x, string y => string (x ++ y)
  | number x, number y =>
    let whole : Option Int := do
      if op == "/" && !isWhole then none
      wholeOperation? op (← x.whole?) (← y.whole?)
    match whole with
    | some n => int n
    | none =>
      number (if op == "+" then x.add y else if op == "-" then x.sub y else if op == "*" then x.mul y else x.div y)
  | _, _ => complexOperation op a b

def shifted (op : String) (n : Int) (count : Nat) : Int :=
  if op == "<<" then n * Number.twoTo count else n.fdiv (Number.twoTo count)

def compareTexts (a b : String) : Ordering :=
  List.compareLex (fun x y => compare x.toNat y.toNat) (Text.toOctets a) (Text.toOctets b)

def isEqual (a b : Constant) : Bool :=
  match a, b with
  | bool x, bool y => x == y
  | string x, string y => x == y
  | _, _ =>
    a.realPart.toRatio.compare b.realPart.toRatio == .eq &&
      a.imaginaryPart.toRatio.compare b.imaginaryPart.toRatio == .eq

def isAlike (a b : Constant) : Bool :=
  match a, b with
  | bool _, bool _ | string _, string _ => a.isEqual b
  | number _, number _ | number _, complex _ _ | complex _ _, number _ | complex _ _, complex _ _ => a.isEqual b
  | _, _ => false

def compares (op : String) (a b : Constant) : Bool :=
  match op with
  | "==" => a.isEqual b
  | "!=" => !a.isEqual b
  | _ =>
    let order := match a, b with
      | string x, string y => compareTexts x y
      | _, _ => a.realPart.toRatio.compare b.realPart.toRatio
    match op with
    | "<" => order == .lt
    | "<=" => order != .gt
    | ">" => order == .gt
    | _ => order != .lt

def negated : Constant → Constant
  | number q => number q.neg
  | complex re im => complex re.neg im.neg
  | c => c

def greatestExponent : Nat := 4000000

/-- A mantissa times a power of a base, if the power can be followed; a vanishing one gives zero. -/
def scaled? (mantissa : Nat) (base : Nat) (exponent : Int) : Option Ratio :=
  if exponent.natAbs ≤ greatestExponent then
    some (if exponent ≥ 0 then .ofInt (mantissa * base.pow exponent.toNat)
      else .reduced mantissa (base.pow (-exponent).toNat))
  else if exponent < 0 || mantissa == 0 then some (.ofInt 0)
  else none

def fractionOf? (n : NumberText) : Option Ratio := do
  let digits (cs : List Char) : List Char := cs.filter (· != '_')
  let fraction := digits (n.fraction.getD [])
  let base := if n.base == .legacyOctal then 10 else n.base.limit
  let mantissa ← Text.digitsValue? base (digits n.whole ++ fraction)
  let exponent : Int ← match n.exponent with
    | some (_, sign, ds) => do
      let e ← Text.digitsValue? 10 (digits ds)
      pure (if sign == ['-'] then -(e : Int) else e)
    | none => pure 0
  if n.base == .hexadecimal then scaled? mantissa 2 (exponent - 4 * fraction.length)
  else if base == 10 then scaled? mantissa 10 (exponent - fraction.length)
  else return .ofInt mantissa

def runeOf? : List Char → Option Nat
  | '\\' :: cs => do
    match ← Text.escaped? '\'' cs with
    | ([octet], []) => return octet.toNat
    | (octets, []) => (Text.ofOctets octets).toList.head?.map Char.toNat
    | _ => none
  | [c] => some c.toNat
  | _ => none

def textOf (s : String) : Option String :=
  match s.toList with
  | '"' :: rest => Text.unquoted? '"' rest.dropLast
  | _ :: rest => some (String.ofList rest.dropLast)
  | [] => none

def ofLiteral? (sort : LiteralSort) (text : String) : Option Constant :=
  let n := (NumberText.scan text.toList).1
  match sort with
  | .int => (Text.digitsValue? n.base.limit (n.whole.filter (· != '_'))).map fun v => int v
  | .float => (fractionOf? n).map fun r => number (.ratio r)
  | .imaginary => (fractionOf? n).map fun r => complex (.whole 0) (.ratio r)
  | .rune => (runeOf? (text.toList.drop 1).dropLast).map fun v => int v
  | .string => (textOf text).map string

def bounds (b : Basic) : Int × Int :=
  let size : Nat := b.bits
  if b.isUnsigned then (0, (Number.twoTo size : Int) - 1)
  else (-(Number.twoTo (size - 1) : Int), (Number.twoTo (size - 1) : Int) - 1)

def roundedTo? (b : Basic) (r : Ratio) : Option Quantity :=
  let format := match b.proper with
    | .float32 | .complex64 => BinaryFormat.single
    | _ => BinaryFormat.double
  (r.rounded? format).map .ratio

def held? (b : Basic) (c : Constant) : Option Constant :=
  if b.isInteger then do
    let n ← c.whole?
    let (least, greatest) := bounds b
    if least ≤ n && n ≤ greatest then some (int n) else none
  else if b.isFloat then do
    let q ← roundedTo? b (← c.ratio?)
    return number q
  else if b.isComplex then
    match c with
    | number _ | complex _ _ => do
      let re ← roundedTo? b c.realPart.toRatio
      let im ← roundedTo? b c.imaginaryPart.toRatio
      return complex re im
    | _ => none
  else match c, b with
    | bool _, .bool | string _, .string => some c
    | _, _ => none

def character (n : Int) : Constant :=
  string (String.singleton (if 0 ≤ n && Text.isScalarValue n.toNat then Char.ofNat n.toNat else Char.ofNat 0xFFFD))

end Constant

end Covenant.Source
