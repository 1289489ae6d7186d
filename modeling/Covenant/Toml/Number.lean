import Covenant.Toml.Value

/-!
# Numbers and moments of TOML documents

Whole numbers in four bases, fractions, dates and times.  The faults here concern the shape of a number that has been
cut out of a text.
-/

namespace Covenant.Toml

open Number (Double Decimal)

structure NumberText where
  chars : List Char
  isFloat : Bool

def isSignOrDigit (c : Char) : Bool := c.isDigit || c == '+' || c == '-' || c == '_'

def isExponentMark (c : Char) : Bool := c == '.' || c == 'e' || c == 'E'

variable (cs : List Char)

def cutNumber : Except Cause (NumberText × List Char) :=
  let body := cs.takeWhile fun c => isSignOrDigit c || isExponentMark c
  let rest := cs.drop body.length
  let plain : Except Cause (NumberText × List Char) :=
    match rest with
    | 'i' :: 'n' :: 'f' :: after => .ok (⟨body ++ ['i', 'n', 'f'], true⟩, after)
    | 'n' :: 'a' :: 'n' :: after => .ok (⟨body ++ ['n', 'a', 'n'], true⟩, after)
    | 'i' :: _ => .error (.numberChar 'i')
    | 'n' :: _ => .error (.numberChar 'n')
    | _ =>
      if body.isEmpty then .error .noNumber
      else .ok (⟨body, body.any isExponentMark⟩, rest)
  match cs with
  | '0' :: c :: _ :: _ =>
    if isExponentMark c then plain
    else
      let base? : Option Nat :=
        if c == 'x' then some 16 else if c == 'o' then some 8 else if c == 'b' then some 2 else none
      match base? with
      | some base =>
        let isDigit (d : Char) : Bool := d == '_' || (Text.hexValue? d).any (· < base)
        let digits := (cs.drop 2).takeWhile isDigit
        .ok (⟨'0' :: c :: digits, false⟩, cs.drop (2 + digits.length))
      | none => .ok (⟨['0'], false⟩, cs.drop 1)
  | _ => plain

def hasDoubledUnderscore : List Char → Bool
  | '_' :: '_' :: _ => true
  | _ :: cs => hasDoubledUnderscore cs
  | [] => false

def isSign (c : Char) : Bool := c == '+' || c == '-'

def withoutUnderscores : Except Cause (List Char) :=
  let digits := if cs.head?.any isSign then cs.drop 1 else cs
  if digits.isEmpty then .ok cs
  else if digits.head? == some '_' then .error (.numberShape "number cannot start with underscore")
  else if cs.getLast? == some '_' then .error (.numberShape "number cannot end with underscore")
  else if hasDoubledUnderscore cs then
    .error (.numberShape "number must have at least one digit between underscores")
  else .ok (cs.filter (· != '_'))

def signedValue (baseName : String) (base : Nat) (cs : List Char) : Except Cause Int :=
  let digits := if cs.head?.any isSign then cs.drop 1 else cs
  let text := String.ofList cs
  match (if digits.isEmpty then none else Text.digitsValue? base digits) with
  | none => .error (.wholeNumber baseName text false)
  | some n =>
    let v : Int := if cs.head? == some '-' then -n else n
    if Number.isInt64 v then .ok v else .error (.wholeNumber baseName text true)

def wholeNumber : Except Cause Int :=
  match cs with
  | '0' :: 'x' :: d :: rest => do signedValue "hexadecimal" 16 (← withoutUnderscores (d :: rest))
  | '0' :: 'o' :: d :: rest => do signedValue "octal" 8 (← withoutUnderscores (d :: rest))
  | '0' :: 'b' :: d :: rest => do signedValue "binary" 2 (← withoutUnderscores (d :: rest))
  | _ => do
    let cleaned ← withoutUnderscores cs
    let digits := if cleaned.head?.any isSign then cleaned.drop 1 else cleaned
    if digits.length > 1 && digits.head? == some '0' then
      .error (.numberShape "leading zero not allowed on decimal number")
    else signedValue "decimal" 10 cleaned

/-- The fault of an underscore in a fraction, from the character before each one on. -/
def underscoreFault? : Char → List Char → Option String
  | _, [] => none
  | before, '_' :: rest =>
    if !before.isDigit then some "number must have at least one digit between underscores"
    else match rest with
      | 'e' :: _ | 'E' :: _ => some "cannot have underscore before exponent"
      | '.' :: _ => some "cannot have underscore before decimal point"
      | _ => underscoreFault? '_' rest
  | _, c :: rest =>
    match rest with
    | '_' :: _ =>
      if c == 'e' || c == 'E' then some "cannot have underscore after exponent"
      else if c == '.' then some "cannot have underscore after decimal point"
      else underscoreFault? c rest
    | _ => underscoreFault? c rest

def pointFault? : Option Char → Bool → List Char → Option String
  | _, _, [] => none
  | before, seen, '.' :: rest =>
    if seen then some "float can have at most one decimal point"
    else if !before.any Char.isDigit then some "float decimal point must be preceded by a digit"
    else if !rest.head?.any Char.isDigit then some "float decimal point must be followed by a digit"
    else pointFault? (some '.') true rest
  | _, seen, c :: rest => pointFault? (some c) seen rest

def doubleOf : Except Cause Double :=
  let digits := if cs.head?.any isSign then cs.drop 1 else cs
  let word := String.ofList (digits.map Char.toLower)
  if word == "nan" then .ok .nan
  else if word == "inf" then .ok (.infinity (cs.head? == some '-'))
  else match Decimal.parse? cs with
    | none => .error (.fraction (String.ofList cs) false)
    | some d =>
      match Double.ofDecimal? d with
      | some v => .ok v
      | none => .error (.fraction (String.ofList cs) true)

def fraction : Except Cause Double :=
  let refuse (text : String) : Except Cause Double := .error (.numberShape text)
  if cs.head? == some '_' then refuse "number cannot start with underscore"
  else if cs.getLast? == some '_' then refuse "number cannot end with underscore"
  else match underscoreFault? '+' cs with
    | some text => refuse text
    | none =>
      let cleaned := cs.filter (· != '_')
      let digits := if cleaned.head?.any isSign then cleaned.drop 1 else cleaned
      if cleaned.head? == some '.' then refuse "float cannot start with a dot"
      else if cleaned.getLast? == some '.' then refuse "float cannot end with a dot"
      else match pointFault? none false cleaned with
        | some text => refuse text
        | none =>
          if digits.head? == some '0' && (digits.drop 1).head?.any Char.isDigit then
            refuse "float integer part cannot have leading zeroes"
          else doubleOf cleaned

def NumberText.value (n : NumberText) : Except Cause Value :=
  if n.isFloat then .float <$> fraction n.chars else .integer <$> wholeNumber n.chars

structure MomentText where
  chars : List Char
  sort : Moment

structure MomentCut where
  length : Nat := 0
  hasDate : Bool := false
  hasTime : Bool := false
  hasZone : Bool := false
  seenSpace : Bool := false

/-- Goes on with a date or time.  One blank before a digit belongs to it, and so does what follows the digit. -/
def MomentCut.extend (m : MomentCut) : List Char → MomentCut
  | [] => m
  | ' ' :: d :: rest =>
    if m.seenSpace || !d.isDigit then m
    else
      let m := { m with hasTime := true, seenSpace := true }
      match rest with
      | [] => { m with length := m.length + 2 }
      | _ :: rest => MomentCut.extend { m with length := m.length + 3 } rest
  | c :: rest =>
    let next := { m with length := m.length + 1 }
    if c.isDigit then next.extend rest
    else if c == '-' then { next with hasDate := true, hasZone := m.hasZone || m.length ≥ 8 }.extend rest
    else if c == 'T' || c == 't' || c == ':' || c == '.' then { next with hasTime := true }.extend rest
    else if c == '+' || c == 'Z' || c == 'z' then { next with hasZone := true }.extend rest
    else m

def cutMoment : MomentText × List Char :=
  let m := MomentCut.extend {} cs
  let sort : Moment :=
    if m.hasTime then if m.hasDate then if m.hasZone then .instant else .dateTime else .time else .date
  (⟨cs.take m.length, sort⟩, cs.drop m.length)

def refuseMoment {α : Type} (text : String) : Except Cause α := .error (.momentShape text)

def decimalDigits : Except Cause Nat :=
  if cs.all Char.isDigit then .ok (Number.digitsValue cs) else refuseMoment "expected digit (0-9)"

def daysIn (year month : Nat) : Nat :=
  if month == 2 then (if year % 4 == 0 && (year % 100 != 0 || year % 400 == 0) then 29 else 28)
  else if [4, 6, 9, 11].contains month then 30
  else 31

def checkDate : Except Cause Unit := do
  if cs.length != 10 || cs[4]? != some '-' || cs[7]? != some '-' then
    refuseMoment "dates are expected to have the format YYYY-MM-DD"
  let year ← decimalDigits (cs.take 4)
  let month ← decimalDigits ((cs.drop 5).take 2)
  let day ← decimalDigits (cs.drop 8)
  if month < 1 || month > 12 || day < 1 || day > daysIn year month then refuseMoment "impossible date"

def checkTime : Except Cause (List Char) := do
  if cs.length < 8 then refuseMoment "times are expected to have the format HH:MM:SS[.NNNNNN]"
  let hour ← decimalDigits (cs.take 2)
  if hour > 23 then refuseMoment "hour cannot be greater 23"
  if cs[2]? != some ':' then refuseMoment "expecting colon between hours and minutes"
  let minute ← decimalDigits ((cs.drop 3).take 2)
  if minute > 59 then refuseMoment "minutes cannot be greater 59"
  if cs[5]? != some ':' then refuseMoment "expecting colon between minutes and seconds"
  let second ← decimalDigits ((cs.drop 6).take 2)
  if second > 60 then refuseMoment "seconds cannot be greater 60"
  match cs.drop 8 with
  | '.' :: rest =>
    match rest with
    | [] => refuseMoment "nanoseconds need at least one digit"
    | c :: _ =>
      if c.isDigit then return rest.dropWhile Char.isDigit
      else refuseMoment "need at least one digit after fraction point"
  | rest => return rest

def checkDateTime : Except Cause (List Char) := do
  if cs.length < 11 then
    refuseMoment "local datetimes are expected to have the format YYYY-MM-DDTHH:MM:SS[.NNNNNNNNN]"
  checkDate (cs.take 10)
  if !(["T", "t", " "].contains (String.ofList ((cs.drop 10).take 1))) then
    refuseMoment "datetime separator is expected to be T or a space"
  checkTime (cs.drop 11)

def checkZone : Except Cause Unit := do
  match cs with
  | [c] => if c == 'Z' || c == 'z' then return () else refuseMoment "invalid date-time timezone"
  | c :: rest =>
    if c == 'Z' || c == 'z' then refuseMoment "extra bytes at the end of the timezone"
    if cs.length != 6 then refuseMoment "invalid date-time timezone"
    if c != '+' && c != '-' then refuseMoment "invalid timezone offset character"
    if cs[3]? != some ':' then refuseMoment "expected a : separator"
    let hours ← decimalDigits (rest.take 2)
    if hours > 23 then refuseMoment "invalid timezone offset hours"
    let minutes ← decimalDigits (rest.drop 3)
    if minutes > 59 then refuseMoment "invalid timezone offset minutes"
  | [] => refuseMoment "invalid date-time timezone"

def MomentText.value (m : MomentText) : Except Cause Value := do
  match m.sort with
  | .date => checkDate m.chars
  | .time =>
    if !(← checkTime m.chars).isEmpty then refuseMoment "extra characters at the end of a local time"
  | .dateTime =>
    if !(← checkDateTime m.chars).isEmpty then refuseMoment "extra characters at the end of a local date time"
  | .instant => checkZone (← checkDateTime m.chars)
  return .moment m.sort

end Covenant.Toml
