import Covenant.Text.Quoted

/-!
# Scalars and faults of YAML texts

A plain scalar without a tag resolves by its look: words for truth values and null, numbers in several bases, dates,
and else a text.  The message of a fault shows the line of its context, unless that is the first line, and else its
own; the first line is never shown.
-/

namespace Covenant.Yaml.Base64

def sextet? (c : Char) : Option Nat :=
  if 'A' ≤ c && c ≤ 'Z' then some (c.toNat - 'A'.toNat)
  else if 'a' ≤ c && c ≤ 'z' then some (c.toNat - 'a'.toNat + 26)
  else if c.isDigit then some (c.toNat - '0'.toNat + 52)
  else if c == '+' then some 62
  else if c == '/' then some 63
  else none

def octets? : List Char → Option (List UInt8)
  | [] => some []
  | [a, b, '=', '='] => do
    let n := (← sextet? a) * 64 + (← sextet? b)
    return [(n / 16).toUInt8]
  | [a, b, c, '='] => do
    let n := ((← sextet? a) * 64 + (← sextet? b)) * 64 + (← sextet? c)
    return [(n / 1024).toUInt8, (n / 4).toUInt8]
  | a :: b :: c :: d :: rest => do
    let n := (((← sextet? a) * 64 + (← sextet? b)) * 64 + (← sextet? c)) * 64 + (← sextet? d)
    return (n / 65536).toUInt8 :: (n / 256).toUInt8 :: n.toUInt8 :: (← octets? rest)
  | _ => none

def decode? (s : String) : Option String :=
  (octets? (s.toList.filter fun c => c != '\n' && c != '\r')).map Text.ofOctets

def sextetChar (n : Nat) : Char :=
  "ABCDEFGHIJKLMNOPQRSTUVWXYZabcdefghijklmnopqrstuvwxyz0123456789+/".toList.getD n '='

def characters : List UInt8 → List Char
  | a :: b :: c :: rest =>
    let n := a.toNat * 65536 + b.toNat * 256 + c.toNat
    sextetChar (n / 262144) :: sextetChar (n / 4096 % 64) :: sextetChar (n / 64 % 64) :: sextetChar (n % 64) ::
      characters rest
  | [a, b] =>
    let n := a.toNat * 1024 + b.toNat * 4
    [sextetChar (n / 4096), sextetChar (n / 64 % 64), sextetChar (n % 64), '=']
  | [a] => [sextetChar (a.toNat / 4), sextetChar (a.toNat % 4 * 16), '=', '=']
  | [] => []

def linesBy : Nat → List Char → List (List Char)
  | 0, _ | _, [] => []
  | fuel + 1, cs => cs.take 70 :: linesBy fuel (cs.drop 70)

def encode (s : String) : String :=
  let cs := characters (Text.toOctets s)
  if cs.length < 70 then String.ofList cs
  else String.ofList ((linesBy cs.length cs).flatMap (· ++ ['\n']))

end Covenant.Yaml.Base64

namespace Covenant.Yaml

inductive Zone where
  /-- None was written, or the letter for none. -/
  | universal
  | zero
  | distant
  deriving DecidableEq

structure Timestamp where
  year : Nat
  month : Nat
  day : Nat
  hour : Nat := 0
  minute : Nat := 0
  second : Nat := 0
  nanosecond : Nat := 0
  zone : Zone := .universal
  deriving DecidableEq

namespace Timestamp

def digitsNumber (cs : List Char) : Nat := cs.foldl (fun n d => n * 10 + (d.toNat - 48)) 0

def shortNumber? : List Char → Option (Nat × List Char)
  | a :: b :: cs =>
    if !a.isDigit then none
    else if b.isDigit then some (digitsNumber [a, b], cs)
    else some (digitsNumber [a], b :: cs)
  | [a] => if a.isDigit then some (digitsNumber [a], []) else none
  | [] => none

def after? (x : Char) : List Char → Option (List Char)
  | c :: cs => if c == x then some cs else none
  | [] => none

def isLeapYear (year : Nat) : Bool := year % 4 == 0 && (year % 100 != 0 || year % 400 == 0)

def daysIn (year month : Nat) : Nat :=
  if month == 2 then if isLeapYear year then 29 else 28
  else if [4, 6, 9, 11].contains month then 30
  else 31

def date? (cs : List Char) : Option (Timestamp × List Char) := do
  let year := cs.takeWhile Char.isDigit
  if year.length ≠ 4 then none
  else
    let (month, cs) ← shortNumber? (← after? '-' (cs.drop 4))
    let (day, cs) ← shortNumber? (← after? '-' cs)
    let year := digitsNumber year
    if 1 ≤ month && month ≤ 12 && 1 ≤ day && day ≤ daysIn year month then some ({ year, month, day }, cs) else none

def time? (t : Timestamp) (cs : List Char) : Option (Timestamp × List Char) := do
  let (hour, cs) ← shortNumber? cs
  let (minute, cs) ← shortNumber? (← after? ':' cs)
  let (second, cs) ← shortNumber? (← after? ':' cs)
  if hour ≥ 24 || minute ≥ 60 || second ≥ 60 then none
  else
    let t := { t with hour, minute, second }
    match cs with
    | p :: d :: _ =>
      if (p == '.' || p == ',') && d.isDigit then
        let digits := (cs.tail.takeWhile Char.isDigit).take 9
        some ({ t with nanosecond := digitsNumber (digits ++ List.replicate (9 - digits.length) '0') },
          cs.tail.dropWhile Char.isDigit)
      else some (t, cs)
    | _ => some (t, cs)

def zone? : List Char → Option Zone
  | ['Z'] => some .universal
  | [sign, a, b, ':', c, d] =>
    if (sign == '+' || sign == '-') && [a, b, c, d].all Char.isDigit && digitsNumber [a, b] ≤ 24 &&
        digitsNumber [c, d] ≤ 60 then
      some (if digitsNumber [a, b, c, d] = 0 then .zero else .distant)
    else none
  | _ => none

def ofText? (s : String) : Option Timestamp := do
  match ← date? s.toList with
  | (t, []) => return t
  | (t, c :: cs) =>
    if c == 'T' || c == 't' then
      let (t, rest) ← time? t cs
      return { t with zone := ← zone? rest }
    else if c == ' ' then
      let (t, rest) ← time? t (cs.dropWhile (· == ' '))
      if rest.isEmpty then return t else none
    else none

def monthNames : List String :=
  ["January", "February", "March", "April", "May", "June", "July", "August", "September", "October", "November",
    "December"]

def shown (t : Timestamp) : String :=
  let zone := match t.zone with
    | .universal => "time.UTC"
    | .zero => "time.Local"
    | .distant => "time.Location(\"\")"
  "time.Date(" ++ toString t.year ++ ", time." ++ monthNames.getD (t.month - 1) "" ++
    String.join ([t.day, t.hour, t.minute, t.second, t.nanosecond].map fun n => ", " ++ toString n) ++ ", " ++
      zone ++ ")"

end Timestamp

/-- A place in a text.  Lines and columns count from zero. -/
structure Mark where
  index : Nat := 0
  line : Nat := 0
  column : Nat := 0

inductive Problem where
  | badStart
  | valueNotAllowed
  | keyNotAllowed
  | entryNotAllowed
  | colonMissing
  | tooDeep
  | directiveName
  | directiveNameEnd
  | unknownDirective
  | lineEnd
  | versionNumber
  | versionLength
  | versionDot
  | tagMark
  | tagBlank
  | tagBlankOrLine
  | tagUri
  | tagClose
  | escapedOctet
  | leadingOctet
  | trailingOctet
  | anchorName
  | indentZero
  | blockTab
  | plainTab
  | unexpectedIndicator
  | unexpectedEnd
  | unknownEscape
  | escapeDigits
  | escapeValue
  | documentStart
  | repeatedVersion
  | wrongVersion
  | repeatedTag
  | undefinedHandle
  | nodeContent
  | entryIndicator
  | expectedKey
  | sequenceEnd
  | mappingEnd

def Problem.text : Problem → String
  | badStart => "found character that cannot start any token"
  | valueNotAllowed => "mapping values are not allowed in this context"
  | keyNotAllowed => "mapping keys are not allowed in this context"
  | entryNotAllowed => "block sequence entries are not allowed in this context"
  | colonMissing => "could not find expected ':'"
  | tooDeep => "exceeded max depth of 10000"
  | directiveName => "could not find expected directive name"
  | directiveNameEnd => "found unexpected non-alphabetical character"
  | unknownDirective => "found unknown directive name"
  | lineEnd => "did not find expected comment or line break"
  | versionNumber => "did not find expected version number"
  | versionLength => "found extremely long version number"
  | versionDot => "did not find expected digit or '.' character"
  | tagMark => "did not find expected '!'"
  | tagBlank => "did not find expected whitespace"
  | tagBlankOrLine => "did not find expected whitespace or line break"
  | tagUri => "did not find expected tag URI"
  | tagClose => "did not find the expected '>'"
  | escapedOctet => "did not find URI escaped octet"
  | leadingOctet => "found an incorrect leading UTF-8 octet"
  | trailingOctet => "found an incorrect trailing UTF-8 octet"
  | anchorName => "did not find expected alphabetic or numeric character"
  | indentZero => "found an indentation indicator equal to 0"
  | blockTab => "found a tab character where an indentation space is expected"
  | plainTab => "found a tab character that violates indentation"
  | unexpectedIndicator => "found unexpected document indicator"
  | unexpectedEnd => "found unexpected end of stream"
  | unknownEscape => "found unknown escape character"
  | escapeDigits => "did not find expected hexdecimal number"
  | escapeValue => "found invalid Unicode character escape code"
  | documentStart => "did not find expected <document start>"
  | repeatedVersion => "found duplicate %YAML directive"
  | wrongVersion => "found incompatible YAML document"
  | repeatedTag => "found duplicate %TAG directive"
  | undefinedHandle => "found undefined tag handle"
  | nodeContent => "did not find expected node content"
  | entryIndicator => "did not find expected '-' indicator"
  | expectedKey => "did not find expected key"
  | sequenceEnd => "did not find expected ',' or ']'"
  | mappingEnd => "did not find expected ',' or '\x7d'"

inductive Fault where
  | token (context place : Mark) (problem : Problem)
  | grammar (context place : Mark) (problem : Problem)
  | controlCharacter
  | unknownAnchor (name : String)
  | selfContained (anchor : String)
  | aliasing
  | mergeValue
  | mapKey (shown : String)
  | unhashable (type : String)
  | tagged (found text tag : String)
  | base64
  | exhausted

def shownLine (context place : Mark) : Nat := if context.line ≠ 0 then context.line else place.line

def linePart (line : Nat) : String := "line " ++ toString line ++ ": "

def Fault.message : Fault → String
  | token context place problem =>
    let line := shownLine context place
    "yaml: " ++ (if line = 0 then "" else linePart (line + 1)) ++ problem.text
  | grammar context place problem =>
    let line := shownLine context place
    "yaml: " ++ (if line = 0 then "" else linePart line) ++ problem.text
  | controlCharacter => "yaml: control characters are not allowed"
  | unknownAnchor name => "yaml: unknown anchor '" ++ name ++ "' referenced"
  | selfContained anchor => "yaml: anchor '" ++ anchor ++ "' value contains itself"
  | aliasing => "yaml: document contains excessive aliasing"
  | mergeValue => "yaml: map merge requires map or sequence of maps as the value"
  | mapKey shown => "yaml: invalid map key: " ++ shown
  | unhashable type => "yaml: runtime error: hash of unhashable type " ++ type
  | tagged found text tag => "yaml: cannot decode " ++ found ++ " `" ++ text ++ "` as a " ++ tag
  | base64 => "yaml: !!binary value contains invalid base64 data"
  | exhausted => "yaml: exceeded max depth of 10000"

open Number (Decimal Double)

def tagPrefix : String := "tag:yaml.org,2002:"

def strTag : String := "!!str"
def intTag : String := "!!int"
def floatTag : String := "!!float"
def boolTag : String := "!!bool"
def nullTag : String := "!!null"
def timestampTag : String := "!!timestamp"
def binaryTag : String := "!!binary"
def mergeTag : String := "!!merge"
def seqTag : String := "!!seq"
def mapTag : String := "!!map"

def shorten (tag : String) : String :=
  if Text.hasPrefix tagPrefix tag then "!!" ++ String.ofList (tag.toList.drop tagPrefix.length) else tag

inductive ScalarValue where
  | null
  | bool (value : Bool)
  | int (value : Int)
  | float (value : Double)
  | timestamp (value : Timestamp)
  | text (value : String)
  deriving DecidableEq

def ScalarValue.tag : ScalarValue → String
  | null => nullTag
  | bool _ => boolTag
  | int _ => intTag
  | float _ => floatTag
  | timestamp _ => timestampTag
  | text _ => strTag

def words : List (String × ScalarValue) :=
  [("true", .bool true), ("True", .bool true), ("TRUE", .bool true),
    ("false", .bool false), ("False", .bool false), ("FALSE", .bool false),
    ("", .null), ("~", .null), ("null", .null), ("Null", .null), ("NULL", .null),
    (".nan", .float .nan), (".NaN", .float .nan), (".NAN", .float .nan),
    (".inf", .float (.infinity false)), (".Inf", .float (.infinity false)), (".INF", .float (.infinity false)),
    ("+.inf", .float (.infinity false)), ("+.Inf", .float (.infinity false)), ("+.INF", .float (.infinity false)),
    ("-.inf", .float (.infinity true)), ("-.Inf", .float (.infinity true)), ("-.INF", .float (.infinity true))]

def digitValue (c : Char) : Nat :=
  if c.isDigit then c.toNat - 48
  else if 'a' ≤ c && c ≤ 'z' then c.toNat - 'a'.toNat + 10
  else if 'A' ≤ c && c ≤ 'Z' then c.toNat - 'A'.toNat + 10
  else 36

def natInBase? (base : Nat) (cs : List Char) : Option Nat :=
  if cs.isEmpty || cs.any (digitValue · ≥ base) then none
  else some (cs.foldl (fun n c => n * base + digitValue c) 0)

def natAnyBase? : List Char → Option Nat
  | '0' :: x :: cs =>
    if x == 'x' || x == 'X' then natInBase? 16 cs
    else if x == 'b' || x == 'B' then natInBase? 2 cs
    else if x == 'o' || x == 'O' then natInBase? 8 cs
    else natInBase? 8 (x :: cs)
  | cs => natInBase? 10 cs

def signed (cs : List Char) : Option Bool × List Char :=
  match cs with
  | '-' :: cs => (some true, cs)
  | '+' :: cs => (some false, cs)
  | cs => (none, cs)

def int64Or? (sign : Option Bool) (n : Nat) : Option Int :=
  match sign with
  | some true => if (n : Int) ≤ Number.int64Bound then some (-n) else none
  | some false => if (n : Int) < Number.int64Bound then some n else none
  | none => if n < Number.wordBound then some n else none

/-- An integer with the base named at its beginning, and with a sign if any in front of that or behind it. -/
def integer? (cs : List Char) : Option Int :=
  let (sign, digits) := signed cs
  match natAnyBase? digits with
  | some n => int64Or? sign n
  | none =>
    -- A sign may also stand between the base and the digits.
    match sign, digits with
    | none, '0' :: x :: rest =>
      let base := if x == 'b' then 2 else if x == 'o' then 8 else 0
      let (inner, ds) := signed rest
      if base = 0 || inner.isNone then none else (natInBase? base ds).bind (int64Or? inner)
    | _, _ => none

def underscoresFit : Bool → List Char → Bool
  | _, [] => true
  | afterDigit, '_' :: c :: cs => afterDigit && c.isDigit && underscoresFit true cs
  | _, ['_'] => false
  | _, c :: cs => underscoresFit c.isDigit cs

def withoutUnderscores (cs : List Char) : List Char := cs.filter (· != '_')

def float? (cs : List Char) : Option Double := (Decimal.parse? cs).bind Double.ofDecimal?

def number? (s : String) : Option ScalarValue :=
  match s.toList with
  | '.' :: cs =>
    if underscoresFit false ('.' :: cs) then (float? (withoutUnderscores ('.' :: cs))).map .float else none
  | cs =>
    let plain := withoutUnderscores cs
    (integer? plain).map .int <|> (float? plain).map .float

def mayResolve (s : String) : Bool :=
  match s.toList with
  | [] => true
  | c :: _ => c.isDigit || "+-.yYnNtTfFoO~".toList.contains c

def startsNumber (s : String) : Bool := s.toList.head?.any fun c => c.isDigit || c == '+' || c == '-' || c == '.'

/-- The value that a text looks like; dates count only if `dates` says so. -/
def resolveLook (dates : Bool) (s : String) : ScalarValue :=
  if !mayResolve s then .text s
  else match words.lookup s with
    | some v => v
    | none =>
      if !startsNumber s then .text s
      else match (if dates then Timestamp.ofText? s else none) with
        | some t => .timestamp t
        | none => (number? s).getD (.text s)

def resolvePlain (s : String) : ScalarValue := resolveLook true s

def lookTags : List String := [boolTag, intTag, floatTag, nullTag, timestampTag]

def resolveTagged (tag s : String) : Except Fault ScalarValue :=
  if !lookTags.contains tag then .ok (.text s)
  else
    let v := resolveLook (tag == timestampTag) s
    if v.tag == tag then .ok v
    else match v with
      | .int n =>
        if tag == floatTag && n < Number.int64Bound then
          .ok (.float ((Double.ofDecimal? { negative := n < 0, digits := n.natAbs }).getD .nan))
        else .error (.tagged v.tag s tag)
      | _ => .error (.tagged v.tag s tag)

end Covenant.Yaml
