import Covenant.Text.Quoted

/-!
# Values of TOML documents

A document is a table of keys and values in the order in which they were written.  What can be wrong with it, and how
keys and values are written: a text stands between single quotes unless it has a character that cannot stand there.
-/

namespace Covenant.Toml

open Number (Double)

/-- The sorts of dates and times.  No setting has one of them as its value, so only the sort is kept. -/
inductive Moment where
  | instant | dateTime | date | time

inductive Value where
  | string (text : String)
  | integer (value : Int)
  | float (value : Double)
  | bool (value : Bool)
  | moment (sort : Moment)
  /-- A list of values, or the tables that were declared one by one under one name. -/
  | array (items : List Value) (areTables : Bool)
  | table (entries : List (String × Value))

abbrev Entries := List (String × Value)

inductive Use where
  | value | table | tables
  deriving DecidableEq

def Use.name : Use → String
  | value => "value"
  | table => "table"
  | tables => "array table"

inductive Cause where
  | afterItem (found : Char)
  | carriageReturn (last : Bool)
  | comment
  | missing (due : Char) (atEnd : Bool)
  | noEquals
  | noValue
  | word (due : String)
  | noNumber
  | numberChar (found : Char)
  | openInline
  | openArray
  | commaFirst
  | noComma
  | noKey
  | keyStart (found : Char)
  | lineBreak (quote : Char)
  | openString (quote : Char)
  | openLong (quote : Char)
  | longQuotes (quote : Char)
  | longReturn
  | escapeEnd
  | escape (found : Char)
  | notText
  | escapedText (found : Char)
  | literalChar
  | shortPoint (due count : Nat)
  | notHex
  | notScalar
  | wholeNumber (base : String) (text : String) (outOfRange : Bool)
  | numberShape (text : String)
  | fraction (text : String) (outOfRange : Bool)
  | momentShape (text : String)
  | keyTwice (key : String)
  | tableTwice (key : String)
  | redefined (key : String)
  | notTable (key : String) (use : Use)
  | otherUse (key : String) (use : Use)
  | notTables (key : String) (use : Use)

namespace Cause

def leadOctet (c : Char) : Char := Char.ofNat ((String.singleton c).toUTF8.toList.headD 0).toNat

def numberFault (text : String) (outOfRange : Bool) : String :=
  "parsing " ++ Text.quoted text ++ ": " ++ if outOfRange then "value out of range" else "invalid syntax"

def tripled (quote : Char) : String := String.ofList [quote, quote, quote]

def message : Cause → String
  | afterItem found => "expected newline but got " ++ Text.codePoint (leadOctet found)
  | carriageReturn last => if last then "windows new line expected" else "windows new line should be \\r\\n"
  | comment => "invalid character in comment"
  | missing due atEnd =>
    "expected character " ++ String.singleton due ++ if atEnd then " but the document ended here" else ""
  | noEquals => "expected = after a key, but the document ends there"
  | noValue => "expected value, not eof"
  | word due => "expected '" ++ due ++ "'"
  | noNumber => "incomplete number"
  | numberChar found => "unexpected character '" ++ String.singleton found ++ "' while scanning for a number"
  | openInline => "inline table is incomplete"
  | openArray => "array is incomplete"
  | commaFirst => "array cannot start with comma"
  | noComma => "array elements must be separated by commas"
  | noKey => "expected key but found none"
  | keyStart found => "invalid character at start of key: " ++ String.singleton (leadOctet found)
  | lineBreak quote => (if quote == '"' then "basic" else "literal") ++ " strings cannot have new lines"
  | openString quote => if quote == '"' then "basic string not terminated by \"" else "unterminated literal string"
  | openLong quote =>
    "multiline " ++ (if quote == '"' then "basic" else "literal") ++ " string not terminated by " ++ tripled quote
  | longQuotes quote =>
    tripled quote ++ " not allowed in multiline " ++ (if quote == '"' then "basic" else "literal") ++ " string"
  | longReturn => "need a \\n after \\r"
  | escapeEnd => "need a character after \\"
  | escape found => "invalid escaped character " ++ Text.codePoint (leadOctet found)
  | notText => "invalid UTF-8"
  | escapedText found => "invalid character " ++ Text.codePoint found
  | literalChar => "invalid character"
  | shortPoint due count => "unicode point needs " ++ toString due ++ " character, not " ++ toString count
  | notHex => "non-hex character"
  | notScalar => "escape sequence is invalid Unicode code point"
  | wholeNumber base text outOfRange =>
    "couldn't parse " ++ base ++ " number: strconv.ParseInt: " ++ numberFault text outOfRange
  | numberShape text => text
  | fraction text outOfRange => "unable to parse float: strconv.ParseFloat: " ++ numberFault text outOfRange
  | momentShape text => text
  | keyTwice key => "key " ++ key ++ " is already defined"
  | tableTwice key => "table " ++ key ++ " already exists"
  | redefined key => "cannot redefine table " ++ key ++ " that has already been explicitly defined"
  | notTable key use => "expected " ++ key ++ " to be a table, not a " ++ use.name
  | otherUse key use => "key " ++ key ++ " should be a table, not a " ++ use.name
  | notTables key use =>
    "key " ++ use.name ++ " already exists as a " ++ key ++ ",  but should be an array table"

end Cause

def isForbidden (c : Char) : Bool :=
  let n := c.toNat
  n == 0x7F || (n < 0x20 && n != 0x09 && n != 0x0A && n != 0x0D)

def cutBasic : List Char → Except Cause (List Char × List Char)
  | [] => .error (.openString '"')
  | '"' :: rest => .ok ([], rest)
  | ['\\'] => .error .escapeEnd
  | '\\' :: c :: rest => do
    let (body, after) ← cutBasic rest
    return ('\\' :: c :: body, after)
  | c :: rest =>
    if c == '\n' || c == '\r' then .error (.lineBreak '"')
    else do
      let (body, after) ← cutBasic rest
      return (c :: body, after)

def cutLiteral : List Char → Except Cause (List Char × List Char)
  | [] => .error (.openString '\'')
  | '\'' :: rest => .ok ([], rest)
  | c :: rest =>
    if c == '\n' || c == '\r' then .error (.lineBreak '\'')
    else if isForbidden c then .error .literalChar
    else do
      let (body, after) ← cutLiteral rest
      return (c :: body, after)

def closeLong (quote : Char) (quotes : Nat) (rest : List Char) : Except Cause (List Char × List Char) :=
  if quotes > 5 then .error (.longQuotes quote) else .ok (List.replicate (quotes - 3) quote, rest)

/-- The text up to three quotes, and the rest.  `escapes` tells whether a backslash hides what follows it. -/
def cutLong (quote : Char) (escapes : Bool) : List Char → Except Cause (List Char × List Char)
  | [] => .error (.openLong quote)
  | '\r' :: rest =>
    match rest with
    | '\n' :: after => do
      let (body, after) ← cutLong quote escapes after
      return ('\r' :: '\n' :: body, after)
    | _ => .error .longReturn
  | c :: rest =>
    if c == quote && (c :: rest).take 3 == [quote, quote, quote] then
      closeLong quote ((c :: rest).takeWhile (· == quote)).length ((c :: rest).dropWhile (· == quote))
    else if escapes && c == '\\' then
      match rest with
      | [] => .error .escapeEnd
      | d :: after => do
        let (body, after) ← cutLong quote escapes after
        return (c :: d :: body, after)
    else if !escapes && isForbidden c then .error .literalChar
    else do
      let (body, after) ← cutLong quote escapes rest
      return (c :: body, after)

/-- The character with a number of hexadecimal digits; `closing` is what follows the string. -/
def point (due : Nat) (closing cs : List Char) : Except Cause Char :=
  let digits := (cs ++ closing).take due
  if digits.length < due then .error (.shortPoint due digits.length)
  else match Text.digitsValue? 16 digits with
    | none => .error .notHex
    | some n => if Text.isScalarValue n then .ok (Char.ofNat n) else .error .notScalar

def simpleEscape? : Char → Option Char
  | '"' => some '"'
  | '\\' => some '\\'
  | 'b' => some '\x08'
  | 'f' => some '\x0c'
  | 'n' => some '\n'
  | 'r' => some '\r'
  | 't' => some '\t'
  | 'e' => some '\x1b'
  | _ => none

/-- What follows a backslash that ends its line, without blanks and line breaks; nothing if it does not. -/
def foldedLine? (cs : List Char) : Option (List Char) :=
  let rest := cs.dropWhile fun c => c == ' ' || c == '\t'
  let rest := match rest with
    | '\r' :: '\n' :: after => '\n' :: after
    | other => other
  match rest with
  | '\n' :: after => some (after.dropWhile fun c => c == '\n' || c == '\r' || c == ' ' || c == '\t')
  | _ => none

def unescapeBy (closing : List Char) : Nat → List Char → Except Cause (List Char)
  | 0, _ | _, [] => .ok []
  | fuel + 1, '\\' :: cs =>
    match (if closing.length == 3 then foldedLine? cs else none), cs with
    | some rest, _ => unescapeBy closing fuel rest
    | none, [] => .error .escapeEnd
    | none, 'u' :: rest => do
      let c ← point 4 closing rest
      return c :: (← unescapeBy closing fuel (rest.drop 4))
    | none, 'U' :: rest => do
      let c ← point 8 closing rest
      return c :: (← unescapeBy closing fuel (rest.drop 8))
    | none, c :: rest =>
      match simpleEscape? c with
      | some d => do return d :: (← unescapeBy closing fuel rest)
      | none => .error (.escape c)
  | fuel + 1, c :: cs =>
    if isForbidden c then .error (.escapedText c) else do return c :: (← unescapeBy closing fuel cs)

def readBasic (closing body : List Char) : Except Cause String :=
  if body.contains '\\' then String.ofList <$> unescapeBy closing body.length body
  else if body.any isForbidden then .error .notText
  else .ok (String.ofList body)

def withoutFirstBreak : List Char → List Char
  | '\n' :: cs => cs
  | '\r' :: '\n' :: cs => cs
  | cs => cs

def readString (cs : List Char) : Except Cause (String × List Char) :=
  match cs with
  | '"' :: '"' :: '"' :: rest => do
    let (body, after) ← cutLong '"' true rest
    return (← readBasic ['"', '"', '"'] (withoutFirstBreak body), after)
  | '\'' :: '\'' :: '\'' :: rest => do
    let (body, after) ← cutLong '\'' false rest
    return (String.ofList (withoutFirstBreak body), after)
  | '"' :: rest => do
    let (body, after) ← cutBasic rest
    return (← readBasic ['"'] body, after)
  | '\'' :: rest => do
    let (body, after) ← cutLiteral rest
    return (String.ofList body, after)
  | _ => .error .noKey

def readKeyString (cs : List Char) : Except Cause (String × List Char) :=
  match cs with
  | '"' :: rest => do
    let (body, after) ← cutBasic rest
    return (← readBasic ['"'] body, after)
  | '\'' :: rest => do
    let (body, after) ← cutLiteral rest
    return (String.ofList body, after)
  | _ => .error .noKey

def isBareKeyChar (c : Char) : Bool := c.isAlphanum || c == '-' || c == '_'

/-- The escape of a character between double quotes, with code points in digits of the given case. -/
def escaped (upperDigits : Bool) (c : Char) : String :=
  let point (n : Nat) : String :=
    let digits := String.ofList (Text.hexDigits 4 n)
    "\\u" ++ if upperDigits then digits.map Char.toUpper else digits
  match c with
  | '\\' => "\\\\"
  | '"' => "\\\""
  | '\n' => "\\n"
  | '\r' => "\\r"
  | '\t' => "\\t"
  | _ =>
    if c.toNat == 8 then "\\b"
    else if c.toNat == 12 then "\\f"
    else if c.toNat < 0x20 || c.toNat == 0x7f then point c.toNat
    else String.singleton c

def doubleQuoted (upperDigits : Bool) (s : String) : String :=
  "\"" ++ String.join (s.toList.map (escaped upperDigits)) ++ "\""

def quotedText (s : String) : String :=
  if s.toList.any fun c => c == '\'' || c == '\n' || c == '\r' || isForbidden c then doubleQuoted true s
  else "'" ++ s ++ "'"

def keyPart (s : String) : String :=
  if !s.isEmpty && s.toList.all isBareKeyChar then s else quotedText s

def keyText (path : List String) : String :=
  Text.join "." (path.map fun k =>
    if !k.isEmpty && k.toList.all isBareKeyChar then k else doubleQuoted false k)

def listText (items : List String) : String := "[" ++ Text.join ", " (items.map quotedText) ++ "]"

def doubleText : Double → String
  | .nan => "nan"
  | .infinity negative => if negative then "-inf" else "inf"
  | .finite negative m q =>
    let (d, e) := Double.digits m q
    (if negative then "-" else "") ++ Double.positional d e ++ if e ≥ 0 then ".0" else ""

end Covenant.Toml
