import Covenant.Toml.Number

/-!
# Tokens of TOML documents

The checker of settings reads a document in two steps, of which this is the first: the text becomes a row of tokens
with their lines.  What is wrong with the text ends the row, with a remark and its line.  Comments leave no tokens.
-/

namespace Covenant.Toml

/-- How a text was written, which says what its backslashes and its first line break mean. -/
inductive TextForm where
  | plain | escaped | long | longLiteral
  deriving DecidableEq

inductive Token where
  | tableOpen | tableClose
  | tablesOpen | tablesClose
  | keyOpen | keyClose
  | name (text : String)
  | text (form : TextForm) (chars : List Char)
  | bool (value : Bool)
  | integer (chars : List Char)
  | float (chars : List Char)
  | moment (chars : List Char)
  | arrayOpen | arrayClose
  | inlineOpen | inlineClose
  deriving DecidableEq

inductive Misspelling where
  | control (found : Char)
  | afterItem (found : Char)
  | tablesEnd (found : Option Char)
  | tableNameEmpty
  | tableNameDot
  | tableName (found : Option Char)
  | keyBlank
  | keyDot
  | namePartBlank
  | namePartDot
  | noEquals
  | afterKey (found : Char)
  | noValue
  | value (found : Char)
  | word (found : String)
  | leadingPoint
  | arrayEnd (found : Option Char)
  | inlineEnd (found : Option Char)
  | comma
  | openText (closing : String)
  | lineBreak
  | tooManyQuotes (quotes : String)
  | escape (found : Option Char)
  | hexDigits (count : String) (mark : Char) (found : String)
  | noDigit (found : Option Char)
  | signedWord (found : String)
  | signedBase (found : String)
  | base (sort : String) (found : String)

namespace Misspelling

/-- A character that was found; the end of the text counts as zero. -/
def shown (found : Option Char) : String := Text.quotedRune (found.getD '\x00')

def shownOrEnd : Option Char → String
  | some c => Text.quotedRune c
  | none => "end of file"

def message : Misspelling → String
  | control found =>
    "TOML files cannot contain control characters: '0x" ++ String.ofList (Text.hexDigits 2 found.toNat) ++ "'"
  | afterItem found =>
    "expected a top-level item to end with a newline, comment, or EOF, but got " ++
      Text.quotedRune found ++ " instead"
  | tablesEnd found => "expected end of table array name delimiter ']', but got " ++ shown found ++ " instead"
  | tableNameEmpty => "unexpected end of table name (table names cannot be empty)"
  | tableNameDot => "unexpected table separator (table names cannot be empty)"
  | tableName found => "expected '.' or ']' to end table name, but got " ++ shown found ++ " instead"
  | keyBlank => "unexpected '=': key name appears blank"
  | keyDot => "unexpected '.': keys cannot start with a '.'"
  | namePartBlank => "unexpected '='"
  | namePartDot => "unexpected '.'"
  | noEquals => "unexpected EOF; expected key separator '='"
  | afterKey found => "expected '.' or '=', but got " ++ Text.quotedRune found ++ " instead"
  | noValue => "unexpected EOF; expected value"
  | value found => "expected value but found " ++ Text.quotedRune found ++ " instead"
  | word found => "expected value but found " ++ Text.quoted found ++ " instead"
  | leadingPoint => "floats must start with a digit, not '.'"
  | arrayEnd found => "expected a comma (',') or array terminator (']'), but got " ++ shownOrEnd found
  | inlineEnd found =>
    "expected a comma or an inline table terminator '\x7d', but got " ++ shownOrEnd found ++ " instead"
  | comma => "unexpected comma"
  | openText closing => "unexpected EOF; expected " ++ closing
  | lineBreak => "strings cannot contain newlines"
  | tooManyQuotes quotes => "unexpected " ++ quotes
  | escape found => "invalid escape in string '\\" ++ String.singleton (found.getD '\x00') ++ "'"
  | hexDigits count mark found =>
    "expected " ++ count ++ " hexadecimal digits after '\\" ++ String.singleton mark ++ "', but got " ++
      Text.quoted found ++ " instead"
  | noDigit found => "expected a digit but got " ++ shown found
  | signedWord found => "invalid float: '" ++ found ++ "'"
  | signedBase found => "cannot use sign with non-decimal numbers: '" ++ found ++ "'"
  | base sort found => "not " ++ sort ++ " number: '" ++ found ++ "'"

end Misspelling

structure Scanner where
  rest : List Char
  line : Nat := 1
  tokens : List (Token × Nat) := []
  endsLine : Bool

abbrev Scan := ExceptT (Misspelling × Nat) (StateM Scanner)

namespace Scan

def fail {α : Type} (m : Misspelling) : Scan α := do throw (m, (← get).line)

def failAtEnd {α : Type} (m : Misspelling) : Scan α := do
  let s ← get
  throw (m, if s.endsLine then s.line - 1 else s.line)

def failBefore {α : Type} (m : Misspelling) : Scan α := do throw (m, (← get).line - 1)

def emit (t : Token) : Scan Unit := modify fun s => { s with tokens := (t, s.line) :: s.tokens }

/-- Whether a text starts with a character that may stand nowhere, such as a carriage return of its own. -/
def startsForbidden : List Char → Bool
  | '\r' :: rest => rest.head? != some '\n'
  | c :: _ => isForbidden c
  | [] => false

def peek : Scan (Option Char) := do
  let s ← get
  if startsForbidden s.rest then fail (.control (s.rest.headD '\x00')) else return s.rest.head?

def skip : Scan Unit := modify fun s =>
  { s with rest := s.rest.drop 1, line := if s.rest.head? == some '\n' then s.line + 1 else s.line }

def next : Scan (Option Char) := do
  let c ← peek
  skip
  return c

variable (c : Char) (start : List Char)

def accept : Scan Bool := do
  if (← peek) == some c then
    skip
    return true
  else return false

def taking (p : Char → Bool) : Scan (List Char) := do
  let s ← get
  set { s with rest := s.rest.dropWhile p }
  let _ ← peek
  return s.rest.takeWhile p

def isBlank : Bool := c == ' ' || c == '\t'

def isLineBreak : Bool := c == '\n' || c == '\r'

def blanks : Scan Unit := do let _ ← taking isBlank

def comment : Scan Unit := do
  let isInside (c : Char) : Bool := c != '\n' && c != '\r' && !isForbidden c
  let _ ← taking isInside

def spaceBy : Nat → Scan Unit
  | 0 => return ()
  | fuel + 1 => do
    match ← peek with
    | some c =>
      if isBlank c || isLineBreak c then
        skip
        spaceBy fuel
      else if c == '#' then
        skip
        comment
        spaceBy fuel
      else return ()
    | none => return ()

def space : Scan Unit := do spaceBy ((← get).rest.length + 1)

def hexEscape (start : List Char) (count : String) (mark : Char) : Nat → Scan Unit
  | 0 => return ()
  | left + 1 => do
    let c ← next
    if c.any fun c => (Text.hexValue? c).isSome then hexEscape start count mark left
    else
      let s ← get
      let m := Misspelling.hexDigits count mark (String.ofList (start.take (start.length - s.rest.length)))
      if c.isNone then failAtEnd m else fail m

def escape (start : List Char) : Scan Unit := do
  match ← next with
  | none => failBefore (.escape none)
  | some c =>
    if c == 'x' then hexEscape start "two" 'x' 2
    else if c == 'u' then hexEscape start "four" 'u' 4
    else if c == 'U' then hexEscape start "eight" 'U' 8
    else if (simpleEscape? c).isSome || isBlank c then return ()
    else fail (.escape (some c))

def shortBy (quote : Char) (start : List Char) : Nat → Scan (List Char)
  | 0 => return []
  | fuel + 1 => do
    let before := (← get).rest
    match ← next with
    | none => failAtEnd (.openText (if quote == '"' then "'\"'" else "\"'\""))
    | some c =>
      if isLineBreak c then failBefore .lineBreak
      else if c == quote then return start.take (start.length - before.length)
      else
        if quote == '"' && c == '\\' then escape start
        shortBy quote start fuel

def short (quote : Char) : Scan Unit := do
  let start := (← get).rest
  let inside ← shortBy quote start (start.length + 1)
  emit (.text (if quote == '"' && inside.contains '\\' then .escaped else .plain) inside)

/-- Passes a text up to its three closing quotes, before which two more may stand. -/
def longBy (quote : Char) (start : List Char) : Nat → Scan (List Char)
  | 0 => return []
  | fuel + 1 => do
    let before := (← get).rest
    match ← next with
    | none => failAtEnd (.openText (if quote == '"' then "'\"\"\"'" else "\"'''\""))
    | some c =>
      if quote == '"' && c == '\\' then
        if (← peek).any isLineBreak then skip else escape start
        longBy quote start fuel
      else if c == quote then
        if before.take 3 == [quote, quote, quote] then
          let inside := start.take (start.length - before.length)
          skip
          skip
          if (← peek) == some quote then
            let five := inside.drop (inside.length - 2) ++ [quote, quote, quote]
            let isEscaped := quote == '"' && (inside.drop (inside.length - 3)).head? == some '\\' && inside.length ≥ 3
            if five == List.replicate 5 quote && !isEscaped then
              fail (.tooManyQuotes (if quote == '"' then "'\"\"\"\"\"\"'" else "\"''''''\""))
            modify fun s => { s with rest := before.drop 1 }
            longBy quote start fuel
          else return inside
        else
          let _ ← peek
          longBy quote start fuel
      else longBy quote start fuel

def long (quote : Char) : Scan Unit := do
  let start := (← get).rest
  let inside ← longBy quote start (start.length + 1)
  emit (.text (if quote == '"' then .long else .longLiteral) inside)

def since : Scan (List Char) := do return start.take (start.length - (← get).rest.length)

def isFloatChar : Bool :=
  c.isDigit || c == '_' || c == '.' || c == '-' || c == '+' || c == 'e' || c == 'E'

def isMomentChar : Bool := c.isDigit || "-:Tt .Zz+".toList.contains c

def fraction : Scan Unit := do
  let _ ← taking isFloatChar
  emit (.float (← since start))

def decimal : Scan Unit := do
  let _ ← taking fun c => c.isDigit || c == '_'
  if (← peek).any isExponentMark then
    skip
    fraction start
  else emit (.integer (← since start))

def numberOrMoment : Scan Unit := do
  let _ ← taking Char.isDigit
  match ← peek with
  | some c =>
    if c == '-' || c == ':' then
      let _ ← taking isMomentChar
      let chars ← since start
      emit (.moment (Text.trimRightChars isBlank chars))
    else if c == '_' then decimal start
    else if isExponentMark c then
      skip
      fraction start
    else emit (.integer (← since start))
  | none => emit (.integer (← since start))

def based (sort : String) (base : Nat) : Scan Unit := do
  let isDigit (c : Char) : Bool := (Text.hexValue? c).any (· < base)
  let c ← peek
  if c.any isDigit then
    let _ ← taking fun c => isDigit c || c == '_'
    emit (.integer (← since start))
  else fail (.base sort (String.ofList ((← since start) ++ [c.getD '\x00'])))

def numeral : Scan Unit := do
  if (← accept '0') then
    match ← peek with
    | some c =>
      if c.isDigit then numberOrMoment start
      else if c == '_' then decimal start
      else if isExponentMark c then
        skip
        fraction start
      else if c == 'b' then
        skip
        based start "a binary" 2
      else if c == 'o' then
        skip
        based start "an octal" 8
      else if c == 'x' then
        skip
        based start "a hexadecimal" 16
      else emit (.integer (← since start))
    | none => emit (.integer (← since start))
  else numberOrMoment start

def signed : Scan Unit := do
  let word (second third : Char) : Scan Unit := do
    if (← accept second) && (← accept third) then emit (.float (← since start))
    else fail (.signedWord (String.ofList (← since start)))
  match ← next with
  | none => failAtEnd (.noDigit none)
  | some 'i' => word 'n' 'f'
  | some 'n' => word 'a' 'n'
  | some '.' => fail .leadingPoint
  | some c =>
    if c == '0' then
      if let some p ← peek then
        if p == 'b' || p == 'o' || p == 'x' then
          fail (.signedBase (String.ofList ((← since start) ++ [p])))
    if c.isDigit then decimal start else fail (.noDigit (some c))

def word : Scan Unit := do
  let chars ← taking Text.isLetter
  match String.ofList chars with
  | "true" => emit (.bool true)
  | "false" => emit (.bool false)
  | other => fail (.word other)

/-- What starts with the first letter of a number that is not finite.  If it turns out to be another word, its last
letter that fitted starts it. -/
def namedNumber : Scan Unit := do
  skip
  let isInfinity ← do if (← accept 'n') then accept 'f' else pure false
  let isNamed ← do
    if isInfinity then pure true
    else if (← accept 'a') then accept 'n'
    else pure false
  if isNamed then emit (.float (← since start))
  else
    let passed ← since start
    modify fun s => { s with rest := start.drop (passed.length - 1) }
    word

def quotedName : Scan Unit := do
  match ← next with
  | some c => short c
  | none => return ()

def bareName : Scan Unit := do
  let chars ← taking isBareKeyChar
  emit (.name (String.ofList chars))

def isQuote (c : Option Char) : Bool := c == some '"' || c == some '\''

def keyPartsBy : Nat → Scan Unit
  | 0 => return ()
  | fuel + 1 => do
    blanks
    let c ← peek
    if c == some '=' || c.isNone then fail .namePartBlank
    if c == some '.' then fail .namePartDot
    if isQuote c then quotedName else bareName
    blanks
    match ← next with
    | none => failAtEnd .noEquals
    | some '.' => keyPartsBy fuel
    | some '=' => emit .keyClose
    | some c => if c == '\n' then failBefore (.afterKey c) else fail (.afterKey c)

def key : Scan Unit := do
  blanks
  let c ← peek
  if c == some '=' || c.isNone then fail .keyBlank
  if c == some '.' then fail .keyDot
  emit .keyOpen
  keyPartsBy ((← get).rest.length + 1)

def tableNameBy : Nat → Scan Unit
  | 0 => return ()
  | fuel + 1 => do
    blanks
    let c ← peek
    if c == some ']' || c.isNone then fail .tableNameEmpty
    if c == some '.' then fail .tableNameDot
    if isQuote c then quotedName else bareName
    blanks
    match ← next with
    | some '.' => tableNameBy fuel
    | some ']' => return ()
    | some c => fail (.tableName (some c))
    | none => failAtEnd (.tableName none)

def table : Scan Unit := do
  let many ← accept '['
  emit (if many then .tablesOpen else .tableOpen)
  tableNameBy ((← get).rest.length + 1)
  if many then
    match ← next with
    | some ']' => emit .tablesClose
    | some c => fail (.tablesEnd (some c))
    | none => failAtEnd (.tablesEnd none)
  else emit .tableClose

def quoted (quote : Char) : Scan Unit := do
  if (← accept quote) then
    if (← accept quote) then long quote
    else emit (.text .plain [])
  else short quote

mutual
def valueBy : Nat → Scan Unit
  | 0 => return ()
  | fuel + 1 => do
    blanks
    let start := (← get).rest
    match ← peek with
    | none => failAtEnd .noValue
    | some c =>
      if c.isDigit then numeral start
      else if c == '[' then
        skip
        emit .arrayOpen
        itemsBy false fuel
      else if c == '\x7b' then
        skip
        emit .inlineOpen
        itemsBy true fuel
      else if c == '"' || c == '\'' then
        skip
        quoted c
      else if c == '.' then fail .leadingPoint
      else if c == 'i' || c == 'n' then namedNumber start
      else if c == '-' || c == '+' then
        skip
        signed start
      else if Text.isLetter c then word
      else fail (.value c)

def itemsBy (keyed : Bool) : Nat → Scan Unit
  | 0 => return ()
  | fuel + 1 => do
    let close := if keyed then '\x7d' else ']'
    let closed := emit (if keyed then .inlineClose else .arrayClose)
    let wrong (found : Option Char) : Misspelling := if keyed then .inlineEnd found else .arrayEnd found
    space
    let c ← peek
    if c == some ',' then fail .comma
    else if c == some close then
      skip
      closed
    else
      if keyed then key
      valueBy fuel
      space
      match ← next with
      | none => failAtEnd (wrong none)
      | some c => if c == ',' then itemsBy keyed fuel else if c == close then closed else fail (wrong c)
end

def documentBy : Nat → Scan Unit
  | 0 => return ()
  | fuel + 1 => do
    space
    match ← peek with
    | none => return ()
    | some c =>
      if c == '[' then
        skip
        table
      else
        key
        valueBy (2 * (← get).rest.length + 2)
      blanks
      match ← peek with
      | none => return ()
      | some c => if c == '#' || isLineBreak c then documentBy fuel else fail (.afterItem c)

end Scan

def tokens (cs : List Char) : List (Token × Nat) × Option (Misspelling × Nat) :=
  let scanner : Scanner := { rest := cs, endsLine := cs.getLast? == some '\n' }
  match (Scan.documentBy (cs.length + 1)).run scanner with
  | (.ok _, s) => (s.tokens.reverse, none)
  | (.error e, s) => (s.tokens.reverse, some e)

end Covenant.Toml
