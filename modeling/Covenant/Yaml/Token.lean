import Covenant.Yaml.Scalar

/-!
# Tokens of YAML texts

A cursor walks over a text and keeps its place; the end of the text counts as a blank and as a break.  Line breaks
inside a flow scalar are folded: one break becomes a blank, and of several the first is dropped.
-/

namespace Covenant.Yaml

def isBlank (c : Char) : Bool := c == ' ' || c == '\t'

def isBreak (c : Char) : Bool :=
  c == '\n' || c == '\r' || c.toNat == 0x85 || c.toNat == 0x2028 || c.toNat == 0x2029

def isWord (c : Char) : Bool := c.isAlphanum || c == '_' || c == '-'

def isUri (c : Char) : Bool := isWord c || ";/?:@&=+$,.!~*'()[]%".toList.contains c

def hexValue? (c : Char) : Option Nat :=
  if '0' ≤ c && c ≤ '9' then some (c.toNat - '0'.toNat)
  else if 'a' ≤ c && c ≤ 'f' then some (c.toNat - 'a'.toNat + 10)
  else if 'A' ≤ c && c ≤ 'F' then some (c.toNat - 'A'.toNat + 10)
  else none

def startsBlank : List Char → Bool
  | [] => true
  | c :: _ => isBlank c || isBreak c

def startsBreak : List Char → Bool
  | [] => true
  | c :: _ => isBreak c

def startsSpace (cs : List Char) : Bool := !cs.isEmpty && startsBlank cs

def startsMarker (c : Char) : List Char → Bool
  | a :: b :: d :: rest => a == c && b == c && d == c && startsBlank rest
  | _ => false

def isReadable (c : Char) : Bool :=
  let n := c.toNat
  n == 0x09 || n == 0x0A || n == 0x0D || (0x20 ≤ n && n ≤ 0x7E) || n == 0x85 || (0xA0 ≤ n && n ≤ 0xFFFD) ||
    0x10000 ≤ n

def chunkSize : Nat := 512

/-- Where the chunks of a text end, up to the first unreadable character; `room` is what the current one has left. -/
def chunkEnds : Nat → Nat → List Char → List Nat
  | done, _, [] => [done]
  | done, room, c :: cs =>
    let size := c.utf8Size
    let fits := size ≤ room
    let rest := if isReadable c then chunkEnds (done + 1) ((if fits then room else chunkSize) - size) cs else [done]
    if fits then rest else done :: rest

/-- The part of a text that has come into sight.  Texts are taken in chunk by chunk, as more of their characters are
asked for. -/
structure Window where
  seen : Nat := 0
  later : List Nat := []
  blocked : Bool := false
  /-- Whether the characters that were in use when the last chunk was taken in began with a mark of the byte order. -/
  marked : Bool := false
  failed : Bool := false

/-- Takes in chunks until the given number of characters is in sight.  The end of a text counts as one more
character each time it is met. -/
def Window.grow (w : Window) (goal : Nat) : Window :=
  let rec go (seen : Nat) : List Nat → Window
    | [] =>
      if w.blocked then { w with seen, later := [], failed := true } else { w with seen := seen + 1, later := [] }
    | [stop] =>
      if w.blocked then { w with seen := stop, later := [], failed := true }
      else { w with seen := if goal ≤ stop then stop else stop + 1, later := [] }
    | stop :: later => if goal ≤ stop then { w with seen := stop, later } else go stop later
  go w.seen w.later

structure Cursor where
  rest : List Char
  mark : Mark := {}
  fresh : Bool := false
  window : Window := {}

namespace Cursor

def isByteOrderMark (c : Char) : Bool := c.toNat == 0xFEFF

variable (c : Cursor)

def need (n : Nat) : Cursor :=
  if c.mark.index + n ≤ c.window.seen then c
  else
    let window := c.window.grow (c.mark.index + n)
    { c with window := { window with marked := c.rest.head?.any isByteOrderMark } }

def skip (n : Nat) : Cursor :=
  { c with
    rest := c.rest.drop n
    mark := { c.mark with index := c.mark.index + n, column := c.mark.column + n }
    fresh := c.fresh && (c.rest.take n).all isBlank }

def next? : Option Char := c.rest.head?

def at? (x : Char) : Bool := c.rest.head? == some x

/-- Skips the characters of a class that come next, and gives them.  After each of them, `ahead` more are brought into
sight. -/
def runBy (p : Char → Bool) (ahead : Nat) : List Char → List Char → Cursor → List Char × Cursor
  | taken, [], c => (taken.reverse, c)
  | taken, x :: xs, c => if p x then runBy p ahead (x :: taken) xs ((c.skip 1).need ahead) else (taken.reverse, c)

def run (p : Char → Bool) : List Char × Cursor :=
  let c := c.need 1
  runBy p 1 [] c.rest c

def skipBlanks : Cursor := (c.run isBlank).2

def skipLine : Cursor := (c.run (!isBreak ·)).2

def breakLine : List Char × Cursor :=
  let past (n : Nat) : Cursor :=
    { c with
      rest := c.rest.drop n
      mark := { index := c.mark.index + n, line := c.mark.line + 1, column := 0 }
      fresh := true }
  match c.rest with
  | '\r' :: '\n' :: _ => (['\n'], past 2)
  | x :: _ =>
    if x == '\n' || x == '\r' || x.toNat == 0x85 then (['\n'], past 1)
    else if isBreak x then ([x], past 1)
    else ([], c)
  | [] => ([], c)

def atMarker : Bool :=
  c.mark.column == 0 && (startsMarker '-' c.rest || startsMarker '.' c.rest)

end Cursor

/-- A fault at a cursor, in the context of a place.  An unreadable character in sight counts before it. -/
def fault {α : Type} (context : Mark) (c : Cursor) (problem : Problem) : Except Fault α :=
  .error (if c.window.failed then .controlCharacter else .token context c.mark problem)

inductive ScalarStyle where
  | plain
  | singleQuoted
  | doubleQuoted
  | literal
  | folded
  deriving DecidableEq

inductive TokenKind where
  | streamStart
  | streamEnd
  | versionDirective (major minor : Nat)
  | tagDirective (handle uri : String)
  | documentStart
  | documentEnd
  | blockSequenceStart
  | blockMappingStart
  | blockEnd
  | flowSequenceStart
  | flowSequenceEnd
  | flowMappingStart
  | flowMappingEnd
  | blockEntry
  | flowEntry
  | key
  | value
  | link (name : String)
  | anchor (name : String)
  | tag (handle suffix : String)
  | scalar (text : String) (style : ScalarStyle)
  deriving DecidableEq

structure Token where
  kind : TokenKind
  start : Mark
  stop : Mark

structure Gap where
  broken : Bool := false
  blanks : List Char := []
  first : List Char := []
  others : List Char := []

def Gap.text (g : Gap) : List Char :=
  if g.broken then
    match g.first with
    | '\n' :: _ => if g.others.isEmpty then [' '] else g.others
    | first => first ++ g.others
  else g.blanks

/-- Walks over blanks and breaks.  A tab after a break and left of the column `tabLimit` is a fault, in the context of
`start`.  `fuel` covers the rest of the text. -/
def readGap (start : Mark) (tabLimit : Int) : Nat → Gap → Cursor → Except Fault (Gap × Cursor)
  | 0, g, c => .ok (g, c)
  | fuel + 1, g, c =>
    match c.rest with
    | [] => .ok (g, c)
    | x :: _ =>
      if isBlank x then
        if g.broken && x == '\t' && (c.mark.column : Int) < tabLimit then fault start c .plainTab
        else readGap start tabLimit fuel (if g.broken then g else { g with blanks := g.blanks ++ [x] })
          ((c.skip 1).need 1)
      else if isBreak x then
        let (text, c) := (c.need 2).breakLine
        readGap start tabLimit fuel
          (if g.broken then { g with others := g.others ++ text }
            else { g with broken := true, blanks := [], first := g.first ++ text }) (c.need 1)
      else .ok (g, c)

def plainWord (inFlow : Bool) : List Char → List Char → Cursor → List Char × Cursor
  | word, [], c => (word.reverse, c)
  | word, x :: xs, c =>
    if isBlank x || isBreak x || (x == ':' && startsBlank xs) || (inFlow && ",?[]\x7b\x7d".toList.contains x) then
      (word.reverse, c)
    else plainWord inFlow (x :: word) xs ((c.skip 1).need 2)

structure PlainState where
  text : List Char := []
  gap : Gap := {}
  stop : Mark

def readPlain (inFlow : Bool) (indent : Int) (start : Mark) :
    Nat → PlainState → Cursor → Except Fault (PlainState × Cursor)
  | 0, s, c => .ok (s, c)
  | fuel + 1, s, c =>
    let c := c.need 4
    if c.atMarker || c.at? '#' then .ok (s, c)
    else do
      let (word, c) := plainWord inFlow [] c.rest c
      let s := if word.isEmpty then s else { text := s.text ++ s.gap.text ++ word, gap := {}, stop := c.mark }
      if startsSpace c.rest then
        let (gap, c) ← readGap start indent (c.rest.length + 1) s.gap (c.need 1)
        let s := { s with gap }
        if !inFlow && (c.mark.column : Int) < indent then return (s, c)
        else readPlain inFlow indent start fuel s c
      else return (s, c)

def plainScalar (inFlow : Bool) (indent : Int) (c : Cursor) : Except Fault (Token × Bool × Cursor) := do
  let (s, rest) ← readPlain inFlow (indent + 1) c.mark (c.rest.length + 1) { stop := c.mark } c
  return (⟨.scalar (String.ofList s.text) .plain, c.mark, s.stop⟩, s.gap.broken, rest)

def escapeChar? : Char → Option Char
  | '0' => some (Char.ofNat 0)
  | 'a' => some (Char.ofNat 7)
  | 'b' => some (Char.ofNat 8)
  | 't' | '\t' => some '\t'
  | 'n' => some '\n'
  | 'v' => some (Char.ofNat 11)
  | 'f' => some (Char.ofNat 12)
  | 'r' => some '\r'
  | 'e' => some (Char.ofNat 27)
  | ' ' => some ' '
  | '"' => some '"'
  | '\'' => some '\''
  | '\\' => some '\\'
  | 'N' => some (Char.ofNat 0x85)
  | '_' => some (Char.ofNat 0xA0)
  | 'L' => some (Char.ofNat 0x2028)
  | 'P' => some (Char.ofNat 0x2029)
  | _ => none

def escapeDigits? : Char → Option Nat
  | 'x' => some 2
  | 'u' => some 4
  | 'U' => some 8
  | _ => none

def hexNumber? (n : Nat) (cs : List Char) : Option Nat :=
  let ds := (cs.take n).filterMap hexValue?
  if ds.length = n then some (ds.foldl (fun v d => v * 16 + d) 0) else none

def readEscape (start : Mark) (c : Cursor) : Except Fault (Char × Cursor) :=
  match c.rest with
  | _ :: e :: digits =>
    match escapeChar? e, escapeDigits? e with
    | some x, _ => .ok (x, c.skip 2)
    | none, some n =>
      let c := (c.skip 2).need n
      match hexNumber? n digits with
      | none => fault start c .escapeDigits
      | some v =>
        if (0xD800 ≤ v && v ≤ 0xDFFF) || v > 0x10FFFF then fault start c .escapeValue
        else .ok (Char.ofNat v, c.skip n)
    | none, none => fault start c .unknownEscape
  | _ => fault start c .unknownEscape

/-- Reads the characters up to a blank, a closing quote or an escaped line break, which the flag reports. -/
def quotedWord (single : Bool) (start : Mark) :
    Nat → List Char → Cursor → Except Fault (List Char × Bool × Cursor)
  | 0, text, c => .ok (text, false, c)
  | fuel + 1, text, c =>
    match c.rest with
    | [] => .ok (text, false, c)
    | x :: cs =>
      if isBlank x || isBreak x then .ok (text, false, c)
      else if single && x == '\'' then
        match cs with
        | '\'' :: _ => quotedWord single start fuel (text ++ ['\'']) ((c.skip 2).need 2)
        | _ => .ok (text, false, c)
      else if !single && x == '"' then .ok (text, false, c)
      else if !single && x == '\\' then
        match cs with
        | y :: _ =>
          if isBreak y then .ok (text, true, ((c.need 3).skip 1).breakLine.2)
          else do
            let (e, c) ← readEscape start c
            quotedWord single start fuel (text ++ [e]) (c.need 2)
        | [] => fault start c .unknownEscape
      else quotedWord single start fuel (text ++ [x]) ((c.skip 1).need 2)

def readQuoted (single : Bool) (start : Mark) : Nat → List Char → Cursor → Except Fault (List Char × Cursor)
  | 0, _, c => fault start c .unexpectedEnd
  | fuel + 1, text, c =>
    let c := c.need 4
    if c.atMarker then fault start c .unexpectedIndicator
    else if c.rest.isEmpty then fault start c .unexpectedEnd
    else do
      let (word, escaped, c) ← quotedWord single start (c.rest.length + 1) [] c
      let c := c.need 1
      let text := text ++ word
      if c.at? (if single then '\'' else '"') then return (text, c.skip 1)
      else
        let (gap, c) ← readGap start (-1) (c.rest.length + 1) { broken := escaped } c
        readQuoted single start fuel (text ++ gap.text) c

def quotedScalar (single : Bool) (c : Cursor) : Except Fault (Token × Cursor) := do
  let (text, rest) ← readQuoted single c.mark (c.rest.length + 1) [] (c.skip 1)
  return (⟨.scalar (String.ofList text) (if single then .singleQuoted else .doubleQuoted), c.mark, rest.mark⟩, rest)

inductive Chomp where
  | clip
  | strip
  | keep

def blockHeader (start : Mark) (c : Cursor) : Except Fault (Chomp × Nat × Cursor) :=
  let c := c.need 1
  let chomp? (c : Cursor) : Option Chomp :=
    if c.at? '+' then some .keep else if c.at? '-' then some .strip else none
  let width (c : Cursor) : Except Fault (Nat × Cursor) :=
    match c.next? with
    | some d =>
      if d == '0' then fault start c .indentZero
      else if d.isDigit then .ok (d.toNat - '0'.toNat, c.skip 1)
      else .ok (0, c)
    | none => .ok (0, c)
  match chomp? c with
  | some chomp => do
    let (n, c) ← width ((c.skip 1).need 1)
    return (chomp, n, c)
  | none => do
    let (n, c) ← width c
    let c := c.need 1
    match chomp? c with
    | some chomp => return (chomp, n, c.skip 1)
    | none => return (.clip, n, c)

def endLine (start : Mark) (c : Cursor) : Except Fault Cursor :=
  let c := c.skipBlanks
  let c := if c.at? '#' then c.skipLine else c
  if c.rest.isEmpty then .ok c
  else if startsBreak c.rest then .ok (c.need 2).breakLine.2
  else fault start c .lineEnd

/-- The breaks before the next line of a block scalar, its indentation so far, and the end of the last break. -/
structure BlockGap where
  breaks : List Char := []
  deepest : Nat := 0
  stop : Mark

def skipEach : Nat → Cursor → Cursor
  | 0, c => c
  | n + 1, c => skipEach n ((c.skip 1).need 1)

/-- Skips indentation, up to `indent` if it is known, and empty lines. -/
def blockBreaks (indent : Nat) (start : Mark) : Nat → BlockGap → Cursor → Except Fault (BlockGap × Cursor)
  | 0, g, c => .ok (g, c)
  | fuel + 1, g, c =>
    let c := c.need 1
    let spaces := (c.rest.takeWhile (· == ' ')).length
    let c := skipEach (if indent = 0 then spaces else min spaces (indent - c.mark.column)) c
    let g := { g with deepest := max g.deepest c.mark.column }
    if (indent = 0 || c.mark.column < indent) && c.at? '\t' then fault start c .blockTab
    else if c.rest.isEmpty || !startsBreak c.rest then .ok (g, c)
    else
      let (text, c) := (c.need 2).breakLine
      blockBreaks indent start fuel { g with breaks := g.breaks ++ text, stop := c.mark } c

structure BlockState where
  text : List Char := []
  first : List Char := []
  others : List Char := []
  blank : Bool := false
  stop : Mark

def blockLines (literal : Bool) (indent : Nat) (start : Mark) :
    Nat → BlockState → Cursor → Except Fault (BlockState × Cursor)
  | 0, s, c => .ok (s, c)
  | fuel + 1, s, c =>
    if c.mark.column ≠ indent || c.rest.isEmpty then .ok (s, c)
    else do
      let blank := c.rest.head?.any isBlank
      let joint :=
        if !literal && !s.blank && !blank && s.first.head? == some '\n' then
          if s.others.isEmpty then [' '] else []
        else s.first
      let (line, c) := c.run (!isBreak ·)
      let (first, c) := (c.need 2).breakLine
      let (gap, c) ← blockBreaks indent start (c.rest.length + 1) { stop := c.mark } c
      blockLines literal indent start fuel
        { text := s.text ++ joint ++ s.others ++ line, first, others := gap.breaks, blank, stop := gap.stop } c

def blockScalar (literal : Bool) (outer : Int) (c : Cursor) : Except Fault (Token × Cursor) := do
  let start := c.mark
  let (chomp, width, c) ← blockHeader start (c.skip 1)
  let c ← endLine start c
  let fixed := if width = 0 then 0 else if outer ≥ 0 then outer.toNat + width else width
  let (gap, c) ← blockBreaks fixed start (c.rest.length + 1) { stop := c.mark } c
  let indent := if fixed = 0 then max (max gap.deepest (outer + 1).toNat) 1 else fixed
  let (s, c) ← blockLines literal indent start (c.rest.length + 1) { others := gap.breaks, stop := gap.stop } c
  let tail := match chomp with
    | .strip => []
    | .clip => s.first
    | .keep => s.first ++ s.others
  return (⟨.scalar (String.ofList (s.text ++ tail)) (if literal then .literal else .folded), start, s.stop⟩, c)

def anchorToken (isAlias : Bool) (c : Cursor) : Except Fault (Token × Cursor) :=
  let (name, rest) := (c.skip 1).run isWord
  let closed := startsBlank rest.rest ||
    rest.next?.any fun x => "?:,]\x7d%@".toList.contains x || x.toNat == 0x60
  if name.isEmpty || !closed then fault c.mark rest .anchorName
  else
    let name := String.ofList name
    .ok (⟨if isAlias then .link name else .anchor name, c.mark, rest.mark⟩, rest)

def octetCount? (octet : Nat) : Option Nat :=
  if octet < 0x80 then some 1
  else if 0xC0 ≤ octet && octet < 0xE0 then some 2
  else if 0xE0 ≤ octet && octet < 0xF0 then some 3
  else if 0xF0 ≤ octet && octet < 0xF8 then some 4
  else none

def escapedOctet? : List Char → Option Nat
  | '%' :: a :: b :: _ => do return (← hexValue? a) * 16 + (← hexValue? b)
  | _ => none

def trailingOctets (start : Mark) : Nat → Cursor → Except Fault (List UInt8 × Cursor)
  | 0, c => .ok ([], c)
  | n + 1, c =>
    let c := c.need 3
    match escapedOctet? c.rest with
    | none => fault start c .escapedOctet
    | some octet =>
      if octet / 64 ≠ 2 then fault start c .trailingOctet
      else do
        let (octets, c) ← trailingOctets start n (c.skip 3)
        return (octet.toUInt8 :: octets, c)

def escapedChar (start : Mark) (c : Cursor) : Except Fault (List Char × Cursor) :=
  let c := c.need 3
  match escapedOctet? c.rest with
  | none => fault start c .escapedOctet
  | some octet =>
    match octetCount? octet with
    | none => fault start c .leadingOctet
    | some n => do
      let (octets, c) ← trailingOctets start (n - 1) (c.skip 3)
      return (Text.charactersBy n (octet.toUInt8 :: octets), c)

def uriChars (start : Mark) : Nat → List Char → Cursor → Except Fault (List Char × Cursor)
  | 0, text, c => .ok (text, c)
  | fuel + 1, text, c =>
    match c.next? with
    | some x =>
      if x == '%' then do
        let (e, c) ← escapedChar start c
        uriChars start fuel (text ++ e) (c.need 1)
      else if isUri x then uriChars start fuel (text ++ [x]) ((c.skip 1).need 1)
      else .ok (text, c)
    | none => .ok (text, c)

/-- A tag, of which `head` was read already; only a tag without a head has to go on. -/
def tagUri (start : Mark) (head : List Char) (c : Cursor) : Except Fault (List Char × Cursor) := do
  let (text, rest) ← uriChars start (c.rest.length + 1) head.tail (c.need 1)
  if head.isEmpty && text.isEmpty then fault start rest .tagUri else return (text, rest)

/-- A handle: an exclamation mark, or a word between two of them.  A handle of a directive has to be complete. -/
def tagHandle (start : Mark) (directive : Bool) (c : Cursor) : Except Fault (List Char × Cursor) :=
  let c := c.need 1
  if !c.at? '!' then fault start c .tagMark
  else
    let (word, rest) := (c.skip 1).run isWord
    if rest.at? '!' then .ok ('!' :: word ++ ['!'], rest.skip 1)
    else if directive && !word.isEmpty then fault start rest .tagMark
    else .ok ('!' :: word, rest)

def tagParts (c : Cursor) : Except Fault (List Char × List Char × Cursor) :=
  let start := c.mark
  let c := c.need 2
  match c.rest with
  | _ :: '<' :: _ => do
    let (suffix, rest) ← tagUri start [] (c.skip 2)
    if rest.at? '>' then return ([], suffix, rest.skip 1) else fault start rest .tagClose
  | _ => do
    let (handle, rest) ← tagHandle start false c
    if handle.length > 1 && handle.getLast? == some '!' then
      let (suffix, rest) ← tagUri start [] rest
      return (handle, suffix, rest)
    else
      let (suffix, rest) ← tagUri start handle rest
      return if suffix.isEmpty then ([], ['!'], rest) else (['!'], suffix, rest)

def tagToken (c : Cursor) : Except Fault (Token × Cursor) := do
  let (handle, suffix, rest) ← tagParts c
  let rest := rest.need 1
  if startsBlank rest.rest then
    return (⟨.tag (String.ofList handle) (String.ofList suffix), c.mark, rest.mark⟩, rest)
  else fault c.mark rest .tagBlankOrLine

def versionNumber (start : Mark) (c : Cursor) : Except Fault (Nat × Cursor) :=
  let digits := (c.rest.takeWhile Char.isDigit).take 2
  let rest := skipEach digits.length (c.need 1)
  if rest.next?.any Char.isDigit then fault start rest .versionLength
  else if digits.isEmpty then fault start c .versionNumber
  else .ok (digits.foldl (fun n d => n * 10 + (d.toNat - '0'.toNat)) 0, rest)

def versionValue (start : Mark) (c : Cursor) : Except Fault (TokenKind × Cursor) := do
  let (major, c) ← versionNumber start c.skipBlanks
  if !c.at? '.' then fault start c .versionDot
  else
    let (minor, c) ← versionNumber start (c.skip 1)
    return (.versionDirective major minor, c)

def tagValue (start : Mark) (c : Cursor) : Except Fault (TokenKind × Cursor) := do
  let (handle, c) ← tagHandle start true c.skipBlanks
  let c := c.need 1
  if !c.next?.any isBlank then fault start c .tagBlank
  else
    let (uri, c) ← tagUri start [] c.skipBlanks
    let c := c.need 1
    if startsBlank c.rest then return (.tagDirective (String.ofList handle) (String.ofList uri), c)
    else fault start c .tagBlankOrLine

def directiveToken (c : Cursor) : Except Fault (Token × Cursor) := do
  let start := c.mark
  let (name, rest) := (c.skip 1).run isWord
  if name.isEmpty then fault start rest .directiveName
  else if !startsBlank rest.rest then fault start rest .directiveNameEnd
  else
    let (kind, rest) ←
      if name == "YAML".toList then versionValue start rest
      else if name == "TAG".toList then tagValue start rest
      else fault start rest .unknownDirective
    let stop := rest.mark
    return (⟨kind, start, stop⟩, ← endLine start rest)

end Covenant.Yaml
