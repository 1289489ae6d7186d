import Covenant.Yaml.Token

/-!
# Writing documents

`Tree.render` writes a tree of lists and dictionaries in block style, two columns a level.  A text is written plainly
if it reads back as that text, and else in quotes; a text of several lines is written as a literal block where that is
possible.
-/

namespace Covenant.Yaml

inductive Tree where
  | word (text : String)
  | text (value : String)
  | list (items : List Tree)
  | map (entries : List (String × Tree))

def oldBools : List String :=
  ["y", "Y", "yes", "Yes", "YES", "on", "On", "ON", "n", "N", "no", "No", "NO", "off", "Off", "OFF"]

def sexagesimalTail : Nat → Bool → List Char → Bool
  | fuel + 1, _, ':' :: cs =>
    match cs.takeWhile Char.isDigit with
    | [_] => sexagesimalTail fuel true (cs.drop 1)
    | [a, _] => a ≤ '5' && sexagesimalTail fuel true (cs.drop 2)
    | _ => false
  | _, some?, '.' :: cs => some? && cs.all fun c => c.isDigit || c == '_'
  | _, some?, cs => some? && cs.isEmpty

def isSexagesimal (s : String) : Bool :=
  match (signed s.toList).2 with
  | c :: cs =>
    c.isDigit && sexagesimalTail (cs.length + 1) false (cs.dropWhile fun c => c.isDigit || c == '_')
  | [] => false

def readsAsText (s : String) : Bool :=
  (resolvePlain s).tag == strTag && !isSexagesimal s && !oldBools.contains s

def isPrintable (c : Char) : Bool :=
  let n := c.toNat
  n == 0x0A || (0x20 ≤ n && n ≤ 0x7E) || (0xA0 ≤ n && n ≤ 0xFFFD && n != 0xFEFF)

structure Look where
  multiline : Bool
  plain : Bool
  single : Bool
  block : Bool

def startsIndicator : List Char → Bool
  | [] => false
  | c :: cs =>
    "#,[]\x7b\x7d&*!|>'\"%@".toList.contains c || c.toNat == 0x60 ||
      ((c == '?' || c == ':' || c == '-') && (cs.isEmpty || cs.head?.any isBlank))

def holdsIndicator : Option Char → List Char → Bool
  | _, [] => false
  | before, c :: cs =>
    (c == ':' && (cs.isEmpty || cs.head?.any isBlank)) ||
      (c == '#' && before.any fun b => isBlank b || isBreak b) || holdsIndicator (some c) cs

def follows (p q : Char → Bool) : List Char → Bool
  | a :: b :: cs => (p a && q b) || follows p q (b :: cs)
  | _ => false

def lookOf (s : String) : Look :=
  let cs := s.toList
  if cs.isEmpty then { multiline := false, plain := true, single := true, block := false }
  else
    let isSpace (c : Char) := c == ' '
    let tabs := cs.contains '\t'
    let special := cs.any fun c => c != '\t' && !isPrintable c
    let lines := cs.any isBreak
    let edge (c? : Option Char) := c?.any fun c => isSpace c || isBreak c
    let breakSpace := follows isBreak isSpace cs
    let spaceBreak := follows isSpace isBreak cs
    let indicators :=
      "---".toList.isPrefixOf cs || "...".toList.isPrefixOf cs || startsIndicator cs ||
        holdsIndicator cs.head? cs.tail
    { multiline := lines
      plain := !(edge cs.head? || edge cs.getLast? || breakSpace || spaceBreak || tabs || special || lines ||
        indicators)
      single := !(breakSpace || spaceBreak || tabs || special)
      block := !(cs.getLast? == some ' ' || spaceBreak || special) }

def styleOf (isKey : Bool) (s : String) : ScalarStyle :=
  let look := lookOf s
  if isKey && look.multiline then .doubleQuoted
  else if s.toList.contains '\n' then
    if look.block && !isKey then .literal else .doubleQuoted
  else if !readsAsText s then .doubleQuoted
  else if look.plain && !(s.isEmpty && isKey) then .plain
  else if look.single then .singleQuoted
  else .doubleQuoted

structure Sheet where
  lines : List Char := []
  column : Nat := 0
  blank : Bool := true
  fresh : Bool := true

namespace Sheet

variable (s : Sheet)

variable (width : Nat) (cs : List Char)

def put : Sheet := { s with lines := cs.reverse ++ s.lines, column := s.column + cs.length }

def breakLine : Sheet := { s with lines := '\n' :: s.lines, column := 0, fresh := true }

def writeBreak (c : Char) : Sheet :=
  if c == '\n' then s.breakLine else { s with lines := c :: s.lines, column := 0, fresh := true }

def indent : Sheet :=
  let s := if !s.fresh || s.column > width || (s.column == width && !s.blank) then s.breakLine else s
  { s.put (List.replicate (width - s.column) ' ') with blank := true }

def indicator (text : String) (apart blank fresh : Bool) : Sheet :=
  let s := if apart && !s.blank then s.put [' '] else s
  { s.put text.toList with blank, fresh := s.fresh && fresh }

def plain : Sheet :=
  let s := if !cs.isEmpty && !s.blank then s.put [' '] else s
  { s.put cs with blank := false, fresh := false }

def singleChars (width : Nat) (broken : Bool) : List Char → Sheet → Sheet
  | [], s => s
  | c :: cs, s =>
    if c == ' ' then singleChars width broken cs (s.put [c])
    else if isBreak c then
      singleChars width true cs ((if !broken && c == '\n' then s.breakLine else s).writeBreak c)
    else
      let s := if broken then s.indent width else s
      singleChars width false cs { s.put (if c == '\'' then ['\'', '\''] else [c]) with fresh := false }

def single : Sheet :=
  let s := singleChars width false cs (s.indicator "'" true false false)
  { s.indicator "'" false false false with blank := false, fresh := false }

def escapeLetter? (n : Nat) : Option Char :=
  [(0, '0'), (7, 'a'), (8, 'b'), (9, 't'), (10, 'n'), (11, 'v'), (12, 'f'), (13, 'r'), (27, 'e'), (34, '"'),
    (92, '\\'), (0x85, 'N'), (0xA0, '_'), (0x2028, 'L'), (0x2029, 'P')].lookup n

def hexDigits (width n : Nat) : List Char :=
  let ds := (Nat.toDigits 16 n).map Char.toUpper
  List.replicate (width - ds.length) '0' ++ ds

def doubleChar (c : Char) : List Char :=
  if isPrintable c && !isBreak c && c != '"' && c != '\\' then [c]
  else
    let n := c.toNat
    match escapeLetter? n with
    | some e => ['\\', e]
    | none =>
      if n ≤ 0xFF then '\\' :: 'x' :: hexDigits 2 n
      else if n ≤ 0xFFFF then '\\' :: 'u' :: hexDigits 4 n
      else '\\' :: 'U' :: hexDigits 8 n

def double : Sheet :=
  let s := (s.indicator "\"" true false false).put (cs.flatMap doubleChar)
  { s.indicator "\"" false false false with blank := false, fresh := false }

def literalChars (width : Nat) (broken : Bool) : List Char → Sheet → Sheet
  | [], s => s
  | c :: cs, s =>
    if isBreak c then literalChars width true cs (s.writeBreak c)
    else
      let s := if broken then s.indent width else s
      literalChars width false cs { s.put [c] with fresh := false }

/-- The hints of a literal block: its indentation if it begins with a blank, and which breaks at its end count. -/
def literalHints : String :=
  (if cs.head?.any fun c => c == ' ' || isBreak c then "2" else "") ++
  match cs.reverse with
  | [] => "-"
  | c :: rest =>
    if !isBreak c then "-"
    else match rest with
      | [] => "+"
      | b :: _ => if isBreak b then "+" else ""

def literal : Sheet :=
  let s := (s.indicator "|" true false false).indicator (literalHints cs) false false false
  literalChars width true cs { s with blank := true }

def styled (style : ScalarStyle) (cs : List Char) : Sheet :=
  match style with
  | .plain => s.plain cs
  | .singleQuoted => s.single width cs
  | .doubleQuoted => s.double cs
  | .literal | .folded => s.literal width cs

/-- A text; octets that make up no characters are written under a tag of their own. -/
def text (isKey : Bool) (value : String) : Sheet :=
  if Text.hasStray value then
    let encoded := (Base64.encode value).toList
    let style := if !encoded.contains '\n' then .plain else if isKey then .doubleQuoted else .literal
    { (if s.blank then s else s.put [' ']).put binaryTag.toList with blank := false, fresh := false }.styled
      width style encoded
  else s.styled width (styleOf isKey value) value.toList

end Sheet

def isSimpleKey (key : String) : Bool :=
  let written := if Text.hasStray key then binaryTag ++ Base64.encode key else key
  !(lookOf written).multiline && Text.byteLength written ≤ 128

def writeKey (s : Sheet) (width : Nat) (key : String) : Sheet :=
  if isSimpleKey key then (s.text (width + 2) true key).indicator ":" false false false
  else
    let s := (s.indicator "?" true false true).text (width + 2) false key
    (s.indent width).indicator ":" true false true

mutual

def writeTree (width : Nat) : Tree → Sheet → Sheet
  | .word w, s => s.plain w.toList
  | .text t, s => s.text width false t
  | .list items, s =>
    if items.isEmpty then (s.indicator "[" true true false).indicator "]" false false false
    else writeItems width items s
  | .map entries, s =>
    if entries.isEmpty then (s.indicator "\x7b" true true false).indicator "\x7d" false false false
    else writeEntries width entries s

def writeItems (width : Nat) : List Tree → Sheet → Sheet
  | [], s => s
  | t :: ts, s => writeItems width ts (writeTree (width + 2) t ((s.indent width).indicator "-" true false true))

def writeEntries (width : Nat) : List (String × Tree) → Sheet → Sheet
  | [], s => s
  | (key, t) :: es, s => writeEntries width es (writeTree (width + 2) t (writeKey (s.indent width) width key))

end

def Tree.render (t : Tree) : String := String.ofList ((writeTree 0 t {}).indent 0).lines.reverse

end Covenant.Yaml
