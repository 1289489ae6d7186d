import Covenant.Yaml.Token

/-!
# The stream of tokens

Tokens are read as they are asked for, two ahead.  Indentation opens and closes block collections.  A scalar or
collection that can turn out to be the key of a mapping is remembered: when its colon comes, the tokens that open the
mapping are put in front of it.
-/

namespace Covenant.Yaml

structure KeySlot where
  possible : Bool := false
  required : Bool := false
  number : Nat := 0
  mark : Mark := {}

structure TokenStream where
  cursor : Cursor
  /-- Whether an unreadable character was met while looking for a comment; that counts once an event is complete. -/
  pending : Bool := false
  started : Bool := false
  queue : List Token := []
  taken : Nat := 0
  indent : Int := -1
  outer : List Int := []
  flowLevel : Nat := 0
  keyAllowed : Bool := true
  slots : List KeySlot := [{}]
  /-- The numbers of tokens that may begin keys, with the number of open flow collections. -/
  waiting : List (Nat × Nat) := []

def maxDepth : Nat := 10000

namespace TokenStream

def mark (s : TokenStream) : Mark := s.cursor.mark

variable (s : TokenStream)

def inFlow : Bool := s.flowLevel > 0

def nextNumber : Nat := s.taken + s.queue.length

def fail {α : Type} (s : TokenStream) (context : Mark) (p : Problem) : Except Fault α := fault context s.cursor p

def push (t : Token) : TokenStream := { s with queue := s.queue ++ [t] }

def insert (number : Nat) (t : Token) : TokenStream :=
  let at' := number - s.taken
  { s with queue := s.queue.take at' ++ t :: s.queue.drop at' }

def pushSimple (kind : TokenKind) (n : Nat) : TokenStream :=
  let c := s.cursor.skip n
  { s with cursor := c, queue := s.queue ++ [⟨kind, s.mark, c.mark⟩] }

def slot : KeySlot := s.slots.headD {}

def setSlot (k : KeySlot) : TokenStream := { s with slots := k :: s.slots.tail }

def forget (number : Nat) : TokenStream :=
  { s with waiting := s.waiting.filter (·.1 != number) }

/-- Whether a key that was begun can still be one: its colon has to come on the same line, at most 1024 characters
behind its start. -/
def isFresh (k : KeySlot) : Bool :=
  k.mark.line == s.mark.line && s.mark.index ≤ k.mark.index + 1024

def checkKey (k : KeySlot) : Except Fault Bool :=
  if !k.possible then .ok false
  else if s.isFresh k then .ok true
  else if k.required then s.fail k.mark .colonMissing
  else .ok false

def dropKey : Except Fault TokenStream :=
  let k := s.slot
  if !k.possible then .ok s
  else if k.required then s.fail k.mark .colonMissing
  else .ok ((s.setSlot { k with possible := false }).forget k.number)

def saveKey : Except Fault TokenStream :=
  if !s.keyAllowed then .ok s
  else do
    let k : KeySlot :=
      { possible := true, required := !s.inFlow && s.indent == s.mark.column, number := s.nextNumber, mark := s.mark }
    let s ← s.dropKey
    let s := (s.setSlot k).forget k.number
    return { s with waiting := (k.number, s.flowLevel) :: s.waiting }

def openFlow : Except Fault TokenStream :=
  let s := { s with slots := { number := s.nextNumber, mark := s.mark } :: s.slots, flowLevel := s.flowLevel + 1 }
  if s.flowLevel > maxDepth then s.fail s.mark .tooDeep else .ok s

def closeFlow : TokenStream :=
  if s.flowLevel = 0 then s
  else
    let s := s.forget s.slot.number
    { s with slots := s.slots.tail, flowLevel := s.flowLevel - 1 }

/-- Opens a block collection at a column beyond the current one.  Its token goes in front of the one with the given
number, or to the end. -/
def openBlock (column : Nat) (number? : Option Nat) (kind : TokenKind) (place : Mark) : Except Fault TokenStream :=
  if s.inFlow || s.indent ≥ column then .ok s
  else
    let s := { s with outer := s.indent :: s.outer, indent := column }
    if s.outer.length > maxDepth then s.fail s.slot.mark .tooDeep
    else
      let t : Token := ⟨kind, place, place⟩
      .ok (match number? with
        | some number => s.insert number t
        | none => s.push t)

def closeBlocks (column : Int) (place : Mark) : List Int → TokenStream → TokenStream
  | [], s => s
  | o :: os, s =>
    if s.inFlow || s.indent ≤ column then s
    else closeBlocks column place os
      { s with queue := s.queue ++ [⟨.blockEnd, place, place⟩], indent := o, outer := os }

def closeTo (column : Int) (place : Mark) : TokenStream := closeBlocks column place s.outer s

/-- Looks for a comment behind blanks, and behind breaks too if there may be lines between, within the size of a
chunk.  Gives its distance, and whether an unreadable character came into sight. -/
def commentAhead (lines : Bool) : Nat → Nat → List Char → Cursor → Option Nat × Bool × Cursor
  | 0, _, _, c => (none, false, c)
  | fuel + 1, ahead, cs, c =>
    let c := c.need (ahead + 1)
    if c.window.failed then (none, true, { c with window := { c.window with failed := false } })
    else
      match cs with
      | [] => (none, false, c)
      | x :: cs =>
        if isBlank x || (lines && (x == '\n' || x == '\r')) then commentAhead lines fuel (ahead + 1) cs c
        else if lines && isBreak x then (none, false, c.need (ahead + 2))
        else (if x == '#' then some ahead else none, false, c)

def walkTo (index : Nat) : Nat → Cursor → Cursor
  | 0, c => c
  | fuel + 1, c =>
    let c := c.need 1
    if c.mark.index ≥ index then c
    else walkTo index fuel (if startsBreak c.rest then (c.need 2).breakLine.2 else c.skip 1)

def skipComments : Nat → TokenStream → TokenStream
  | 0, s => s
  | fuel + 1, s =>
    let c := s.cursor.skipLine
    match commentAhead true (chunkSize - 1) 1 (c.rest.drop 1) c with
    | (none, failed, c) => { s with cursor := c, pending := s.pending || failed }
    | (some n, _, c) => skipComments fuel { s with cursor := walkTo (c.mark.index + n) (n + 1) c }

/-- Walks to the next token, over blanks, comments and line breaks.  Tabs are blanks only where no key may begin.
Where the characters in use began with a mark of the byte order, one character is skipped at the start of a line. -/
def toNextToken : Nat → TokenStream → TokenStream
  | 0, s => s
  | fuel + 1, s =>
    let c := s.cursor.need 1
    let c := if c.mark.column = 0 && c.window.marked then c.skip 1 else c
    let c := (c.run fun x => x == ' ' || (x == '\t' && (s.inFlow || !s.keyAllowed))).2
    let s := { s with cursor := c }
    let s := if c.at? '#' then skipComments (c.rest.length + 1) s else s
    let c := s.cursor
    if !c.rest.isEmpty && startsBreak c.rest then
      toNextToken fuel { s with cursor := (c.need 2).breakLine.2, keyAllowed := s.keyAllowed || !s.inFlow }
    else s

def skipLineComment : TokenStream :=
  if s.cursor.fresh || s.cursor.window.failed then s
  else
    match commentAhead false chunkSize 0 s.cursor.rest s.cursor with
    | (none, failed, c) => { s with cursor := c, pending := s.pending || failed }
    | (some n, _, c) => { s with cursor := (walkTo (c.mark.index + n) (n + 1) c).skipLine }

def fetchStreamEnd : Except Fault TokenStream := do
  let m := s.mark
  let m := if m.column = 0 then m else { m with column := 0, line := m.line + 1 }
  let s := { s with cursor := { s.cursor with mark := m } }
  let s ← (s.closeTo (-1) m).dropKey
  return { s with keyAllowed := false }.push ⟨.streamEnd, m, m⟩

def fetchDirective : Except Fault TokenStream := do
  let s ← (s.closeTo (-1) s.mark).dropKey
  let (t, c) ← directiveToken s.cursor
  return { s with keyAllowed := false, cursor := c }.push t

def fetchMarker (kind : TokenKind) : Except Fault TokenStream := do
  let s ← (s.closeTo (-1) s.mark).dropKey
  return { s with keyAllowed := false }.pushSimple kind 3

def fetchFlowStart (kind : TokenKind) : Except Fault TokenStream := do
  let s ← (← s.saveKey).openFlow
  return { s with keyAllowed := true }.pushSimple kind 1

def fetchFlowEnd (kind : TokenKind) : Except Fault TokenStream := do
  let s := (← s.dropKey).closeFlow
  return { s with keyAllowed := false }.pushSimple kind 1

def fetchFlowEntry : Except Fault TokenStream := do
  let s ← s.dropKey
  return { s with keyAllowed := true }.pushSimple .flowEntry 1

def fetchBlockEntry : Except Fault TokenStream := do
  let s ←
    if s.inFlow then pure s
    else if !s.keyAllowed then s.fail s.mark .entryNotAllowed
    else s.openBlock s.mark.column none .blockSequenceStart s.mark
  let s ← s.dropKey
  return { s with keyAllowed := true }.pushSimple .blockEntry 1

def fetchKey : Except Fault TokenStream := do
  let s ←
    if s.inFlow then pure s
    else if !s.keyAllowed then s.fail s.mark .keyNotAllowed
    else s.openBlock s.mark.column none .blockMappingStart s.mark
  let s ← s.dropKey
  return { s with keyAllowed := !s.inFlow }.pushSimple .key 1

def fetchValue : Except Fault TokenStream := do
  let k := s.slot
  let s ←
    if ← s.checkKey k then
      let s := s.insert k.number ⟨.key, k.mark, k.mark⟩
      let s ← s.openBlock k.mark.column (some k.number) .blockMappingStart k.mark
      pure { (s.setSlot { k with possible := false }).forget k.number with keyAllowed := false }
    else
      let s := s.setSlot { k with possible := false }
      let s ←
        if s.inFlow then pure s
        else if !s.keyAllowed then s.fail s.mark .valueNotAllowed
        else s.openBlock s.mark.column none .blockMappingStart s.mark
      pure { s with keyAllowed := !s.inFlow }
  return s.pushSimple .value 1

def fetchAnchor (isAlias : Bool) : Except Fault TokenStream := do
  let s ← s.saveKey
  let (t, c) ← anchorToken isAlias s.cursor
  return { s with keyAllowed := false, cursor := c }.push t

def fetchTag : Except Fault TokenStream := do
  let s ← s.saveKey
  let (t, c) ← tagToken s.cursor
  return { s with keyAllowed := false, cursor := c }.push t

def fetchBlockScalar (literal : Bool) : Except Fault TokenStream := do
  let s ← s.dropKey
  let (t, c) ← blockScalar literal s.indent s.cursor
  return { s with keyAllowed := true, cursor := c }.push t

def fetchQuoted (single : Bool) : Except Fault TokenStream := do
  let s ← s.saveKey
  let (t, c) ← quotedScalar single s.cursor
  return { s with keyAllowed := false, cursor := c }.push t

def fetchPlain : Except Fault TokenStream := do
  let s ← s.saveKey
  let (t, broken, c) ← plainScalar s.inFlow s.indent s.cursor
  return { s with keyAllowed := broken, cursor := c }.push t

def startsPlain (inFlow : Bool) (x : Char) (cs : List Char) : Bool :=
  !(startsBlank (x :: cs) || "-?:,[]\x7b\x7d#&*!|>'\"%@".toList.contains x || x.toNat == 0x60) ||
    (x == '-' && !cs.head?.any isBlank) ||
    (!inFlow && (x == '?' || x == ':') && !startsBlank cs)

def fetchHere : Except Fault TokenStream :=
  match s.cursor.rest with
  | [] => s.fetchStreamEnd
  | x :: cs =>
    let alone := startsBlank cs
    if s.mark.column = 0 && x == '%' then s.fetchDirective
    else if s.mark.column = 0 && startsMarker '-' (x :: cs) then s.fetchMarker .documentStart
    else if s.mark.column = 0 && startsMarker '.' (x :: cs) then s.fetchMarker .documentEnd
    else do
      let s ←
        if x == '[' then s.fetchFlowStart .flowSequenceStart
        else if x == '\x7b' then s.fetchFlowStart .flowMappingStart
        else if x == ']' then s.fetchFlowEnd .flowSequenceEnd
        else if x == '\x7d' then s.fetchFlowEnd .flowMappingEnd
        else if x == ',' then s.fetchFlowEntry
        else if x == '-' && alone then s.fetchBlockEntry
        else if x == '?' && (s.inFlow || alone) then s.fetchKey
        else if x == ':' && (s.inFlow || alone) then s.fetchValue
        else if x == '*' then s.fetchAnchor true
        else if x == '&' then s.fetchAnchor false
        else if x == '!' then s.fetchTag
        else if x == '|' && !s.inFlow then s.fetchBlockScalar true
        else if x == '>' && !s.inFlow then s.fetchBlockScalar false
        else if x == '\'' then s.fetchQuoted true
        else if x == '"' then s.fetchQuoted false
        else if startsPlain s.inFlow x cs then s.fetchPlain
        else s.fail s.mark .badStart
      return if x == '-' && alone then s else s.skipLineComment

def fetchNext : Except Fault TokenStream :=
  let s := { s with cursor := s.cursor.need 1 }
  if !s.started then .ok ({ s with started := true }.push ⟨.streamStart, s.mark, s.mark⟩)
  else
    let before := s.mark
    let s := toNextToken (s.cursor.rest.length + 1) s
    let s := s.closeTo s.mark.column before
    { s with cursor := s.cursor.need 4 }.fetchHere

/-- Reads one more token.  An unreadable character is a fault as soon as it comes into sight. -/
def fetch : Except Fault TokenStream := do
  let s ← s.fetchNext
  if s.cursor.window.failed then .error .controlCharacter else return s

def headWaits : Except Fault Bool :=
  match s.waiting.lookup s.taken with
  | none => .ok false
  | some level => s.checkKey (s.slots.reverse.getD level {})

/-- Reads tokens until the first can be taken: two more are known, and it cannot begin a key any more. -/
def fill : Nat → TokenStream → Except Fault TokenStream
  | 0, s => .ok s
  | fuel + 1, s => do
    if s.queue.length < 3 then fill fuel (← s.fetch)
    else if ← s.headWaits then fill fuel (← s.fetch)
    else return s

def peek : Except Fault (Token × TokenStream) := do
  let s ← fill (s.cursor.rest.length + 4) s
  match s.queue with
  | t :: _ => return (t, s)
  | [] => .error .exhausted

def drop : TokenStream := { s with queue := s.queue.tail, taken := s.taken + 1 }

def ofText (text : String) : TokenStream :=
  let (cs, room) := match text.toList with
    | c :: cs => if Cursor.isByteOrderMark c then (cs, chunkSize - 3) else (c :: cs, chunkSize)
    | [] => ([], chunkSize)
  let part := cs.takeWhile isReadable
  let blocked := part.length < cs.length
  { cursor := { rest := part, window := { later := chunkEnds 0 room cs, blocked } } }

end TokenStream

end Covenant.Yaml
