import Covenant.Yaml.TokenStream

/-!
# Nodes

`Node.ofText` reads the first document of a text.  Nodes know the line they begin on and their tag; a scalar that has
no tag gets the one that its text resolves to.  An alias holds the node it stands for, or, inside of that node, only
the place where it begins.
-/

namespace Covenant.Yaml

structure NodeHead where
  mark : Mark := {}
  tag : String := ""
  anchored : Bool := false

inductive Node where
  | scalar (head : NodeHead) (text : String) (style : ScalarStyle)
  | sequence (head : NodeHead) (items : List Node)
  | mapping (head : NodeHead) (entries : List (Node × Node))
  | link (head : NodeHead) (name : String) (target : Node)
  /-- An alias of a node around it, which begins at the index. -/
  | enclosing (head : NodeHead) (name : String) (index : Nat)

namespace Node

def head : Node → NodeHead
  | scalar h _ _ | sequence h _ | mapping h _ | link h _ _ | enclosing h _ _ => h

def line (n : Node) : Nat := n.head.mark.line + 1

def isMapping : Node → Bool
  | mapping .. => true
  | _ => false

def text : Node → String
  | scalar _ s _ => s
  | link _ name _ | enclosing _ name _ => name
  | _ => ""

def sameKey (a b : Node) : Bool :=
  a.text == b.text && match a, b with
    | scalar .., scalar .. | sequence .., sequence .. | mapping .., mapping .. => true
    | link .., link .. | link .., enclosing .. | enclosing .., link .. | enclosing .., enclosing .. => true
    | _, _ => false

def isString : Node → Bool
  | scalar h _ _ => h.tag == strTag
  | _ => false

def shortTag : Node → String
  | scalar h _ _ | sequence h _ | mapping h _ => h.tag
  | link _ _ target => target.shortTag
  | enclosing .. => ""

def isMerge : Node → Bool
  | scalar h s _ => s == "<<" && h.tag == mergeTag
  | _ => false

end Node

/-- The state of reading: tokens, the handles of tags, and the nodes that have names, latest first.  A node that is
not complete is known by the index where it begins. -/
structure Reading where
  tokens : TokenStream
  handles : List (String × String) := []
  anchors : List (String × Nat × Option Node) := []

abbrev Reader := StateT Reading (Except Fault)

def peekToken : Reader Token := do
  let s ← get
  let (t, tokens) ← s.tokens.peek
  set { s with tokens }
  return t

def dropToken : Reader Unit := modify fun s => { s with tokens := s.tokens.drop }

def nextToken : Reader Token := do
  dropToken
  peekToken

def endEvent : Reader Unit := do if (← get).tokens.pending then throw .controlCharacter

def eventNode (n : Node) : Reader Node := do
  endEvent
  return n

def bad {α : Type} (context : Mark) (t : Token) (p : Problem) : Reader α := throw (.grammar context t.start p)

structure Properties where
  anchor : Option String := none
  tag : String := ""
  start : Mark

def fullTag (start place : Mark) (handle suffix : String) : Reader String := do
  if handle.isEmpty then return suffix
  match (← get).handles.lookup handle with
  | some uri =>
    if (uri ++ suffix).isEmpty then throw (.grammar start place .undefinedHandle) else return uri ++ suffix
  | none => throw (.grammar start place .undefinedHandle)

def readProperties : Reader (Properties × Token) := do
  let t ← peekToken
  match t.kind with
  | .anchor name =>
    let u ← nextToken
    match u.kind with
    | .tag handle suffix =>
      let v ← nextToken
      return ({ anchor := some name, tag := ← fullTag t.start u.start handle suffix, start := t.start }, v)
    | _ => return ({ anchor := some name, start := t.start }, u)
  | .tag handle suffix =>
    let u ← nextToken
    match u.kind with
    | .anchor name =>
      let v ← nextToken
      return ({ anchor := some name, tag := ← fullTag t.start t.start handle suffix, start := t.start }, v)
    | _ => return ({ tag := ← fullTag t.start t.start handle suffix, start := t.start }, u)
  | _ => return ({ start := t.start }, t)

variable (p : Properties)

/-- The head of a node with the given properties; a tag that says nothing counts as none. -/
def headOf (default : String) : NodeHead :=
  let tag := if p.tag.isEmpty || p.tag == "!" then default else shorten p.tag
  { mark := p.start, tag, anchored := p.anchor.isSome }

def scalarNode (text : String) (style : ScalarStyle) : Node :=
  let default :=
    if style != .plain then strTag else if text == "<<" then mergeTag else (resolvePlain text).tag
  .scalar (headOf p default) text style

def emptyNode (place : Mark) : Node := scalarNode { start := place } "" .plain

def nameNode (n : Node) : Reader Node := do
  if let some name := p.anchor then
    modify fun s => { s with anchors := (name, p.start.index, some n) :: s.anchors }
  return n

def nameOpen : Reader Unit := do
  if let some name := p.anchor then
    modify fun s => { s with anchors := (name, p.start.index, none) :: s.anchors }

def closeNode (n : Node) : Reader Node := do
  if p.anchor.isSome then
    modify fun s => { s with anchors := s.anchors.map fun (name, index, known) =>
      if index = p.start.index && known.isNone then (name, index, some n) else (name, index, known) }
  return n

def aliasNode (t : Token) (name : String) : Reader Node := do
  let head : NodeHead := { mark := t.start }
  endEvent
  match (← get).anchors.lookup name with
  | none => throw (.unknownAnchor name)
  | some (_, some n) =>
    dropToken
    return .link head name n
  | some (index, none) =>
    dropToken
    return .enclosing head name index

/-- Where a node stands: in a block or in a flow collection, and whether a sequence may begin without indentation. -/
structure Position where
  block : Bool
  indentless : Bool := false

def sequenceNode (items : Reader (List Node)) : Reader Node := do
  endEvent
  nameOpen p
  closeNode p (.sequence (headOf p seqTag) (← items))

def mappingNode (entries : Reader (List (Node × Node))) : Reader Node := do
  endEvent
  nameOpen p
  dropToken
  closeNode p (.mapping (headOf p mapTag) (← entries))

def nodeUnless (ends : List TokenKind) (t : Token) (place : Mark) (node : Reader Node) : Reader Node :=
  if ends.contains t.kind then eventNode (emptyNode place) else node

def readValue (ends : List TokenKind) (place : Token → Token → Mark) (node : Reader Node) : Reader Node := do
  let v ← peekToken
  if v.kind == .value then
    let w ← nextToken
    nodeUnless ends w (place v w) node
  else eventNode (emptyNode v.start)

def flowNext (close : TokenKind) (start : Mark) (first : Bool) (problem : Problem) : Reader Token := do
  let t ← peekToken
  if first || t.kind == close then return t
  else if t.kind == .flowEntry then nextToken
  else bad start t problem

mutual

def readNode (fuel : Nat) (pos : Position) : Reader Node :=
  match fuel with
  | 0 => throw .exhausted
  | fuel + 1 => do
    let t ← peekToken
    if let .link name := t.kind then return ← aliasNode t name
    let (p, t) ← readProperties
    match t.kind, pos.block, pos.indentless with
    | .blockEntry, _, true => sequenceNode p (readBlockItems fuel none)
    | .scalar text style, _, _ =>
      dropToken
      endEvent
      nameNode p (scalarNode p text style)
    | .flowSequenceStart, _, _ => sequenceNode p (dropToken *> readFlowItems fuel t.start true)
    | .flowMappingStart, _, _ => mappingNode p (readFlowEntries fuel t.start true)
    | .blockSequenceStart, true, _ => sequenceNode p (dropToken *> readBlockItems fuel (some t.start))
    | .blockMappingStart, true, _ => mappingNode p (readBlockEntries fuel t.start)
    | _, _, _ =>
      if p.anchor.isSome || !p.tag.isEmpty then
        endEvent
        nameNode p (scalarNode p "" .plain)
      else bad p.start t .nodeContent

/-- The items of a sequence in a block, which ends with a token of its own if it is indented. -/
def readBlockItems (fuel : Nat) (start? : Option Mark) : Reader (List Node) :=
  match fuel with
  | 0 => throw .exhausted
  | fuel + 1 => do
    let t ← peekToken
    match t.kind, start? with
    | .blockEntry, _ =>
      let ends := if start?.isSome then [.blockEntry, .blockEnd] else [.blockEntry, .key, .value, .blockEnd]
      let item ← nodeUnless ends (← nextToken) t.stop (readNode fuel { block := true })
      return item :: (← readBlockItems fuel start?)
    | .blockEnd, some _ =>
      dropToken
      endEvent
      return []
    | _, some start => bad start t .entryIndicator
    | _, none =>
      endEvent
      return []

def readBlockEntries (fuel : Nat) (start : Mark) : Reader (List (Node × Node)) :=
  match fuel with
  | 0 => throw .exhausted
  | fuel + 1 => do
    let t ← peekToken
    match t.kind with
    | .key =>
      let node := readNode fuel { block := true, indentless := true }
      let key ← nodeUnless [.key, .value, .blockEnd] (← nextToken) t.stop node
      let value ← readValue [.key, .value, .blockEnd] (fun v _ => v.stop) node
      return (key, value) :: (← readBlockEntries fuel start)
    | .blockEnd =>
      dropToken
      endEvent
      return []
    | _ => bad start t .expectedKey

def readFlowItems (fuel : Nat) (start : Mark) (first : Bool) : Reader (List Node) :=
  match fuel with
  | 0 => throw .exhausted
  | fuel + 1 => do
    let t ← flowNext .flowSequenceEnd start first .sequenceEnd
    match t.kind with
    | .flowSequenceEnd =>
      dropToken
      endEvent
      return []
    | .key =>
      dropToken
      endEvent
      let entry ← readFlowPair fuel
      return .mapping (headOf { start := t.start } mapTag) [entry] :: (← readFlowItems fuel start false)
    | _ =>
      let item ← readNode fuel { block := false }
      return item :: (← readFlowItems fuel start false)

def readFlowPair (fuel : Nat) : Reader (Node × Node) :=
  match fuel with
  | 0 => throw .exhausted
  | fuel + 1 => do
    let t ← peekToken
    let key ← match t.kind with
      | .value | .flowEntry | .flowSequenceEnd =>
        dropToken
        eventNode (emptyNode t.stop)
      | _ => readNode fuel { block := false }
    let value ← readValue [.flowEntry, .flowSequenceEnd] (fun v _ => v.start) (readNode fuel { block := false })
    let _ ← peekToken
    endEvent
    return (key, value)

def readFlowEntries (fuel : Nat) (start : Mark) (first : Bool) : Reader (List (Node × Node)) :=
  match fuel with
  | 0 => throw .exhausted
  | fuel + 1 => do
    let t ← flowNext .flowMappingEnd start first .mappingEnd
    let node := readNode fuel { block := false }
    match t.kind with
    | .flowMappingEnd =>
      dropToken
      endEvent
      return []
    | .key =>
      let u ← nextToken
      let key ← nodeUnless [.value, .flowEntry, .flowMappingEnd] u u.start node
      let value ← readValue [.flowEntry, .flowMappingEnd] (fun _ w => w.start) node
      return (key, value) :: (← readFlowEntries fuel start false)
    | _ =>
      let key ← node
      let v ← peekToken
      let value ← eventNode (emptyNode v.start)
      return (key, value) :: (← readFlowEntries fuel start false)

end

def defaultHandles : List (String × String) := [("!", "!"), ("!!", tagPrefix)]

def readDirectives : Nat → Bool → Reader Unit
  | 0, _ => throw .exhausted
  | fuel + 1, versioned => do
    let t ← peekToken
    match t.kind with
    | .versionDirective major minor =>
      if versioned then bad {} t .repeatedVersion
      else if major ≠ 1 || minor ≠ 1 then bad {} t .wrongVersion
      else
        dropToken
        readDirectives fuel true
    | .tagDirective handle uri =>
      if ((← get).handles.lookup handle).isSome then bad {} t .repeatedTag
      else
        modify fun s => { s with handles := s.handles ++ [(handle, uri)] }
        dropToken
        readDirectives fuel versioned
    | _ => modify fun s => { s with handles := s.handles ++ defaultHandles }

def readRoot (fuel : Nat) : Reader Node := do
  let t ← peekToken
  match t.kind with
  | .versionDirective .. | .tagDirective .. | .documentStart | .documentEnd | .streamEnd =>
    eventNode (emptyNode t.start)
  | _ => readNode fuel { block := true }

def readDocument (fuel : Nat) : Reader (Option Node) := do
  let _ ← peekToken
  dropToken
  endEvent
  let t ← peekToken
  match t.kind with
  | .streamEnd =>
    endEvent
    return none
  | .versionDirective .. | .tagDirective .. | .documentStart =>
    readDirectives fuel false
    let t ← peekToken
    if t.kind != .documentStart then bad {} t .documentStart
    dropToken
    endEvent
    let root ← readRoot fuel
    let _ ← peekToken
    endEvent
    return some root
  | _ =>
    readDirectives fuel false
    endEvent
    let root ← readNode fuel { block := true }
    let _ ← peekToken
    endEvent
    return some root

def Node.ofText (text : String) : Except Fault (Option Node) :=
  (readDocument (8 * text.length + 64)).run' { tokens := .ofText text }

end Covenant.Yaml
