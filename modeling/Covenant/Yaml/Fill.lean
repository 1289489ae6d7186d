import Covenant.Yaml.Node

/-!
# Filling typed places from nodes

A `Slot` says what a place of a document holds, and `fill` reads a node into it.  Nodes that do not fit are collected,
so that a reader sees all of them at once; null leaves a place as it is.  Mappings may merge other mappings into their
own, which yield to their own keys.
-/

namespace Covenant.Yaml

inductive Slot where
  | text
  | int
  | flag
  | any
  | list (element : Slot)
  | table (value : Slot)
  | record (name : String)
  | optional (name : String)

def Slot.name : Slot → String
  | text => "string"
  | int => "int64"
  | flag => "bool"
  | any => "interface \x7b\x7d"
  | list element => "[]" ++ element.name
  | table value => "map[string]" ++ value.name
  | record name => name
  | optional name => "*" ++ name

inductive Datum where
  | scalar (value : ScalarValue)
  | list (items : List Datum)
  /-- A dictionary; the flag says that all keys are texts. -/
  | map (textKeys : Bool) (entries : List (Datum × Datum))

def Datum.typeName : Datum → String
  | scalar .null => "<nil>"
  | scalar (.bool _) => "bool"
  | scalar (.int n) => if n < Number.int64Bound then "int" else "uint64"
  | scalar (.float _) => "float64"
  | scalar (.timestamp _) => "time.Time"
  | scalar (.text _) => "string"
  | list _ => "[]interface \x7b\x7d"
  | map true _ => "map[string]interface \x7b\x7d"
  | map false _ => "map[interface \x7b\x7d]interface \x7b\x7d"

def ScalarValue.shown : ScalarValue → String
  | null => "interface \x7b\x7d(nil)"
  | bool b => toString b
  | int n => if n < Number.int64Bound then toString n else "0x" ++ String.ofList (Nat.toDigits 16 n.toNat)
  | float d => d.short
  | timestamp t => t.shown
  | text s => Text.quoted s

def ScalarValue.rank : ScalarValue → Nat
  | null => 0
  | bool _ => 1
  | int n => if n < Number.int64Bound then 2 else 3
  | float _ => 4
  | text _ => 5
  | timestamp _ => 6

def ScalarValue.atMost (a b : ScalarValue) : Bool :=
  match a, b with
  | bool x, bool y => !x || y
  | int x, int y => x ≤ y
  | float x, float y => x.atMost y
  | text x, text y => x ≤ y
  | timestamp x, timestamp y => x.shown ≤ y.shown
  | _, _ => a.rank ≤ b.rank

def keyAtMost : Datum × String → Datum × String → Bool
  | (.scalar a, _), (.scalar b, _) => a.atMost b
  | _, _ => true

mutual

def Datum.shown : Datum → String
  | .scalar v => v.shown
  | .list items => "[]interface \x7b\x7d\x7b" ++ Text.join ", " (shownItems items) ++ "\x7d"
  | .map textKeys entries =>
    let keyType := if textKeys then "string" else "interface \x7b\x7d"
    let sorted := (shownEntries entries).mergeSort keyAtMost
    "map[" ++ keyType ++ "]interface \x7b\x7d\x7b" ++
      Text.join ", " (sorted.map fun (k, v) => (match k with | .scalar k => k.shown | _ => "") ++ ":" ++ v) ++ "\x7d"

def shownItems : List Datum → List String
  | [] => []
  | d :: ds => d.shown :: shownItems ds

def shownEntries : List (Datum × Datum) → List (Datum × String)
  | [] => []
  | (k, v) :: es => (k, v.shown) :: shownEntries es

end

inductive Value where
  | null
  | text (value : String)
  | int (value : Int)
  | flag (value : Bool)
  | any (value : Datum)
  | list (items : List Value)
  | table (entries : List (String × Value))
  | record (fields : List (String × Value))

inductive Mismatch where
  | type (line : Nat) (tag : String) (text : Option String) (slot : String)
  | repeatedKey (line : Nat) (key : String) (first : Nat)
  | unknownField (line : Nat) (field record : String)
  | repeatedField (line : Nat) (field record : String)

/-- A text of more than ten octets is cut after seven.  Octets of a character that is cut become replacement
characters. -/
def clipped (s : String) : String :=
  let rec cut : Nat → List Char → List Char
    | _, [] => []
    | room, c :: cs =>
      let size := Text.octetSize c
      if size ≤ room then c :: cut (room - size) cs else List.replicate room (Char.ofNat 0xFFFD)
  if (Text.toOctets s).length > 10 then String.ofList (cut 7 s.toList) ++ "..." else s

def Mismatch.message : Mismatch → String
  | type line tag text slot =>
    linePart line ++ "cannot unmarshal " ++ tag ++
      (text.elim "" fun t => " `" ++ clipped t ++ "`") ++ " into " ++ slot
  | repeatedKey line key first =>
    linePart line ++ "mapping key " ++ Text.quoted key ++ " already defined at line " ++ toString first
  | unknownField line field record => linePart line ++ "field " ++ field ++ " not found in type " ++ record
  | repeatedField line field record => linePart line ++ "field " ++ field ++ " already set in type " ++ record

inductive ReadError where
  | empty
  | fault (f : Fault)
  | mismatches (ms : List Mismatch)

def ReadError.message : ReadError → String
  | empty => "EOF"
  | fault f => f.message
  | mismatches ms => "yaml: unmarshal errors:\n  " ++ Text.join "\n  " (ms.map (·.message))

structure Filling where
  /-- Latest first. -/
  mismatches : List Mismatch := []
  merged : Option (List ScalarValue) := none
  reads : Nat := 1
  aliased : Nat := 0

abbrev Filler := StateT Filling (Except Fault)

structure Around where
  fields : String → List (String × Slot)
  /-- The named nodes around it, by the index where they begin. -/
  opened : List (Nat × Node) := []
  /-- The aliases that led to it, by the index where they begin. -/
  through : List Nat := []

def mismatch (m : Mismatch) : Filler Unit := modify fun s => { s with mismatches := m :: s.mismatches }

def misfit (n : Node) (slot : Slot) : Filler (Option Value) := do
  let tag := n.head.tag
  mismatch (.type n.line tag (if tag == seqTag || tag == mapTag then none else some n.text) slot.name)
  return none

/-- Whether too much of a large document comes from aliases: 99 of 100 nodes, and less in very large documents. -/
def tooAliased (reads aliased : Nat) : Bool :=
  aliased > 100 && reads > 1000 &&
    if reads ≤ 400000 then aliased * 100 > reads * 99
    else if reads ≥ 4000000 then aliased * 10 > reads
    else aliased * 360000000 > reads * (356400000 - 89 * (reads - 400000))

def countRead (around : Around) : Filler Unit := do
  modify fun s =>
    { s with reads := s.reads + 1, aliased := if around.through.isEmpty then s.aliased else s.aliased + 1 }
  let s ← get
  if tooAliased s.reads s.aliased then throw .aliasing

def scalarValue (n : Node) : Except Fault ScalarValue :=
  if n.isString then .ok (.text n.text)
  else if n.head.tag == binaryTag then
    match Base64.decode? n.text with
    | some s => .ok (.text s)
    | none => .error .base64
  else resolveTagged n.head.tag n.text

/-- The integer of 64 bits that a number is converted to: fractions are cut off, and numbers below the least one
become it. -/
def toInt64? : ScalarValue → Option Int
  | .int n => if n < Number.int64Bound then some n else none
  | .float (.infinity true) => some (-Number.int64Bound)
  | .float d =>
    match d.truncate? with
    | some n =>
      let bound := Number.int64Bound
      if n < -bound || n == bound then some (-bound) else if n < bound then some n else none
    | none => none
  | _ => none

/-- The truth value of a scalar; some words count only where a truth value is asked for. -/
def toFlag? : ScalarValue → Option Bool
  | .bool b => some b
  | .text s =>
    if ["y", "Y", "yes", "Yes", "YES", "on", "On", "ON"].contains s then some true
    else if ["n", "N", "no", "No", "NO", "off", "Off", "OFF"].contains s then some false
    else none
  | _ => none

def nullValue? : Slot → Option Value
  | .any => some (.any (.scalar .null))
  | .list _ | .table _ | .optional _ => some .null
  | _ => none

def Slot.filled : Slot → Slot
  | optional name => record name
  | s => s

def fillScalar (slot : Slot) (n : Node) : Filler (Option Value) := do
  let v ← scalarValue n
  match v, slot with
  | .null, _ => return nullValue? slot
  | v, .any => return some (.any (.scalar v))
  | .text s, .text => return some (.text s)
  | _, .text => return some (.text n.text)
  | v, .int =>
    match toInt64? v with
    | some i => return some (.int i)
    | none => misfit n slot
  | v, .flag =>
    match toFlag? v with
    | some b => return some (.flag b)
    | none => misfit n slot
  | _, _ => misfit n slot.filled

def repeatedKeys : List Node → List Mismatch
  | [] => []
  | k :: ks => (ks.filter k.sameKey).map (fun j => .repeatedKey j.line j.text k.line) ++ repeatedKeys ks

def hasTextKeys (entries : List (Node × Node)) : Bool :=
  entries.all fun (k, _) => k.shortTag == strTag || k.shortTag == mergeTag

def putEntry (key : String) (v : Value) (entries : List (String × Value)) : List (String × Value) :=
  entries.filter (·.1 != key) ++ [(key, v)]

def fieldsOf : Option Value → List (String × Value)
  | some (.record fields) => fields
  | _ => []

def entriesOf : Option Value → List (String × Value)
  | some (.table entries) => entries
  | _ => []

def textOf : Option Value → Option String
  | some (.text s) => some s
  | _ => none

def datumOf : Option Value → Option Datum
  | some (.any d) => some d
  | _ => none

def putItem (key : ScalarValue) (v : Datum) (items : List (Datum × Datum)) : List (Datum × Datum) :=
  let isKey : Datum × Datum → Bool
    | (.scalar k, _) => k == key && k != .float .nan
    | _ => false
  items.filter (!isKey ·) ++ [(.scalar key, v)]

/-- Whether a key was taken by a mapping that this one is merged into; if not, it is taken now. -/
def takeKey (merged : Option (List ScalarValue)) (k : ScalarValue) : Bool × Option (List ScalarValue) :=
  match merged with
  | none => (false, none)
  | some ks => if ks.contains k then (true, some ks) else (false, some (k :: ks))

def overEntries {κ σ : Type} (scalar : κ → ScalarValue) (key : Bool → Node → Filler (Option κ))
    (entry : σ → Node → κ → Node → Filler σ) (entries : List (Node × Node)) (start : σ) : Filler σ := do
  let merged := (← get).merged
  modify fun s => { s with merged := none }
  let (result, merged) ← entries.foldlM (fun (state, merged) (k, v) => do
    if k.isMerge then return (state, merged)
    let some own ← key merged.isSome k | return (state, merged)
    match takeKey merged (scalar own) with
    | (true, merged) => return (state, merged)
    | (false, merged) => return (← entry state k own v, merged)) (start, merged)
  modify fun s => { s with merged }
  return result

def mergeNode? (entries : List (Node × Node)) : Option Node :=
  (entries.reverse.find? (·.1.isMerge)).map (·.2)

def isMergeable (around : Around) : Node → Bool
  | .mapping .. => true
  | .link _ _ target => target.isMapping
  | .enclosing _ _ index => (around.opened.lookup index).any (·.isMapping)
  | _ => false

mutual

/-- Reads a node into a slot.  Gives nothing if the node does not fit or leaves the slot as it is. -/
def fill (fuel : Nat) (around : Around) (slot : Slot) (n : Node) : Filler (Option Value) :=
  fillOnto fuel around slot n none

def fillOnto (fuel : Nat) (around : Around) (slot : Slot) (n : Node) (old : Option Value) :
    Filler (Option Value) :=
  match fuel with
  | 0 => throw .exhausted
  | fuel + 1 => do
    countRead around
    match n with
    | .scalar .. => fillScalar slot n
    | .link h name target =>
      if around.through.contains h.mark.index then throw (.selfContained name)
      fillOnto fuel { around with through := h.mark.index :: around.through } slot target old
    | .enclosing h name index =>
      if around.through.contains h.mark.index then throw (.selfContained name)
      match around.opened.lookup index with
      | some target => fillOnto fuel { around with through := h.mark.index :: around.through } slot target old
      | none => throw (.unknownAnchor name)
    | .sequence h items =>
      let inside := if h.anchored then { around with opened := (h.mark.index, n) :: around.opened } else around
      match slot with
      | .list element =>
        let vs ← items.mapM (fill fuel inside element)
        return some (.list (vs.filterMap id))
      | .any =>
        let vs ← items.mapM (fill fuel inside .any)
        return some (.any (.list (vs.filterMap datumOf)))
      | slot => misfit n (if h.tag == nullTag then slot else slot.filled)
    | .mapping h entries =>
      let inside := if h.anchored then { around with opened := (h.mark.index, n) :: around.opened } else around
      let repeated := repeatedKeys (entries.map (·.1))
      if !repeated.isEmpty then
        repeated.forM mismatch
        return none
      match slot with
      | .record name => fillRecord fuel inside name entries old
      | .optional name => if h.tag == nullTag then misfit n slot else fillRecord fuel inside name entries old
      | .table value => fillTable fuel inside value entries old
      | .any =>
        match old with
        | some (.any (.map asTexts items)) => fillItems fuel inside asTexts asTexts entries items
        | _ => fillItems fuel inside false (hasTextKeys entries) entries []
      | slot => misfit n slot

def fillRecord (fuel : Nat) (around : Around) (name : String) (entries : List (Node × Node)) (old : Option Value) :
    Filler (Option Value) :=
  match fuel with
  | 0 => throw .exhausted
  | fuel + 1 => do
    let key (k : Node) : Filler (Option String) := return textOf (← fill fuel around .text k)
    let (fields, _) ← overEntries .text (fun _ => key) (fun (fields, done) k field v => do
      match (around.fields name).lookup field with
      | none =>
        mismatch (.unknownField k.line field name)
        return (fields, done)
      | some slot =>
        if done.contains field then
          mismatch (.repeatedField k.line field name)
          return (fields, done)
        match ← fill fuel around slot v with
        | some value => return (putEntry field value fields, field :: done)
        | none => return (fields, field :: done)) entries (fieldsOf old, ([] : List String))
    mergeInto fuel around (.record name) entries (some (.record fields))

def fillTable (fuel : Nat) (around : Around) (slot : Slot) (entries : List (Node × Node)) (old : Option Value) :
    Filler (Option Value) :=
  match fuel with
  | 0 => throw .exhausted
  | fuel + 1 => do
    let key (k : Node) : Filler (Option String) := return textOf (← fill fuel around .text k)
    let table ← overEntries .text (fun _ => key) (fun table _ name v => do
      return match ← fill fuel around slot v with
        | some value => putEntry name value table
        | none => table) entries (entriesOf old)
    mergeInto fuel around (.table slot) entries (some (.table table))

/-- Reads the entries of a dictionary of any values.  Keys are read as texts, or as what they are, which has to be a
scalar; `textKeys` says what is known of them. -/
def fillItems (fuel : Nat) (around : Around) (asTexts textKeys : Bool) (entries : List (Node × Node))
    (items : List (Datum × Datum)) : Filler (Option Value) :=
  match fuel with
  | 0 => throw .exhausted
  | fuel + 1 => do
    let key (merging : Bool) (k : Node) : Filler (Option ScalarValue) := do
      if asTexts then return (textOf (← fill fuel around .text k)).map .text
      match ← fill fuel around .any k with
      | some (.any (.scalar key)) => return some key
      | some (.any key) => throw (if merging then .unhashable key.typeName else .mapKey key.shown)
      | _ => return none
    let items ← overEntries id key (fun items _ key v => do
      return match datumOf (← fill fuel around .any v) with
        | some d => putItem key d items
        | none => items) entries items
    mergeInto fuel around .any entries (some (.any (.map textKeys items)))

def mergeInto (fuel : Nat) (around : Around) (slot : Slot) (entries : List (Node × Node)) (own : Option Value) :
    Filler (Option Value) :=
  match fuel, mergeNode? entries with
  | _, none => return own
  | 0, _ => throw .exhausted
  | fuel + 1, some source => do
    let outer := (← get).merged
    if outer.isNone then
      let keys ← entries.filterMapM fun (k, _) => do
        match ← fill fuel around .any k with
        | some (.any (.scalar key)) => return some key
        | some (.any d) => throw (.unhashable d.typeName)
        | _ => return none
      modify fun s => { s with merged := some keys }
    let sources := match source with
      | .sequence _ items => items
      | n => [n]
    let all ← sources.foldlM (fun value n => do
      if isMergeable around n then
        match ← fillOnto fuel around slot n value with
        | some v => return some v
        | none => return value
      else throw .mergeValue) own
    if outer.isNone then modify fun s => { s with merged := none }
    return all

end

def read (fields : String → List (String × Slot)) (slot : Slot) (text : String) :
    Except ReadError (Option Value) := do
  match ← (Node.ofText text).mapError .fault with
  | none => throw .empty
  | some n =>
    let (value, s) ← ((fill ((text.length + 2) * (text.length + 2)) { fields } slot n).run {}).mapError .fault
    if s.mismatches.isEmpty then return value else throw (.mismatches s.mismatches.reverse)

end Covenant.Yaml
