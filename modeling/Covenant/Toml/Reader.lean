import Covenant.Toml.Number

/-!
# Reading TOML documents

A document is a sequence of lines that open a table, add a table to a list, or give a key a value.  An item keeps its
numbers and dates unread: their faults count only once it is known that the keys before them are all right.
-/

namespace Covenant.Toml

inductive Raw where
  | string (text : String)
  | bool (value : Bool)
  | number (text : NumberText)
  | moment (text : MomentText)
  | array (items : List Raw)
  | inline (entries : List (List String × Raw))

inductive Item where
  | table (path : List String)
  | tables (path : List String)
  | pair (path : List String) (value : Raw)

abbrev Reader := StateT (List Char) (Except Cause)

namespace Reader

def fail {α : Type} (cause : Cause) : Reader α := throw cause

def rest : Reader (List Char) := get

def moveTo (later : List Char) : Reader Unit := set later

def taking {α : Type} (f : List Char → Except Cause (α × List Char)) : Reader α := do
  match f (← rest) with
  | .ok (a, later) =>
    moveTo later
    return a
  | .error cause => fail cause

def skipBlanks : Reader Unit := do moveTo ((← rest).dropWhile fun c => c == ' ' || c == '\t')

def expect (due : Char) : Reader Unit := do
  match ← rest with
  | [] => fail (.missing due true)
  | c :: later => if c == due then moveTo later else fail (.missing due false)

def newline : Reader Unit := do
  match ← rest with
  | '\n' :: later => moveTo later
  | '\r' :: '\n' :: later => moveTo later
  | ['\r'] => fail (.carriageReturn true)
  | '\r' :: _ => fail (.carriageReturn false)
  | c :: _ => fail (.afterItem c)
  | [] => return ()

def comment : Reader Unit := do
  let rec go : List Char → Except Cause (List Char)
    | [] => .ok []
    | '\n' :: later => .ok ('\n' :: later)
    | '\r' :: '\n' :: later => .ok ('\n' :: later)
    | c :: later => if c == '\r' || isForbidden c then .error .comment else go later
  match go ((← rest).drop 1) with
  | .ok later => moveTo later
  | .error cause => fail cause

def skipSpaceBy : Nat → Reader Unit
  | 0 => return ()
  | fuel + 1 => do
    skipBlanks
    if (← rest).head? == some '#' then comment
    match (← rest).head? with
    | some '\n' | some '\r' =>
      newline
      skipSpaceBy fuel
    | _ => return ()

def skipSpace : Reader Unit := do skipSpaceBy ((← rest).length + 1)

end Reader

open Reader

def simpleKey : Reader String := do
  match ← rest with
  | [] => fail .noKey
  | c :: cs =>
    if c == '"' || c == '\'' then taking readKeyString
    else if isBareKeyChar c then
      moveTo (cs.dropWhile isBareKeyChar)
      return String.ofList ((c :: cs).takeWhile isBareKeyChar)
    else fail (.keyStart c)

def keyBy : Nat → Reader (List String)
  | 0 => return []
  | fuel + 1 => do
    let first ← simpleKey
    skipBlanks
    match ← rest with
    | '.' :: later =>
      moveTo later
      skipBlanks
      return first :: (← keyBy fuel)
    | _ => return [first]

def key : Reader (List String) := do keyBy ((← rest).length + 1)

def startsMoment (cs : List Char) : Bool :=
  let digits := (cs.take 5).takeWhile Char.isDigit
  cs.length ≥ 3 && ((digits.length == 2 && cs[2]? == some ':') || (digits.length == 4 && cs[4]? == some '-'))

def keyword (word : String) : Reader Unit := do
  let cs ← rest
  if word.toList.isPrefixOf cs then moveTo (cs.drop word.length)
  else fail (.word word)

mutual
def valueBy : Nat → Reader Raw
  | 0 => fail .noValue
  | fuel + 1 => do
    let cs ← rest
    match cs with
    | [] => fail .noValue
    | '"' :: _ | '\'' :: _ => .string <$> taking readString
    | 't' :: _ =>
      keyword "true"
      return .bool true
    | 'f' :: _ =>
      keyword "false"
      return .bool false
    | '[' :: later =>
      moveTo later
      let items ← itemsBy fuel true
      expect ']'
      return .array items
    | '\x7b' :: later =>
      moveTo later
      let entries ← entriesBy fuel true
      expect '\x7d'
      return .inline entries
    | 'i' :: _ =>
      keyword "inf"
      return .number ⟨"inf".toList, true⟩
    | 'n' :: _ =>
      keyword "nan"
      return .number ⟨"nan".toList, true⟩
    | _ =>
      if startsMoment cs then .moment <$> taking fun cs => .ok (cutMoment cs)
      else .number <$> taking cutNumber

def itemsBy : Nat → Bool → Reader (List Raw)
  | 0, _ => return []
  | fuel + 1, isFirst => do
    if (← rest).isEmpty then return []
    skipSpace
    match ← rest with
    | [] => fail .openArray
    | ']' :: _ => return []
    | ',' :: later =>
      if isFirst then fail .commaFirst
      moveTo later
      skipSpace
      if (← rest).head? == some ']' then return []
      let item ← valueBy fuel
      skipSpace
      return item :: (← itemsBy fuel false)
    | _ =>
      if !isFirst then fail .noComma
      let item ← valueBy fuel
      skipSpace
      return item :: (← itemsBy fuel false)

def entriesBy : Nat → Bool → Reader (List (List String × Raw))
  | 0, _ => return []
  | fuel + 1, isFirst => do
    if (← rest).isEmpty then return []
    skipBlanks
    match ← rest with
    | [] => fail .openInline
    | '\x7d' :: _ => return []
    | _ =>
      if !isFirst then
        expect ','
        skipBlanks
      let pair ← pairBy fuel
      return pair :: (← entriesBy fuel false)

def pairBy : Nat → Reader (List String × Raw)
  | 0 => fail .noKey
  | fuel + 1 => do
    let path ← key
    skipBlanks
    if (← rest).isEmpty then fail .noEquals
    expect '='
    skipBlanks
    return (path, ← valueBy fuel)
end

def item? : Reader (Option Item) := do
  skipBlanks
  let cs ← rest
  let found : Option Item ←
    match cs with
    | [] | '\n' :: _ | '\r' :: _ | '#' :: _ => pure none
    | '[' :: '[' :: later =>
      moveTo later
      skipBlanks
      let path ← key
      skipBlanks
      expect ']'
      expect ']'
      pure (some (.tables path))
    | '[' :: later =>
      moveTo later
      skipBlanks
      let path ← key
      skipBlanks
      expect ']'
      pure (some (.table path))
    | _ =>
      let (path, value) ← pairBy (cs.length + 1)
      pure (some (.pair path value))
  skipBlanks
  if (← rest).head? == some '#' then comment
  return found

inductive Names where
  | mk (use : Use) (isExplicit byKey : Bool) (inner : List (String × Names))

namespace Names

def use : Names → Use
  | mk u _ _ _ => u

def isExplicit : Names → Bool
  | mk _ e _ _ => e

def inner : Names → List (String × Names)
  | mk _ _ _ cs => cs

def root : Names := mk .table false false []

def child? (n : Names) (key : String) : Option Names := n.inner.lookup key

def put (n : Names) (key : String) (c : Names) : Names :=
  match n with
  | mk u e b cs =>
    if (cs.lookup key).isSome then mk u e b (cs.map fun (k, old) => (k, if k == key then c else old))
    else mk u e b (cs ++ [(key, c)])

mutual
/-- Tables that keys made on their way are open no longer once another table starts. -/
def settle : Names → Names
  | mk u e b cs => mk u e b (settleAll cs)

def settleAll : List (String × Names) → List (String × Names)
  | [] => []
  | (k, mk u e b cs) :: rest => (k, mk u (e || b) false (settleAll cs)) :: settleAll rest
end

def adjust (f : Names → Names) : List String → Names → Names
  | [], n => f n
  | k :: ks, n => n.put k (adjust f ks ((n.child? k).getD (mk .table false false [])))

/-- Opens the last name of a path in the table that the others lead to. -/
def openBy (last : String → Names → Except Cause Names) : List String → Names → Except Cause Names
  | [], n => .ok n
  | [k], n => last k n
  | k :: ks, n => do
    let c := (n.child? k).getD (mk .table false false [])
    if c.use == .value then .error (.notTable k c.use)
    else return n.put k (← openBy last ks c)

def openTable : List String → Names → Except Cause Names :=
  openBy fun k n =>
    match n.child? k with
    | none => .ok (n.put k (mk .table true false []))
    | some (mk .table false b cs) => .ok (n.put k (mk .table true b cs))
    | some (mk .table true _ _) => .error (.tableTwice k)
    | some c => .error (.otherUse k c.use)

def openTables : List String → Names → Except Cause Names :=
  openBy fun k n =>
    match n.child? k with
    | none => .ok (n.put k (mk .tables true false []))
    | some (mk .tables e b _) => .ok (n.put k (mk .tables e b []))
    | some c => .error (.notTables k c.use)

def assign : List String → Names → Except Cause Names
  | [], n => .ok n
  | [k], n =>
    match n.child? k with
    | none => .ok (n.put k (mk .value false true []))
    | some _ => .error (.keyTwice k)
  | k :: ks, n => do
    match n.child? k with
    | none => return n.put k (← assign ks (mk .table false true []))
    | some c =>
      if c.use != .table then .error (.notTable k c.use)
      else if c.isExplicit then .error (.redefined k)
      else return n.put k (← assign ks c)

def assignIn (table path : List String) (n : Names) : Except Cause Names := do
  let rec go : List String → Names → Except Cause Names
    | [], n => assign path n
    | k :: ks, n => do return n.put k (← go ks ((n.child? k).getD root))
  go table n

end Names

mutual
def checkRaw : Raw → Except Cause Unit
  | .array items => checkItems items
  | .inline entries => checkEntries Names.root entries
  | _ => .ok ()

def checkItems : List Raw → Except Cause Unit
  | [] => .ok ()
  | r :: rs => do
    checkRaw r
    checkItems rs

def checkEntries (names : Names) : List (List String × Raw) → Except Cause Unit
  | [] => .ok ()
  | (path, r) :: rest => do
    let names ← names.assign path
    checkRaw r
    checkEntries names rest
end

def updateAt (f : Entries → Entries) : List String → Entries → Entries
  | [], es => f es
  | k :: ks, es =>
    let change : Value → Value
      | .table sub => .table (updateAt f ks sub)
      | .array items true =>
        match items.getLast? with
        | some (.table sub) => .array (items.dropLast ++ [.table (updateAt f ks sub)]) true
        | _ => .array (items ++ [.table (updateAt f ks [])]) true
      | other => other
    if (es.lookup k).isSome then es.map fun (key, v) => (key, if key == k then change v else v)
    else es ++ [(k, .table (updateAt f ks []))]

def insertAt (path : List String) (v : Value) (es : Entries) : Entries :=
  updateAt (fun es => es ++ [(path.getLastD "", v)]) path.dropLast es

mutual
def Raw.value : Raw → Except Cause Value
  | .string text => .ok (.string text)
  | .bool b => .ok (.bool b)
  | .number text => text.value
  | .moment text => text.value
  | .array items => do return .array (← Raw.values items) false
  | .inline entries => do return .table (← Raw.entryValues [] entries)

def Raw.values : List Raw → Except Cause (List Value)
  | [] => .ok []
  | r :: rs => do return (← Raw.value r) :: (← Raw.values rs)

def Raw.entryValues (done : Entries) : List (List String × Raw) → Except Cause Entries
  | [] => .ok done
  | (path, r) :: rest => do
    let v ← Raw.value r
    Raw.entryValues (insertAt path v done) rest
end

structure Progress where
  entries : Entries := []
  names : Names := .root
  table : List String := []

def Progress.add (p : Progress) : Item → Except Cause Progress
  | .table path => do
    let names ← Names.openTable path (p.names.adjust Names.settle p.table)
    return { entries := updateAt id path p.entries, names, table := path }
  | .tables path => do
    let names ← Names.openTables path (p.names.adjust Names.settle p.table)
    let grow (es : Entries) : Entries :=
      let k := path.getLastD ""
      match es.lookup k with
      | some (.array items true) =>
        es.map fun (key, v) => (key, if key == k then .array (items ++ [.table []]) true else v)
      | _ => es ++ [(k, .array [.table []] true)]
    return { entries := updateAt grow path.dropLast p.entries, names, table := path }
  | .pair path raw => do
    let names ← p.names.assignIn p.table path
    checkRaw raw
    return { p with entries := insertAt (p.table ++ path) (← raw.value) p.entries, names }

def readBy : Nat → Bool → Progress → List Char → Except Cause Progress
  | 0, _, p, _ => .ok p
  | fuel + 1, isFirst, p, cs =>
    if cs.isEmpty then .ok p
    else do
      let line : Reader (Option Item) := do
        if !isFirst then Reader.newline
        if (← Reader.rest).isEmpty then return none else item?
      match ← line.run cs with
      | (none, cs) => readBy fuel false p cs
      | (some item, cs) => readBy fuel false (← p.add item) cs

def read (text : String) : Except Cause Entries :=
  let cs := text.toList
  (readBy (cs.length + 1) true {} cs).map (·.entries)

end Covenant.Toml
