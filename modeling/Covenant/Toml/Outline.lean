import Covenant.Toml.Token

/-!
# Outlines of TOML documents

The second step of the checker of settings: the tokens become tables.  An outline has the values of a document, its
keys in the order in which they were written, and the place of each key.  Names that are used in two ways are remarked
on with the line and the last key.
-/

namespace Covenant.Toml

structure KeyUse where
  path : List String
  isArray : Bool
  line : Nat

structure Outline where
  entries : Entries := []
  keys : List (List String) := []
  uses : List KeyUse := []

namespace Outline

def use? (o : Outline) (path : List String) : Option KeyUse := o.uses.find? (·.path == path)

def line (o : Outline) (path : List String) : Nat := ((o.use? path).map (·.line)).getD 0

end Outline

structure Remark where
  line : Nat
  lastKey : String
  text : String

def Remark.message (r : Remark) : String :=
  "toml: line " ++ toString r.line ++
    (if r.lastKey.isEmpty then "" else " (last key " ++ Text.quoted r.lastKey ++ ")") ++ ": " ++ r.text

structure Draft where
  tokens : List (Token × Nat)
  stop : Option (Misspelling × Nat)
  outline : Outline := {}
  context : List String := []
  key : String := ""
  line : Nat := 0
  passing : List (List String) := []

abbrev Draw := StateT Draft (Except Remark)

namespace Draw

def lastKey (d : Draft) : String :=
  if d.key.isEmpty then keyText d.context
  else if d.context.isEmpty then d.key
  else keyText d.context ++ "." ++ d.key

def remark {α : Type} (line : Nat) (text : String) : Draw α := do throw ⟨line, lastKey (← get), text⟩

def refuse {α : Type} (text : String) : Draw α := do remark (← get).line text

def next : Draw (Option (Token × Nat)) := do
  let d ← get
  match d.tokens with
  | t :: rest =>
    set { d with tokens := rest }
    return some t
  | [] =>
    match d.stop with
    | some (m, line) => remark line m.message
    | none => return none

variable (line : Nat) (path : List String) (cs : List Char)

def isPassing : Draw Bool := do return (← get).passing.contains path

def addPassing : Draw Unit :=
  modify fun d => if d.passing.contains path then d else { d with passing := path :: d.passing }

def removePassing : Draw Unit :=
  modify fun d => { d with passing := d.passing.filter (· != path) }

/-- Notes how a key below the open table is used.  Without a key, the open table is meant. -/
def note (key : String) (isArray : Bool) (line : Nat) : Draw Unit :=
  modify fun d =>
    let path := d.context ++ if key.isEmpty then [] else [key]
    let path := if path.isEmpty then [""] else path
    { d with outline := { d.outline with uses := ⟨path, isArray, line⟩ :: d.outline.uses } }

def setEntry (key : String) (v : Value) (es : Entries) : Entries :=
  if (es.lookup key).isSome then es.map fun (k, old) => (k, if k == key then v else old) else es ++ [(key, v)]

/-- The entries of the table at the end of a path, or the part of the path that is no table.  Of a list of tables, the
last one is meant. -/
def entriesAt (seen : List String) : List String → Entries → Except (List String) Entries
  | [], es => .ok es
  | k :: ks, es =>
    match es.lookup k with
    | some (.table sub) => entriesAt (seen ++ [k]) ks sub
    | some (.array items true) =>
      match items.getLast? with
      | some (.table sub) => entriesAt (seen ++ [k]) ks sub
      | _ => .error (seen ++ [k])
    | none => entriesAt (seen ++ [k]) ks []
    | some _ => .error (seen ++ [k])

def changeAt (f : Entries → Entries) : List String → Entries → Entries
  | [], es => f es
  | k :: ks, es =>
    match es.lookup k with
    | some (.table sub) => setEntry k (.table (changeAt f ks sub)) es
    | some (.array items true) =>
      match items.getLast? with
      | some (.table sub) => setEntry k (.array (items.dropLast ++ [.table (changeAt f ks sub)]) true) es
      | _ => es
    | none => setEntry k (.table (changeAt f ks [])) es
    | some _ => es

def change (f : Entries → Entries) : Draw Unit :=
  modify fun d => { d with outline := { d.outline with entries := changeAt f path d.outline.entries } }

/-- Gives a key below the open table a value.  A table that was only passed may be named once. -/
def assign (key : String) (v : Value) : Draw Unit := do
  let d ← get
  let path := d.context ++ [key]
  match entriesAt [] d.context d.outline.entries with
  | .error part => refuse ("Key '" ++ keyText part ++ "' has already been defined.")
  | .ok es =>
    if (es.lookup key).isSome then
      let passing ← isPassing path
      if !passing then refuse ("Key '" ++ keyText path ++ "' has already been defined.")
      removePassing path
      if ((d.outline.use? path).map (·.isArray)).getD false then change d.context (setEntry key v)
    else change d.context (setEntry key v)

def enter (seen : List String) : List String → Draw Unit
  | [] => modify fun d => { d with context := seen }
  | k :: ks => do
    let path := seen ++ [k]
    let d ← get
    match entriesAt [] seen d.outline.entries with
    | .ok es =>
      if (es.lookup k).isNone then
        addPassing path
        change seen (setEntry k (.table []))
    | .error _ => pure ()
    match entriesAt [] path (← get).outline.entries with
    | .ok _ => enter path ks
    | .error _ => refuse ("Key '" ++ keyText path ++ "' was already created as a hash.")

def openTable (many : Bool) : Draw Unit := do
  enter [] path.dropLast
  let k := path.getLastD ""
  let d ← get
  if many then
    match ((entriesAt [] d.context d.outline.entries).toOption.getD []).lookup k with
    | none => change d.context (setEntry k (.array [.table []] true))
    | some (.array items true) => change d.context (setEntry k (.array (items ++ [.table []]) true))
    | some _ => refuse ("Key '" ++ keyText path ++ "' was already created and cannot be used as an array.")
  else assign k (.table [])
  modify fun d => { d with context := d.context ++ [k] }

def pass (name : String) : Draw Unit := do
  let path := (← get).context ++ [name]
  addPassing path
  openTable path false

def pointOf (digits : List Char) : Draw Char := do
  let n := (Text.digitsValue? 16 digits).getD 0
  if Text.isScalarValue n then return Char.ofNat n
  else remark line ("Escaped character '\\u" ++ String.ofList digits ++ "' is not valid UTF-8.")

def unescapeBy (line : Nat) : Nat → List Char → Draw (List Char)
  | 0, _ | _, [] => return []
  | fuel + 1, '\\' :: c :: cs => do
    let point (count : Nat) : Draw (List Char) := do
      return (← pointOf line (cs.take count)) :: (← unescapeBy line fuel (cs.drop count))
    if c == ' ' || c == '\t' then remark line ("invalid escape: '\\" ++ String.singleton c ++ "'")
    else if c == 'x' then point 2
    else if c == 'u' then point 4
    else if c == 'U' then point 8
    else return (simpleEscape? c).getD c :: (← unescapeBy line fuel cs)
  | fuel + 1, c :: cs => do return c :: (← unescapeBy line fuel cs)

def joinLinesBy : Nat → List Char → List Char
  | 0, _ | _, [] => []
  | fuel + 1, '\\' :: '\\' :: cs => '\\' :: '\\' :: joinLinesBy fuel cs
  | fuel + 1, '\\' :: cs =>
    let isSpace (c : Char) : Bool := c == ' ' || c == '\t' || c == '\r' || c == '\n'
    if (cs.takeWhile isSpace).contains '\n' then joinLinesBy fuel (cs.dropWhile isSpace)
    else '\\' :: joinLinesBy fuel cs
  | fuel + 1, c :: cs => c :: joinLinesBy fuel cs

def textOf (form : TextForm) (chars : List Char) : Draw String :=
  match form with
  | .plain => return String.ofList chars
  | .longLiteral => return String.ofList (withoutFirstBreak chars)
  | .escaped => do return String.ofList (← unescapeBy line chars.length chars)
  | .long => do
    let joined := joinLinesBy chars.length (withoutFirstBreak chars)
    return String.ofList (← unescapeBy line joined.length joined)

def underscoresFit : Bool :=
  if ["nan", "+nan", "-nan", "inf", "-inf", "+inf"].contains (String.ofList cs) then true
  else
    let isDigit (c : Char) : Bool := (Text.hexValue? c).isSome
    let rec go : Bool → List Char → Bool
      | after, [] => after
      | after, c :: rest => (c != '_' || after) && go (isDigit c) rest
    go false cs

def hasLeadingZero : List Char → Bool
  | '0' :: c :: _ => !(c == 'b' || c == 'o' || c == 'x')
  | c :: '0' :: _ :: _ => isSign c
  | _ => false

def pointsFit : List Char → Bool
  | [] => true
  | '.' :: rest => rest.head?.any Char.isDigit && pointsFit rest
  | _ :: rest => pointsFit rest

def integerOf : Draw Value := do
  let text := String.ofList cs
  if !underscoresFit cs then
    remark line ("Invalid integer " ++ Text.quoted text ++ ": underscores must be surrounded by digits")
  if hasLeadingZero cs then remark line ("Invalid integer " ++ Text.quoted text ++ ": cannot have leading zeroes")
  match wholeNumber cs with
  | .ok v => return .integer v
  | .error _ => remark line (text ++ " is out of range for int64")

def floatParts : List (List Char) :=
  let rec go (part : List Char) : List Char → List (List Char)
    | [] => [part.reverse]
    | c :: rest => if isExponentMark c then part.reverse :: go [] rest else go (c :: part) rest
  (go [] cs).filter (!·.isEmpty)

def floatOf : Draw Value := do
  let text := String.ofList cs
  let parts := floatParts cs
  if !parts.all underscoresFit then
    remark line ("Invalid float " ++ Text.quoted text ++ ": underscores must be surrounded by digits")
  if parts.head?.any hasLeadingZero then
    remark line ("Invalid float " ++ Text.quoted text ++ ": cannot have leading zeroes")
  if !pointsFit cs then
    remark line ("Invalid float " ++ Text.quoted text ++ ": '.' must be followed by one or more digits")
  match doubleOf (cs.filter (· != '_')) with
  | .ok v => return .float v
  | .error (.fraction _ true) => remark line (text ++ " is out of range for float64")
  | .error _ => remark line ("Invalid float value: " ++ Text.quoted text)

def twoDigits? : List Char → Option (Nat × List Char)
  | a :: b :: rest => if a.isDigit && b.isDigit then some (Number.digitsValue [a, b], rest) else none
  | _ => none

def upTo (limit : Nat) (n : Nat × List Char) : Option (List Char) := if n.1 ≤ limit then some n.2 else none

def mark? (c : Char) : List Char → Option (List Char)
  | d :: rest => if d == c then some rest else none
  | [] => none

def afterDate? : Option (List Char) := do
  let (century, rest) ← twoDigits? cs
  let (years, rest) ← twoDigits? rest
  let (month, rest) ← twoDigits? (← mark? '-' rest)
  let (day, rest) ← twoDigits? (← mark? '-' rest)
  if 1 ≤ month && month ≤ 12 && 1 ≤ day && day ≤ daysIn (century * 100 + years) month then some rest else none

def afterTime? : Option (List Char) := do
  let rest ← upTo 23 (← twoDigits? cs)
  let rest ← upTo 59 (← twoDigits? (← mark? ':' rest))
  match rest with
  | ':' :: rest =>
    let rest ← upTo 59 (← twoDigits? rest)
    match rest with
    | '.' :: c :: more => return if c.isDigit then more.dropWhile Char.isDigit else rest
    | _ => return rest
  | _ => return rest

def afterZone? : List Char → Option (List Char)
  | 'Z' :: rest => some rest
  | c :: rest => do
    if !isSign c then none
    let rest ← upTo 24 (← twoDigits? rest)
    upTo 60 (← twoDigits? (← mark? ':' rest))
  | [] => none

def momentSort? : Option Moment :=
  match afterDate? cs with
  | some [] => some .date
  | some ('T' :: rest) =>
    match afterTime? rest with
    | some [] => some .dateTime
    | some rest => if afterZone? rest == some [] then some .instant else none
    | none => none
  | some _ => none
  | none => if afterTime? cs == some [] then some .time else none

def momentOf : Draw Value := do
  let plain := cs.map fun c => if c == 'z' then 'Z' else if c == 't' || c == ' ' then 'T' else c
  match momentSort? plain with
  | some sort => return .moment sort
  | none => remark line ("invalid datetime: " ++ Text.quoted (String.ofList plain))

def namesBy (closing : Token) : Nat → Draw (List String)
  | 0 => return []
  | fuel + 1 => do
    match ← next with
    | none => return []
    | some (t, line) =>
      modify fun d => { d with line }
      if t == closing then return []
      let part ← match t with
        | .text form chars => textOf line form chars
        | .name text => pure text
        | _ => pure ""
      return part :: (← namesBy closing fuel)

def names (closing : Token) : Draw (List String) := do namesBy closing ((← get).tokens.length + 1)

def setInline (path : List String) (last : String) (v : Value) (es : Entries) : Option Entries :=
  match path with
  | [] => some (setEntry last v es)
  | k :: ks =>
    match es.lookup k with
    | none => (setInline ks last v []).map fun sub => setEntry k (.table sub) es
    | some (.table sub) => (setInline ks last v sub).map fun sub => setEntry k (.table sub) es
    | some _ => none

/-- The parts of a key up to its equals sign.  The last one is now the key; the others are passed through. -/
def keyParts : Draw (List String) := do
  let parts ← names .keyClose
  modify fun d => { d with key := parts.getLastD "" }
  parts.dropLast.forM pass
  modify fun d => { d with outline := { d.outline with keys := d.outline.keys ++ [d.context ++ [d.key]] } }
  return parts.dropLast

mutual
def valueBy (inArray : Bool) : Nat → Token × Nat → Draw Value
  | 0, _ => return .bool false
  | fuel + 1, (t, line) => do
    match t with
    | .text form chars => return .string (← textOf line form chars)
    | .bool b => return .bool b
    | .integer cs => integerOf line cs
    | .float cs => floatOf line cs
    | .moment cs => momentOf line cs
    | .arrayOpen =>
      note (← get).key true line
      return .array (← itemsBy fuel) false
    | .inlineOpen =>
      let d ← get
      let context := d.context ++ [d.key]
      set { d with context, key := "" }
      addPassing context
      openTable context inArray
      let es ← entriesBy fuel context []
      modify fun now => { now with context := d.context, key := d.key }
      return .table es
    | _ => return .bool false

def itemsBy : Nat → Draw (List Value)
  | 0 => return []
  | fuel + 1 => do
    match ← next with
    | none | some (.arrayClose, _) => return []
    | some t =>
      let v ← valueBy true fuel t
      return v :: (← itemsBy fuel)

def entriesBy : Nat → List String → Entries → Draw Entries
  | 0, _, es => return es
  | fuel + 1, context, es => do
    match ← next with
    | none | some (.inlineClose, _) => return es
    | some (_, line) =>
      let above ← keyParts
      match ← next with
      | none => return es
      | some t =>
        let v ← valueBy false fuel t
        let key := (← get).key
        assign key v
        note key (v matches .array _ _) line
        let es ← match setInline above key v es with
          | some es => pure es
          | none => refuse (Text.quoted (keyText (← get).context) ++ " is not a table")
        modify fun d => { d with context }
        entriesBy fuel context es
end

def item : Token × Nat → Draw Unit
  | (.tableOpen, line) => do
    let path ← names .tableClose
    openTable path false
    note "" false line
    modify fun d => { d with outline := { d.outline with keys := d.outline.keys ++ [path] } }
  | (.tablesOpen, line) => do
    let path ← names .tablesClose
    openTable path true
    note "" false line
    modify fun d => { d with outline := { d.outline with keys := d.outline.keys ++ [path] } }
  | (.keyOpen, _) => do
    let context := (← get).context
    let _ ← keyParts
    if let some t ← next then
      let v ← valueBy false (2 * (← get).tokens.length + 2) t
      let key := (← get).key
      assign key v
      note key (v matches .array _ _) t.2
    modify fun d => { d with context, key := "" }
  | _ => return ()

def itemsTo : Nat → Draw Unit
  | 0 => return ()
  | fuel + 1 => do
    match ← next with
    | none => return ()
    | some t =>
      item t
      itemsTo fuel

end Draw

/-- Draws the outline of a document.  A byte order mark at its start does not count, and a zero right after it speaks
for another encoding. -/
def Outline.read (text : String) : Except Remark Outline :=
  let cs := match text.toList with
    | '\ufeff' :: cs => cs
    | cs => cs
  if ((String.ofList (cs.take 6)).toUTF8.toList.take 6).contains 0 then
    .error ⟨1, "", "files cannot contain NULL bytes; probably using UTF-16; TOML files must be UTF-8"⟩
  else
    let (tokens, stop) := tokens cs
    ((Draw.itemsTo (tokens.length + 1)).run { tokens, stop }).map (·.2.outline)

end Covenant.Toml
