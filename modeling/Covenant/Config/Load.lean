import Covenant.Config.Basic
import Covenant.Number.Numeral
import Covenant.Toml.Reader

/-!
# Loading settings

Settings come from several files, from the environment and from defaults.  A layer is a table whose keys are in lower
case and hold no dots: a dot in a key nests.  Later layers are laid over earlier ones key by key.  Saving keeps the
last three versions of a file.
-/

namespace Covenant.Config

open Toml (Value)

abbrev Layer := List (String × Value)

mutual
def lowered : Value → Value
  | .table entries => .table (loweredEntries entries)
  | .array items areTables => .array (loweredItems items) areTables
  | v => v

def loweredItems : List Value → List Value
  | [] => []
  | v :: vs => lowered v :: loweredItems vs

def loweredEntries : List (String × Value) → List (String × Value)
  | [] => []
  | (k, v) :: rest => (Text.lower k, lowered v) :: loweredEntries rest
end

namespace Layer

/-- Puts a value under a path.  What stands in the way of a table gives way. -/
def insert (v : Value) : List String → Layer → Layer
  | [], l => l
  | [k], l => put k v l
  | k :: ks, l =>
    match l.lookup k with
    | some (.table sub) => put k (.table (insert v ks sub)) l
    | _ => put k (.table (insert v ks [])) l
where
  put (k : String) (v : Value) (l : Layer) : Layer :=
    if (l.lookup k).isSome then l.map fun (key, old) => (key, if key == k then v else old) else l ++ [(k, v)]

mutual
def leavesOf (path : List String) : Value → List (List String × Value)
  | .table entries => leavesOfEntries path entries
  | v => [(path, v)]

def leavesOfEntries (path : List String) : List (String × Value) → List (List String × Value)
  | [] => []
  | (k, v) :: rest => leavesOf (path ++ [k]) v ++ leavesOfEntries path rest
end

def leaves (l : Layer) : List (List String × Value) := leavesOfEntries [] l

def ofLeaves (values : List (List String × Value)) : Layer := values.foldl (fun l (path, v) => l.insert v path) []

def ofEntries (entries : List (String × Value)) : Layer :=
  ofLeaves ((leaves (loweredEntries entries)).map fun (path, v) => (Text.split '.' (Text.join "." path), v))

mutual
def overValue : Value → Value → Value
  | .table upper, .table lower => .table (overEntries upper lower)
  | _, .table lower => .table lower
  | upper, _ => upper

def overEntries : List (String × Value) → List (String × Value) → List (String × Value)
  | [], lower => lower
  | (k, v) :: rest, lower =>
    match lower.lookup k with
    | some old => overEntries rest (lower.map fun (key, other) => (key, if key == k then overValue v old else other))
    | none => overEntries rest (lower ++ [(k, v)])
end

def onto (upper lower : Layer) : Layer := overEntries upper lower

def find? (l : Layer) : List String → Option Value
  | [] => some (.table l)
  | k :: ks =>
    match l.lookup k with
    | some (.table sub) => find? sub ks
    | some v => if ks.isEmpty then some v else none
    | none => none

def isCutOff (l : Layer) (path : List String) : Bool :=
  (List.range path.length).any fun n =>
    0 < n && match l.find? (path.take n) with
      | some (.table _) | none => false
      | some _ => true

end Layer

open Number (Double)

def sortName : Value → String
  | .string _ => "string"
  | .integer _ => "int64"
  | .float _ => "float64"
  | .bool _ => "bool"
  | .moment .instant => "time.Time"
  | .moment .dateTime => "toml.LocalDateTime"
  | .moment .date => "toml.LocalDate"
  | .moment .time => "toml.LocalTime"
  | .array _ _ => "[]interface \x7b\x7d"
  | .table _ => "map[string]interface \x7b\x7d"

inductive DecodeFault where
  | sort (name wanted : String) (given : Value)
  | numeral (name wanted reader : String) (fault : Number.NumeralFault)
  | section_ (name : String) (given : Value)
  | part (name partSort : String)

def DecodeFault.message : DecodeFault → String
  | sort name wanted given =>
    "'" ++ name ++ "' expected type '" ++ wanted ++ "', got unconvertible type '" ++ sortName given ++ "'"
  | numeral name wanted reader fault =>
    "'" ++ name ++ "' cannot parse value as '" ++ wanted ++ "': strconv." ++ reader ++ ": " ++ fault.text
  | section_ name given =>
    let kind := if given matches .array _ _ then "slice" else sortName given
    "'" ++ name ++ "' expected a map or struct, got " ++ Text.quoted kind
  | part name partSort =>
    "'" ++ name ++ "' cannot assign type " ++ Text.quoted partSort ++ " to map value field of type \"string\""

abbrev Decoded (α : Type) := α × List DecodeFault

def Decoded.fault {α : Type} [Inhabited α] (f : DecodeFault) : Decoded α := (default, [f])

def plainDouble : Double → String
  | .finite negative m q =>
    let (d, e) := Double.digits m q
    (if negative then "-" else "") ++ Double.positional d e
  | v => v.short

def decodeText (name : String) : Value → Decoded String
  | .string s => (s, [])
  | .bool b => (if b then "1" else "0", [])
  | .integer n => (toString n, [])
  | .float v => (plainDouble v, [])
  | v => .fault (.sort name "string" v)

def wholePart (v : Double) : Int :=
  match v.truncate? with
  | some n => if Number.isInt64 n then n else -Number.int64Bound
  | none => -Number.int64Bound

def decodeWhole (name : String) : Value → Decoded Int
  | .integer n => (n, [])
  | .float v => (wholePart v, [])
  | .bool b => (if b then 1 else 0, [])
  | .string s =>
    match if s.isEmpty then .ok 0 else Number.integer64 s.toList with
    | .ok n => (n, [])
    | .error e => .fault (.numeral name "int" "ParseInt" e)
  | v => .fault (.sort name "int" v)

def doubleOfInt (n : Int) : Double := (Double.ofDecimal? ⟨n < 0, n.natAbs, 0⟩).getD .nan

def decodeDouble (name : String) : Value → Decoded Double
  | .float v => (v, [])
  | .integer n => (doubleOfInt n, [])
  | .bool b => (doubleOfInt (if b then 1 else 0), [])
  | .string s =>
    match if s.isEmpty then .ok (doubleOfInt 0) else Number.double s.toList with
    | .ok v => (v, [])
    | .error e => .fault (.numeral name "float64" "ParseFloat" e)
  | v => .fault (.sort name "float64" v)

def indexed (name : String) (n : Nat) : String := name ++ "[" ++ toString n ++ "]"

def decodeItems (name : String) (items : List Value) : Decoded (List String) :=
  let decoded := items.mapIdx fun n v => decodeText (indexed name n) v
  (decoded.map (·.1), decoded.flatMap (·.2))

def decodeTexts (name : String) : Value → Decoded (List String)
  | .string s => (if s.isEmpty then [] else Text.split ',' s, [])
  | .array items _ => decodeItems name items
  | .table [] => ([], [])
  | v => decodeItems name [v]

def decodeEntries (name : String) (entries : List (String × Value)) : Decoded (List (String × String)) :=
  let decoded := (Text.sortedByKey entries).map fun (k, v) => (k, decodeText (name ++ "[" ++ k ++ "]") v)
  (decoded.map fun (k, v, _) => (k, v), decoded.flatMap fun (_, _, faults) => faults)

def mapSort : String := "map[string]string"

def decodeMap (name : String) : Value → Decoded (List (String × String))
  | .table entries => decodeEntries name entries
  | .array items _ =>
    -- The first item that is no table ends the list.
    let rec go (n : Nat) (done : List (String × String)) : List Value → Decoded (List (String × String))
      | [] => (done, [])
      | .table entries :: rest =>
        let (found, faults) := decodeEntries (indexed name n) entries
        let merged := Text.sortedByKey (found ++ done.filter fun (k, _) => (found.lookup k).isNone)
        if faults.isEmpty then go (n + 1) merged rest else (merged, faults)
      | v :: _ => .fault (.sort (indexed name n) mapSort v)
    go 0 [] items
  | .moment .instant => ([], [])
  | .moment .dateTime => .fault (.part name "toml.LocalDate")
  | .moment _ => .fault (.part name "int")
  | v => .fault (.sort name mapSort v)

def decodeSection (name : String) : Value → Decoded Layer
  | .table entries => (entries, [])
  | .moment _ => ([], [])
  | v => .fault (.section_ name v)

def Settings.ofLayer (l : Layer) : Except Failure Settings :=
  let field {α : Type} [Inhabited α] (l : Layer) (path : String) (key : String)
      (decode : String → Value → Decoded α) : Decoded α :=
    match l.lookup key with
    | some v => decode (path ++ key) v
    | none => (default, [])
  let top {α : Type} [Inhabited α] (key : String) (decode : String → Value → Decoded α) := field l "" key decode
  let (ir, f₁) := top "ir" decodeText
  let (programName, f₂) := top "program_name" decodeText
  let (output, f₃) := top "output" decodeSection
  let (outputDir, f₄) := field output "output." "dir" decodeText
  let (languages, f₅) := top "languages" decodeTexts
  let (errorCodesName, f₆) := top "error_codes_name" decodeText
  let (exclude, f₇) := top "exclude" decodeSection
  let (namespaces, f₈) := field exclude "exclude." "namespaces" decodeTexts
  let (excluded, f₉) := field exclude "exclude." "types" decodeTexts
  let (unmangled, g₁) := top "unmangled" decodeTexts
  let (types, g₂) := top "types" decodeMap
  let (dart, g₃) := top "dart" decodeSection
  let (dartPreamble, g₄) := field dart "dart." "preamble" decodeText
  let (dartFormat, g₅) := field dart "dart." "format_command" decodeText
  let (typescript, g₆) := top "typescript" decodeSection
  let (tsPreamble, g₇) := field typescript "typescript." "preamble" decodeText
  let (tsFormat, g₈) := field typescript "typescript." "format_command" decodeText
  let (watch, g₉) := top "watch" decodeSection
  let (debounce, h₁) := field watch "watch." "debounce_ms" decodeWhole
  let (maxPerSecond, h₂) := field watch "watch." "max_per_second" decodeDouble
  let zero : Double := .finite false 0 0
  let faults := f₁ ++ f₂ ++ f₃ ++ f₄ ++ f₅ ++ f₆ ++ f₇ ++ f₈ ++ f₉ ++ g₁ ++ g₂ ++ g₃ ++ g₄ ++ g₅ ++ g₆ ++ g₇ ++ g₈ ++
    g₉ ++ h₁ ++ h₂
  if faults.isEmpty then
    .ok
      { ir, programName, outputDir, languages, errorCodesName, exclude := ⟨namespaces, excluded⟩, unmangled, types
        dart := ⟨dartPreamble, dartFormat⟩, typescript := ⟨tsPreamble, tsFormat⟩, debounce
        maxPerSecond := if (watch.lookup "max_per_second").isSome then maxPerSecond else zero }
  else
    .error ((Failure.badConfig ("decoding failed due to the following error(s):\n\n" ++
      Text.join "\n" (faults.map (·.message)))).within "failed to unmarshal config")

def defaultLayer : Layer :=
  let d := Settings.defaults
  let texts (items : List String) : Value := .array (items.map .string) false
  let none : Value := .string ""
  [("ir", none), ("program_name", none), ("output", .table [("dir", .string d.outputDir)]),
    ("languages", texts d.languages), ("error_codes_name", .string d.errorCodesName),
    ("exclude", .table [("namespaces", texts []), ("types", texts [])]), ("unmangled", texts []),
    ("dart", .table [("preamble", none), ("format_command", none)]),
    ("typescript", .table [("preamble", none), ("format_command", none)]),
    ("watch", .table [("debounce_ms", .integer d.debounce), ("max_per_second", .float d.maxPerSecond)])]

def variableName (path : List String) : String := "CONTRACTGEN_" ++ Text.upper (Text.join "_" path)

variable (h : Host)

/-- The value of a key: that of its variable, else of the files, else the default.  A value for a table above the key
hides all further ones. -/
def effective? (files : Layer) (path : List String) : Option Value :=
  match h.environment? (variableName path) with
  | some text => some (.string text)
  | none =>
    let isHidden := (List.range path.length).any fun n =>
      0 < n && (h.environment? (variableName (path.take n))).isSome
    if isHidden then none
    else match files.find? path with
      | some v => some v
      | none => if files.isCutOff path then none else defaultLayer.find? path

def effective (files : Layer) : Layer :=
  let set := files.leaves.map (·.1)
  let others := (defaultLayer.leaves.map (·.1)).filter fun path => !files.isCutOff path && !set.contains path
  Layer.ofLeaves ((set ++ others).filterMap fun path => (effective? h files path).map (path, ·))

def readLayer (path : String) : Except Failure Layer :=
  let unread (text : String) : Failure := (Failure.badConfig text).within ("failed to read config file " ++ path)
  match h.readFile path with
  | .error fault => .error (unread fault.message)
  | .ok text =>
    match Toml.read text with
    | .error cause => .error (unread ("While parsing config: toml: " ++ cause.message))
    | .ok entries => .ok (.ofEntries entries)

def settle (files : Layer) : Except Failure Settings := do
  let s ← Settings.ofLayer (effective h files)
  s.check.mapError (·.toFailure)
  return s

def loadFile (path : String) : Except Failure Settings := do
  let s ← settle h (Layer.onto (← readLayer h path) [])
  return { s with dir := Path.parent path }

def projectCandidates : List String :=
  (List.range (h.here.length + 1)).map fun n =>
    Path.join ["/" ++ Text.join "/" (h.here.take (h.here.length - n)), fileName]

def projectFile? : Option String := (projectCandidates h).find? h.exists_

def sharedCandidates : List String :=
  "/etc/contractgen/config.toml" :: (h.home?.map fun home => Path.join [home, ".contractgen", "config.toml"]).toList

def standardFiles : List String :=
  (sharedCandidates h ++ (projectFile? h).toList).filter h.exists_

def standardLayer : Except Failure Layer :=
  (standardFiles h).foldlM (fun files path => do return (← readLayer h path).onto files) []

structure Loaded where
  files : Option Layer := none
  settings : Option Settings := none

/-- The settings of the project.  They are read once; files that were read are not read again even if their settings
could not be used. -/
def Loaded.load (loaded : Loaded) (h : Host) : Except Failure Settings × Loaded :=
  match loaded.settings with
  | some s => (.ok s, loaded)
  | none =>
    match loaded.files.map .ok |>.getD (standardLayer h) with
    | .error f => (.error f, loaded)
    | .ok files =>
      let loaded := { loaded with files := some files }
      match settle h files with
      | .error f => (.error f, loaded)
      | .ok s =>
        let s := { s with dir := ((projectFile? h).map Path.parent).getD "" }
        (.ok s, { loaded with settings := some s })

def lint (path : String) : Except Failure Unit :=
  match h.readFile path with
  | .error fault => .error ((Failure.badConfig fault.message).within ("failed to parse " ++ path))
  | .ok text => lintText path text

def backupCount : Nat := 3

def backupPath (path : String) (n : Nat) : String := path ++ ".back" ++ toString n

/-- Moves the earlier versions of a file up by one and keeps its present one. -/
def backUp (path : String) : Work Unit := do
  if ((← get).find path matches .error .notFound) then return
  Work.remove (backupPath path backupCount)
  for i in [2, 1] do
    let old := backupPath path i
    if (← get).exists_ old then
      (Work.rename old (backupPath path (i + 1))).during ("failed to rotate " ++ old)
  let content ← (Work.readFile path).during "failed to read config for backup"
  (Work.writeFile (backupPath path 1) content).during "failed to create .back1"

def save (path : String) (s : Settings) : Work Unit := do
  (Work.makeDirectories (Path.parent path)).during ("failed to create directory for " ++ path)
  (backUp path).during "failed to create backup"
  (Work.writeFile path s.toToml).during ("failed to write " ++ path)

end Covenant.Config
