import Covenant.Compile.Generate
import Covenant.Disk.Host
import Covenant.Toml.Outline

/-!
# Settings

What a project sets, and how settings are written to a file: keys of their own come first, then one table for each
group.  `Settings.check` accepts the settings that can be used.  A file can also be checked strictly: every key has to
be known, in any case, and every value has to be of the sort its key wants.
-/

namespace Covenant.Config

open Number (Double)

def fileName : String := "contractgen.toml"

structure LanguageSettings where
  preamble : String := ""
  formatCommand : String := ""
  deriving DecidableEq

structure Settings where
  ir : String := ""
  programName : String := ""
  outputDir : String := ""
  languages : List String := []
  errorCodesName : String := ""
  exclude : Contract.ExcludeRules := {}
  unmangled : List String := []
  types : List (String × String) := []
  dart : LanguageSettings := {}
  typescript : LanguageSettings := {}
  /-- How long the watch command waits for quiet, in milliseconds. -/
  debounce : Int := 0
  maxPerSecond : Double := .finite false 0 0
  /-- The directory of the file with the settings, empty if there is none. -/
  dir : String := ""
  deriving DecidableEq

inductive SettingsDefect where
  | noOutputDir
  | debounce (given : Int)
  | maxPerSecond (given : Double)
  | emptyType (name category : String)
  deriving DecidableEq

def SettingsDefect.toFailure : SettingsDefect → Failure
  | noOutputDir => .badConfig "output.dir cannot be empty"
  | debounce given => .badConfig ("watch.debounce_ms must be >= 0, got " ++ toString given)
  | maxPerSecond given =>
    (Failure.badConfig ("watch.max_per_second must be > 0, got " ++ given.short)).withHint
      "omit the key to use the default of 2"
  | emptyType name category =>
    .badConfig ("types: empty entry " ++ Text.quoted name ++ " = " ++ Text.quoted category)

def isAtMostZero : Double → Bool
  | .nan => false
  | .infinity negative => negative
  | .finite negative m _ => negative || m = 0

namespace Settings

def defaults : Settings where
  outputDir := "generated"
  languages := ["dart", "typescript"]
  errorCodesName := Compile.defaultErrorCodesName
  debounce := 300
  maxPerSecond := .finite false 2 0

def language (s : Settings) (name : String) : LanguageSettings :=
  match Text.lower name with
  | "dart" => s.dart
  | "typescript" => s.typescript
  | _ => {}

def options (s : Settings) : Compile.Options where
  languages := s.languages
  errorCodesName := s.errorCodesName
  preambles := (["dart", "typescript"].map fun l => (l, (s.language l).preamble)).filter (!·.2.isEmpty)
  exclude := s.exclude
  typeOverrides := s.types
  unmangled := s.unmangled

/-- A path in the settings, seen from the working directory.  Locations elsewhere stay as they are. -/
def resolvePath (s : Settings) (p : String) : String :=
  if p.isEmpty || s.dir.isEmpty || Path.isAbsolute p || Text.contains "::" p || Text.contains "://" p then p
  else Path.join [s.dir, p]

def check (s : Settings) : Except SettingsDefect Unit := do
  if (Text.trim s.outputDir).isEmpty then throw .noOutputDir
  if s.debounce < 0 then throw (.debounce s.debounce)
  if isAtMostZero s.maxPerSecond then throw (.maxPerSecond s.maxPerSecond)
  let isEmptyEntry : String × String → Bool := fun (name, category) =>
    (Text.trim name).isEmpty || (Text.trim category).isEmpty
  if let some (name, category) := s.types.find? isEmptyEntry then throw (.emptyType name category)

end Settings

open Toml (quotedText listText keyPart doubleText)

def entryLine (key value : String) : String := keyPart key ++ " = " ++ value ++ "\n"

def textLine (key text : String) : String := if text.isEmpty then "" else entryLine key (quotedText text)

def listLine (key : String) (items : List String) : String :=
  if items.isEmpty then "" else entryLine key (listText items)

def tableText (name : String) (lines : List String) : String := "\n[" ++ name ++ "]\n" ++ String.join lines

def LanguageSettings.lines (l : LanguageSettings) : List String :=
  [textLine "preamble" l.preamble, textLine "format_command" l.formatCommand]

def Settings.toToml (s : Settings) : String :=
  String.join
    [textLine "ir" s.ir, textLine "program_name" s.programName,
      entryLine "languages" (listText s.languages), entryLine "error_codes_name" (quotedText s.errorCodesName),
      listLine "unmangled" s.unmangled,
      tableText "output" [entryLine "dir" (quotedText s.outputDir)],
      tableText "exclude" [listLine "namespaces" s.exclude.namespaces, listLine "types" s.exclude.types],
      if s.types.isEmpty then ""
      else tableText "types"
        ((Text.sortedByKey s.types).map fun (name, category) => entryLine name (quotedText category)),
      tableText "dart" s.dart.lines, tableText "typescript" s.typescript.lines,
      tableText "watch"
        [entryLine "debounce_ms" (toString s.debounce), entryLine "max_per_second" (doubleText s.maxPerSecond)]]

open Toml (Value)

inductive Slot where
  | text | texts | whole | fraction
  | entries
  /-- A table with known keys, and its name in remarks. -/
  | group (name : String) (slots : List (String × Slot))

def languageSlot : Slot := .group "config.LanguageConfig" [("preamble", .text), ("format_command", .text)]

def Slot.all : List (String × Slot) :=
  [("ir", .text), ("program_name", .text), ("output", .group "config.OutputConfig" [("dir", .text)]),
    ("languages", .texts), ("error_codes_name", .text),
    ("exclude", .group "config.ExcludeConfig" [("namespaces", .texts), ("types", .texts)]),
    ("unmangled", .texts), ("types", .entries), ("dart", languageSlot), ("typescript", languageSlot),
    ("watch", .group "config.WatchConfig" [("debounce_ms", .whole), ("max_per_second", .fraction)])]

def slot? (slots : List (String × Slot)) (key : String) : Option Slot :=
  (slots.lookup key).or ((slots.find? fun (name, _) => Text.equalFold name key).map (·.2))

def shortSortName : Value → String
  | .string _ => "string"
  | .integer _ => "int64"
  | .float _ => "float64"
  | .bool _ => "bool"
  | .moment _ => "time.Time"
  | .array _ true => "[]map[string]any"
  | .array _ false => "[]any"
  | .table _ => "map[string]any"

abbrev Misfit := List String × String

def exactLimit : Int := 9007199254740991

def Slot.refuse (slot : Slot) (path : List String) (v : Value) : Except Misfit (List (List String)) :=
  let misfit (wanted : String) : Except Misfit (List (List String)) :=
    .error (path, "incompatible types: TOML value has type " ++
      shortSortName v ++ "; destination has type " ++ wanted)
  match slot with
  | text => misfit "string"
  | texts => misfit "slice"
  | whole => misfit "integer"
  | fraction => misfit "float"
  | entries => .ok []
  | group name _ => .error (path, "type mismatch for " ++ name ++ ": expected table but found " ++ shortSortName v)

mutual
def Slot.check (slot : Slot) (path : List String) : Value → Except Misfit (List (List String))
  | .string s => match slot with
    | .text => .ok []
    | _ => slot.refuse path (.string s)
  | .array items areTables => match slot with
    | .texts => checkItems path items
    | _ => slot.refuse path (.array items areTables)
  | .table entries => match slot with
    | .group _ slots => checkEntries slots path entries
    | .entries => checkTexts path entries
    | _ => slot.refuse path (.table entries)
  | .integer n => match slot with
    | .whole => .ok []
    | .fraction =>
      if -exactLimit ≤ n && n ≤ exactLimit then .ok []
      else .error (path, toString n ++ " is out of the safe float64 range")
    | _ => slot.refuse path (.integer n)
  | .float v => match slot with
    | .fraction => .ok []
    | _ => slot.refuse path (.float v)
  | .bool b => slot.refuse path (.bool b)
  | .moment m => slot.refuse path (.moment m)

def checkItems (path : List String) : List Value → Except Misfit (List (List String))
  | [] => .ok []
  | v :: vs => do
    let known ← Slot.check .text path v
    return known ++ (← checkItems path vs)

def checkEntries (slots : List (String × Slot)) (path : List String) :
    List (String × Value) → Except Misfit (List (List String))
  | [] => .ok []
  | (k, v) :: rest => do
    let here ← match slot? slots k with
      | some slot => (Slot.check slot (path ++ [k]) v).map ((path ++ [k]) :: ·)
      | none => .ok []
    return here ++ (← checkEntries slots path rest)

def checkTexts (path : List String) : List (String × Value) → Except Misfit (List (List String))
  | [] => .ok []
  | (k, v) :: rest => do
    let here ← Slot.check .text (path ++ [k]) v
    return (path ++ [k]) :: here ++ (← checkTexts path rest)
end

def lintText (path text : String) : Except Failure Unit := do
  let unread (r : Toml.Remark) : Failure := (Failure.badConfig r.message).within ("failed to parse " ++ path)
  let outline ← (Toml.Outline.read text).mapError unread
  let known ← (checkEntries Slot.all [] outline.entries).mapError fun (key, text) =>
    unread ⟨outline.line key, Toml.keyText key, text⟩
  let unknown := outline.keys.filter (!known.contains ·)
  if !unknown.isEmpty then
    throw ((Failure.badConfig (path ++ ": unknown keys: " ++
      Text.join ", " (Text.sorted (unknown.map Toml.keyText)))).withHint
        "run `contractgen init --print` to see every supported key")

end Covenant.Config
