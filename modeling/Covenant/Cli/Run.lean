import Covenant.Cli.Command
import Covenant.Config.Load
import Covenant.Contract.DocumentText
import Covenant.Location.Source
import Covenant.Log.Console
import Covenant.Output.Write
import Covenant.Watch.Machine

/-!
# Running commands

A project is a set of settings with what the command line says in their place.  It is compiled, and what comes out is
written and formatted, compared or watched.
-/

namespace Covenant.Cli

def columnWidths (rows : List (List String)) : List Nat :=
  let columns := (rows.map List.length).foldl max 0
  (List.range columns).map fun i => (rows.map fun row => Text.width (row.getD i "")).foldl max 0

def tableText (rows : List (List String)) : String :=
  let widths := columnWidths rows
  let cell (text : String) (width : Nat) : String := text ++ Text.repeated (width - Text.width text) " "
  String.join (rows.map fun row => Text.join " | " (List.zipWith cell row widths) ++ "\n") ++ "\n"

/-- A character of a text between quotes.  Characters that other documents give a meaning are written as numbers. -/
def jsonChar (c : Char) : String :=
  if c == '"' then "\\\""
  else if c == '\\' then "\\\\"
  else if c == '\n' then "\\n"
  else if c == '\r' then "\\r"
  else if c == '\t' then "\\t"
  else if c == '\x08' then "\\b"
  else if c == '\x0c' then "\\f"
  else if c.toNat < 0x20 || c == '<' || c == '>' || c == '&' || c.toNat == 0x2028 || c.toNat == 0x2029 then
    "\\u" ++ String.ofList (Text.hexDigits 4 c.toNat)
  else String.singleton c

def jsonText (s : String) : String := "\"" ++ String.join (s.toList.map jsonChar) ++ "\""

def jsonBlock (start stop : String) (depth : Nat) (items : List String) : String :=
  if items.isEmpty then start ++ stop
  else start ++ "\n" ++ Text.join ",\n" (items.map (Text.repeated (depth + 1) "  " ++ ·)) ++ "\n" ++
    Text.repeated depth "  " ++ stop

def jsonObject (depth : Nat) (fields : List (String × String)) : String :=
  jsonBlock "\x7b" "\x7d" depth (fields.map fun (name, value) => jsonText name ++ ": " ++ value)

def jsonList (depth : Nat) (items : List String) : String := jsonBlock "[" "]" depth items

open Compile (Output)
open Config (Settings)
open Contract (Program)
open Covenant.Output (Comparison)

structure BuildFlags where
  ir : String := ""
  output : String := ""
  languages : List String := []

structure Project where
  settings : Settings
  configFile : Option String
  ir : String
  outDir : String

def loadProgram (h : Host) (path : String) : Except Failure Program :=
  match h.readFile path with
  | .error fault => .error (fault.toFailure.within ("failed to read IR document " ++ path))
  | .ok text => (Program.ofText text).mapError (·.within ("failed to load " ++ path))

def loadSettings (h : Host) (configPath : String) : Except Failure (Settings × Option String) := do
  let file := if configPath.isEmpty then Config.projectFile? h else some configPath
  let settings ← if configPath.isEmpty then (Config.Loaded.load {} h).1 else Config.loadFile h configPath
  if let some path := file then Config.lint h path
  return (settings, file)

namespace Project

def load (h : Host) (configPath : String) (flags : BuildFlags) : Except Failure Project := do
  let (s, configFile) ← loadSettings h configPath
  let given (flag other : String) : String := if flag.isEmpty then other else flag
  return {
    settings := if flags.languages.isEmpty then s else { s with languages := flags.languages }
    configFile
    ir := given flags.ir (s.resolvePath s.ir)
    outDir := given flags.output (s.resolvePath s.outputDir) }

def program (p : Project) (h : Host) : Except Failure Program := do
  let found ← Location.resolve h p.ir
  let program ← loadProgram h found.path
  return if p.settings.programName.isEmpty then program else { program with name := p.settings.programName }

def compile (p : Project) (h : Host) : Except Failure Output := do
  Compile.generate (← p.program h) p.settings.options

def write (p : Project) (dir : String) (out : Output) : Work (List String) := do
  let written ← Output.writeFiles dir out.files
  out.emitted.forM fun e => do
    let command := (p.settings.language e.language.name).formatCommand
    let paths := e.files.map fun f => Path.join [dir, f.name]
    (Output.formatFiles command paths).during ("failed to format " ++ e.language.name ++ " output")
  return written

def compare (p : Project) (out : Output) : Work Comparison :=
  Work.inTemporaryDirectory "contractgen-check-" fun dir => do
    let _ ← p.write dir out
    Output.compareDirectories (← get) dir p.outDir

end Project

open Contract (Route)
open Log (Category)

structure Console where
  host : Host
  build : BuildInfo := {}
  output : String := ""

abbrev Session := ExceptT Failure (StateM Console)

namespace Session

def print (text : String) : Session Unit := modify fun c => { c with output := c.output ++ text }

def success (text : String) : Session Unit := print ("SUCCESS: " ++ text ++ "\n")
def error (text : String) : Session Unit := print ("ERROR: " ++ text ++ "\n")
def warning (text : String) : Session Unit := print ("WARNING: " ++ text ++ "\n")
def info (text : String) : Session Unit := print ("INFO: " ++ text ++ "\n")

def work {α : Type} (w : Work α) : Session α := fun c =>
  let (result, host) := w c.host
  (result, { c with host })

def ask {α : Type} (f : Host → Except Failure α) : Session α := do f (← get).host

end Session

open Session

namespace Invocation

def buildFlags (i : Invocation) : BuildFlags :=
  { ir := i.given.text "ir", output := i.given.text "output", languages := i.given.texts "lang" }

def project (i : Invocation) : Session Project :=
  ask fun h => Project.load h (i.given.text "config") i.buildFlags

def shows (i : Invocation) (c : Category) : Bool := c.isShown (i.given.count "verbose")

end Invocation

def filesTable (out : Output) (dir : String) : String :=
  tableText (["Language", "File", "Bytes"] :: out.files.map fun f =>
    [f.language, Path.join [dir, f.name], toString (Text.byteLength f.content)])

def namesTable (out : Output) : String :=
  tableText (["Language", "Declaration", "Emitted"] :: out.emitted.flatMap fun e =>
    e.table.entries.map fun entry => [e.language.name, entry.qualified, entry.name])

def summary (out : Output) : String :=
  Text.join ", " (out.emitted.map fun e =>
    e.language.name ++ ": " ++ toString e.table.entries.length ++ " declarations")

variable (i : Invocation)

def generate : Session Unit := do
  let p ← i.project
  let out ← ask p.compile
  if i.given.switch "dry-run" then
    warning "DRY RUN MODE: no files will be written"
    print (filesTable out p.outDir)
  else
    let written ← work (p.write p.outDir out)
    if i.shows .files then print (filesTable out p.outDir)
    if i.shows .declarations then print (namesTable out)
    success ("Generated " ++ toString written.length ++ " files in " ++ p.outDir ++ " (" ++ summary out ++ ")")

def outOfDate : Failure :=
  (Failure.plain "generated files are out of date").withHint "run \x60contractgen generate\x60 to update them"

def check : Session Unit := do
  let p ← i.project
  let out ← ask p.compile
  let found ← work (p.compare out)
  if found.isUpToDate then success "Generated files are up to date"
  else
    error "Generated files are out of date"
    print (String.join ((found.differences.flatMap (·.2)).map fun f => "  changed: " ++ f ++ "\n"))
    print (String.join (found.missing.map fun f => "  missing: " ++ f ++ "\n"))
    throw outOfDate

def routesDocument (routes : List Route) : String :=
  jsonList 0 (routes.map fun r => jsonObject 1 (
    [("kind", jsonText r.kind.name), ("path", jsonText r.path), ("target", jsonText r.target)] ++
      if r.isAlias then [("alias", "true")] else [])) ++ "\n"

def routesTable (routes : List Route) : String :=
  tableText (["Kind", "Path", "Target"] :: routes.map fun r => [r.kind.name, r.path, r.target])

def routes (i : Invocation) : Session Unit := do
  let p ← i.project
  let program ← ask p.program
  let found := (program.exclude p.settings.options.exclude).1.routes
  if i.given.switch "json" then print (routesDocument found)
  else if found.isEmpty then info "No routes"
  else print (routesTable found)

def versionDocument (b : BuildInfo) : String :=
  jsonObject 0 [("commit_hash", jsonText b.commit), ("build_time", jsonText b.builtAt),
    ("version", jsonText b.version), ("go_version", jsonText b.compiler), ("platform", jsonText b.platform),
    ("ir_schema", jsonText Contract.supportedSchema)] ++ "\n"

def version : Session Unit := do
  let b := (← get).build
  print (if i.given.switch "json" then versionDocument b else b.report)

def init : Session Unit := do
  if i.given.switch "print" then print (Config.Settings.toToml .defaults)
  else
    let path := i.arguments.headD Config.fileName
    if (← get).host.exists_ path && !i.given.switch "force" then
      throw ((Failure.badConfig (path ++ " already exists")).withHint "use --force to overwrite it")
    work (Config.save path .defaults)
    success ("Wrote " ++ path)

/-- Packages are loaded by a toolchain, and a host has none. -/
def extract : Session Unit :=
  throw ((Failure.plain "no toolchain on this host").within
    ("failed to load packages " ++ Text.join " " i.arguments))

/-- Runs a command line up to its end.  A command that watches goes on afterwards, and what it does then is told by
its own machine. -/
def run (arguments : List String) : Session Unit := do
  let i ← ask fun _ => (Invocation.read arguments).mapError UsageFault.toFailure
  if i.isHelp then return
  match i.command with
  | some .generate => generate i
  | some .check => check i
  | some .routes => routes i
  | some .version => version i
  | some .init => init i
  | some .extract => extract i
  | some .watch | some .help | some .completion | none => return

namespace Invocation

variable (i : Invocation) (h : Host)

def settingsPaths : List String :=
  match i.given.text "config" with
  | "" => Config.sharedCandidates h ++ Config.projectCandidates h
  | path => [path]

def projectPaths : List String :=
  match Project.load h (i.given.text "config") i.buildFlags with
  | .error _ => []
  | .ok p =>
    let document := match h.home? with
      | some home => if Text.hasPrefix "~/" p.ir then Path.join [home, Text.trimStart "~/" p.ir] else p.ir
      | none => p.ir
    let outputs := match p.compile h with
      | .ok out => p.outDir :: out.files.map fun f => Path.join [p.outDir, f.name]
      | .error _ => []
    document :: outputs

def paths : List String :=
  match i.command with
  | some .generate | some .check | some .watch | some .routes =>
    Work.temporaryRoot h :: i.settingsPaths h ++ i.projectPaths h
  | some .init =>
    let path := i.arguments.headD Config.fileName
    path :: (List.range Config.backupCount).map fun n => Config.backupPath path (n + 1)
  | _ => []

def variableNames : List String :=
  let files := (i.settingsPaths h).filterMap fun path => (Config.readLayer h path).toOption
  let keys := (Config.defaultLayer :: files).flatMap fun layer => layer.leaves.map (·.1)
  let keysAndTables := keys.flatMap fun key => (List.range key.length).map fun n => key.take (n + 1)
  ["HOME", "TMPDIR"] ++ (keysAndTables.map Config.variableName).eraseDups

end Invocation

open Watch (Change Files Machine)

structure Watching where
  invocation : Invocation
  files : Files
  machine : Machine := {}

namespace Watching

def start (arguments : List String) : Session Watching := do
  let invocation ← ask fun _ => (Invocation.read arguments).mapError UsageFault.toFailure
  let p ← invocation.project
  let found ← ask fun h => Location.resolve h p.ir
  let paths := found.path :: p.configFile.toList
  let files ← ask fun h => Files.watch h paths
  info ("Watching " ++ toString paths.length ++ " files (Ctrl+C to stop)")
  return { invocation, files }

def build (i : Invocation) : Session Unit := do
  let p ← i.project
  let out ← ask p.compile
  let written ← work (p.write p.outDir out)
  success ("Generated " ++ toString written.length ++ " files in " ++ p.outDir)

def rebuild (i : Invocation) : Session Unit :=
  tryCatch (build i) fun failure => error ("Generation failed: " ++ failure.display)

def settleBy (i : Invocation) : Nat → Machine → Session Machine
  | 0, m => return m
  | fuel + 1, m => do
    match m.next? with
    | none => return m
    | some s =>
      if s = .finish then rebuild i
      settleBy i fuel ((m.step s).getD m)

def settle (w : Watching) : Session Watching := do
  return { w with machine := ← settleBy w.invocation w.machine.workLeft w.machine }

def change (w : Watching) (c : Change) : Session Watching := do
  let h := (← get).host
  let (files, disk, paths) := w.files.observe h.disk c
  modify fun console => { console with host := { h with disk } }
  return { w with files, machine := { w.machine with watcher := w.machine.watcher.changed paths } }

end Watching

end Covenant.Cli
