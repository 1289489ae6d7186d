import Covenant.Emit.Codec
import Covenant.Tool.Run

/-!
# Output files

Files are written all or none.  Each one goes to a temporary file beside its destination first.  Once all are there,
they take the places of their destinations, whose old files are kept aside until the last one is in place; if one
cannot be moved, those before it are moved back.
-/

namespace Covenant.Output

open Emit (OutputFile)

/-- A destination that has its new file, and where its old one is kept. -/
structure Replacement where
  dest : String
  backup : Option String
  deriving DecidableEq

variable (h : Host) (dir : String)

def destination (f : OutputFile) : String := Path.join [dir, f.name]

/-- What the name of a temporary file gets when it keeps the old file of its destination. -/
def backupEnd : String := ".bak"

def orElseRemove {α : Type} (paths : List String) (t : Work α) : Work α :=
  tryCatch t fun failure => do
    paths.forM Work.remove
    throw failure

def fill (temp : String) (f : OutputFile) : Work Unit := do
  (Work.change "write" [temp] fun h => h.disk.writeFile h.here temp f.content).during ("failed to write " ++ f.name)
  (Work.change "close" [temp] fun h => .ok h.disk).during ("failed to write " ++ f.name)
  (Work.change "chmod" [temp] fun h => (h.find temp).map fun _ => h.disk).during
    ("failed to set permissions on " ++ f.name)

/-- Writes files to temporary ones, whose paths it adds to those before them. -/
def stage (dir : String) (temps : List String) : List OutputFile → Work (List String)
  | [] => return temps
  | f :: rest => do
    let dest := destination dir f
    let parent := Path.parent dest
    orElseRemove temps ((Work.makeDirectories parent).during ("failed to create directory for " ++ f.name))
    let temp ← orElseRemove temps
      ((Work.createTemporary parent ("." ++ Path.base dest ++ ".") ".tmp").during
        ("failed to create temp file for " ++ f.name))
    orElseRemove (temps ++ [temp]) (fill temp f)
    stage dir (temps ++ [temp]) rest

def Replacement.undo (r : Replacement) : Work Unit :=
  match r.backup with
  | none => Work.remove r.dest
  | some old => Work.attempt fun h => h.disk.rename h.here old r.dest

/-- Takes all replacements back, the latest first, and removes the temporary files. -/
def rollBack (temps : List String) (done : List Replacement) : Work Unit := do
  done.forM Replacement.undo
  temps.forM Work.remove

/-- Moves a temporary file to its destination, and what is there aside. -/
def replace (f : OutputFile) (temp : String) : Work Replacement := do
  let dest := destination dir f
  if (← get).exists_ dest then
    let old := temp ++ backupEnd
    (Work.rename dest old).during ("failed to move " ++ f.name ++ " aside")
    tryCatch ((Work.rename temp dest).during ("failed to move " ++ f.name ++ " into place")) fun failure => do
      Work.attempt fun h => h.disk.rename h.here old dest
      throw failure
    return ⟨dest, some old⟩
  else
    (Work.rename temp dest).during ("failed to move " ++ f.name ++ " into place")
    return ⟨dest, none⟩

/-- Moves all temporary files to their destinations; `done` holds the replacements before, the latest first. -/
def commit (dir : String) (temps : List String) (done : List Replacement) :
    List (OutputFile × String) → Work (List Replacement)
  | [] => return done
  | (f, temp) :: rest => do
    let r ← tryCatch (replace dir f temp) fun failure => do
      rollBack temps done
      throw failure
    commit dir temps (r :: done) rest

def writeFiles (files : List OutputFile) : Work (List String) := do
  (Work.makeDirectories dir).during ("failed to create output directory " ++ dir)
  let temps ← stage dir [] files
  let done ← commit dir temps [] (files.zip temps)
  (done.reverse.filterMap (·.backup)).forM Work.remove
  return files.map (destination dir)

structure Comparison where
  differences : List (String × List String)
  missing : List String
  deriving DecidableEq

def Comparison.isUpToDate (c : Comparison) : Bool := c.differences.isEmpty && c.missing.isEmpty

inductive Standing where
  | same | differs | missing
  deriving DecidableEq

def standing (f : OutputFile) : Except Failure Standing :=
  match h.readFile (Path.join [dir, f.name]) with
  | .ok content => .ok (if content == f.content then .same else .differs)
  | .error fault =>
    if fault.errno == .notFound then .ok .missing else .error (fault.toFailure.within ("failed to read " ++ f.name))

def compareFiles (files : List OutputFile) : Except Failure Comparison := do
  let standings ← files.mapM fun f => do return (f, ← standing h dir f)
  let these (s : Standing) : List OutputFile := (standings.filter (·.2 == s)).map (·.1)
  let languages := Text.sortedSet ((these .differs).map (·.language))
  return {
    differences := languages.map fun l => (l, Text.sorted (((these .differs).filter (·.language == l)).map (·.name)))
    missing := Text.sorted ((these .missing).map (·.name)) }

/-- Whether a place comes before another one on a walk through a directory. -/
def walksBefore : Place → Place → Bool
  | [], _ => true
  | _ :: _, [] => false
  | a :: as, b :: bs => if a == b then walksBefore as bs else Text.before a b

def filesIn : Except Failure (List OutputFile) :=
  match h.find dir with
  | .error e => .error ((DiskFault.toFailure ⟨"lstat", [dir], e⟩).within ("failed to walk " ++ dir))
  | .ok (_, .file content) => .ok [{ language := "files", name := ".", content }]
  | .ok (root, .directory) =>
    let places := Text.sortBy walksBefore (h.disk.placesBelow root)
    .ok (places.filterMap fun p =>
      match h.disk.at? p with
      | some (.file content) =>
        some { language := "files", name := Text.join "/" (p.drop root.length), content }
      | _ => none)

def compareDirectories (generated existing : String) : Except Failure Comparison := do
  compareFiles h existing (← filesIn h generated)

inductive FormatFault where
  | noCommand
  | unknown (name : String)
  | notRunnable (name : String) (errno : Errno)
  | status (n : Nat)
  deriving DecidableEq

def FormatFault.message : FormatFault → String
  | noCommand => "exec: no command"
  | unknown name => "exec: " ++ Text.quoted name ++ ": executable file not found in $PATH"
  | notRunnable name errno => DiskFault.message ⟨"fork/exec", [name], errno⟩
  | status n => "exit status " ++ toString n

def runCommand (name : String) (args : List String) (h : Host) : Except FormatFault Tool.Result :=
  let isPath := name.toList.contains '/'
  let isStandard := ["/bin", "/usr/bin"].contains (Path.parent name)
  let tool := if isPath then Path.base name else name
  let found := if tool == ":" || (isPath && !isStandard) then none else Tool.run? Tool.scriptDepth tool args h
  if name.isEmpty then .error .noCommand
  else match found with
    | some r => .ok r
    | none =>
      if !isPath then .error (.unknown name)
      else match h.find name with
        | .ok _ => .error (.notRunnable name .denied)
        | .error e => .error (.notRunnable name e)

/-- Runs a format command on files.  Without a command or without files there is nothing to do. -/
def formatFiles (command : String) (paths : List String) : Work Unit := do
  if command.isEmpty || paths.isEmpty then return
  match Text.shellWords command with
  | .error e => throw ((Failure.badConfig e.message).within ("invalid format command " ++ Text.quoted command))
  | .ok [] => return
  | .ok (name :: args) =>
    let fail (fault : FormatFault) : Work Unit :=
      throw ((Failure.plain fault.message).within ("format command " ++ name ++ " failed"))
    match runCommand name (args ++ paths) (← get) with
    | .error fault => fail fault
    | .ok r =>
      set r.host
      if r.status ≠ 0 then fail (.status r.status)

end Covenant.Output
