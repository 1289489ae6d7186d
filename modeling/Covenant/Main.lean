import Covenant.Cli.Run

/-!
# The program

The outer layer: it learns from the real disk what a command line may need, runs the command, and makes the changes
that came out of it.  Format commands run by the tools of the library.
-/

namespace Covenant.Cli

def probe (path : String) : IO (Option Disk.Entry) := do
  match ← (IO.FS.readFile path).toBaseIO with
  | .ok content => return some (.file content)
  | .error (.inappropriateType ..) => return some .directory
  | .error _ => return none

def pathOf (place : Place) : String := "/" ++ Text.join "/" place

def learnPath (h : Host) (path : String) : IO Host := do
  let place := Path.names (Path.absolute h.workingPath path)
  let mut disk := h.disk
  for n in List.range place.length do
    let here := place.take (n + 1)
    if (disk.at? here.dropLast) = some .directory && (disk.at? here).isNone then
      if let some entry ← probe (pathOf here) then disk := disk.set here entry
  return { h with disk }

def learn (i : Invocation) : Nat → Host → IO Host
  | 0, h => return h
  | fuel + 1, h => do
    let mut found := h
    for name in i.variableNames h do
      if (found.environment.lookup name).isNone then
        if let some value ← IO.getEnv name then
          found := { found with environment := found.environment ++ [(name, value)] }
    for path in i.paths found do
      found ← learnPath found path
    if found.disk = h.disk ∧ found.environment = h.environment then return h else learn i fuel found

def perform (old new : Disk) : IO Unit := do
  for (place, entry) in new.entries do
    if old.at? place ≠ some entry then
      match entry with
      | .directory => IO.FS.createDirAll (pathOf place)
      | .file content =>
        IO.FS.createDirAll (pathOf place.dropLast)
        IO.FS.writeFile (pathOf place) content
  for (place, entry) in old.entries.reverse do
    if (new.at? place).isNone then
      match entry with
      | .directory => IO.FS.removeDir (pathOf place)
      | .file _ => IO.FS.removeFile (pathOf place)

def act {α : Type} (host : Host) (action : Session α) : IO (Except Failure α × Host) := do
  let (result, console) := (ExceptT.run action).run { host }
  IO.print console.output
  (← IO.getStdout).flush
  perform host.disk console.host.disk
  return (result, console.host)

/-- The watched files whose contents are no longer those that the host knows. -/
def changesSince (w : Watching) (h : Host) : IO (List Watch.Change) := do
  let mut changes := []
  for path in w.files.paths do
    let place := Path.names path
    let entry ← probe path
    if let some (.file content) := entry then
      if h.disk.at? place ≠ entry then changes := changes ++ [Watch.Change.replace place content]
  return changes

partial def watchOn (w : Watching) (h : Host) : IO Unit := do
  IO.sleep 200
  let changes ← changesSince w h
  if changes.isEmpty then watchOn w h
  else
    let learned ← learn w.invocation 8 (changes.foldl (fun h c => { h with disk := c.apply h.disk }) h)
    let noticed := { w with machine := { w.machine with
      watcher := w.machine.watcher.changed (changes.flatMap fun c => (c.touched h.disk).flatMap w.files.named) } }
    let (result, after) ← act learned noticed.settle
    watchOn (result.toOption.getD noticed) after

def usageText : String :=
  "Usage:\n  contractgen [command]\n\nAvailable Commands:\n" ++
    String.join (Command.all.map fun c => "  " ++ c.name ++ "\n")

def fail (f : Failure) : IO UInt32 := do
  IO.eprint f.report
  return 1

end Covenant.Cli

open Covenant Covenant.Cli

def main (arguments : List String) : IO UInt32 := do
  match Invocation.read arguments with
  | .error fault => fail fault.toFailure
  | .ok i =>
    if i.isHelp then
      IO.print usageText
      return 0
    let here := Path.names (toString (← IO.currentDir))
    let start ← learnPath { here } ("/" ++ Text.join "/" here)
    let host ← learn i 8 start
    if i.command = some .watch then
      let (started, _) ← act host (Watching.start arguments)
      match started with
      | .error f => fail f
      | .ok w =>
        let (result, after) ← act host w.settle
        watchOn (result.toOption.getD w) after
        return 0
    else
      let (result, _) ← act host (Cli.run arguments)
      match result with
      | .ok _ => return 0
      | .error f => fail f
