import Covenant.Disk.Host

/-!
# Watching files

A watcher collects the files that change and reports them together once nothing has changed for a while.  Three agents
share its state: a loop that handles events one after the other, timers that fire, and whoever stops it.  Any order of
their steps that are possible may occur.  A report starts a rebuild; one that finds a rebuild waiting is dropped.
-/

namespace Covenant.Watch

inductive Halt where
  | running
  | timerStopped
  | closed
  | returned
  deriving DecidableEq

structure Watcher where
  /-- The event that the loop has taken and not yet handled. -/
  handling : Option String := none
  isLooping : Bool := true
  pending : List String := []
  armed : Option Nat := none
  timers : Nat := 0
  firing : List Nat := []
  reports : List (Nat × List String) := []
  halt : Halt := .running
  deriving DecidableEq

namespace Watcher

inductive Step where
  | notice (path : String)
  | schedule
  | expire (timer : Nat)
  | drain (timer : Nat)
  | report (timer : Nat)
  | stopTimer
  | close
  | leave
  | return_
  deriving DecidableEq

def note (pending : List String) (path : String) : List String :=
  if pending.contains path then pending else pending ++ [path]

def takeReport (timer : Nat) (reports : List (Nat × List String)) : Option (List String × List (Nat × List String)) :=
  (reports.lookup timer).map fun batch => (batch, reports.erase (timer, batch))

variable (w : Watcher)

def step : Step → Option Watcher
  | .notice path =>
    if w.isLooping && w.handling.isNone && (w.halt == .running || w.halt == .timerStopped) then
      some { w with handling := some path }
    else none
  | .schedule =>
    w.handling.map fun path =>
      { w with handling := none, pending := note w.pending path, armed := some w.timers, timers := w.timers + 1 }
  | .expire timer =>
    if w.armed = some timer then some { w with armed := none, firing := w.firing ++ [timer] } else none
  | .drain timer =>
    if w.firing.contains timer then
      let rest := { w with firing := w.firing.erase timer }
      some (if w.pending.isEmpty then rest
        else { rest with pending := [], reports := w.reports ++ [(timer, Text.sorted w.pending)] })
    else none
  | .report timer => (takeReport timer w.reports).map fun (_, reports) => { w with reports }
  | .stopTimer => if w.halt = .running then some { w with armed := none, halt := .timerStopped } else none
  | .close => if w.halt = .timerStopped then some { w with halt := .closed } else none
  | .leave =>
    if w.halt = .closed && w.handling.isNone && w.isLooping then some { w with isLooping := false } else none
  | .return_ => if w.halt = .closed && !w.isLooping then some { w with halt := .returned } else none

def handedOver : Step → Option (List String)
  | .report timer => w.reports.lookup timer
  | _ => none

def next? : Option Step :=
  if w.handling.isSome then some .schedule
  else match w.reports, w.firing, w.armed with
    | (timer, _) :: _, _, _ => some (.report timer)
    | [], timer :: _, _ => some (.drain timer)
    | [], [], some timer => some (.expire timer)
    | [], [], none => none

/-- A bound on the steps to come while no event arrives. -/
def workLeft : Nat :=
  (if w.handling.isSome then 4 else 0) + (if w.armed.isSome then 3 else 0) + 2 * w.firing.length + w.reports.length

def after (steps : List Step) : Watcher := steps.foldl (fun w s => (w.step s).getD w) w

def changed (paths : List String) : Watcher :=
  w.after (paths.flatMap fun path => [.notice path, .schedule])

def settleBy : Nat → Watcher → List (List String) × Watcher
  | 0, w => ([], w)
  | fuel + 1, w =>
    match w.next? with
    | none => ([], w)
    | some s =>
      let (reports, rest) := settleBy fuel (w.after [s])
      ((w.handedOver s).toList ++ reports, rest)

def settle : List (List String) × Watcher := settleBy w.workLeft w

end Watcher

inductive Phase where
  | idle
  | waiting
  | building
  | ended
  deriving DecidableEq

structure Machine where
  watcher : Watcher := {}
  slot : Option (List String) := none
  phase : Phase := .building
  deriving DecidableEq

namespace Machine

inductive Step where
  | watcher (step : Watcher.Step)
  | receive
  | build
  | finish
  | cancel
  deriving DecidableEq

def step (m : Machine) : Step → Option Machine
  | .watcher s =>
    (m.watcher.step s).map fun w =>
      { m with watcher := w, slot := m.slot.or (m.watcher.handedOver s) }
  | .receive => if m.phase = .idle && m.slot.isSome then some { m with slot := none, phase := .waiting } else none
  | .build => if m.phase = .waiting then some { m with phase := .building } else none
  | .finish => if m.phase = .building then some { m with phase := .idle } else none
  | .cancel => if m.phase = .idle || m.phase = .waiting then some { m with phase := .ended } else none

def run (m : Machine) : List Step → Option Machine
  | [] => some m
  | s :: steps => do (← m.step s).run steps

def next? (m : Machine) : Option Step :=
  match m.phase, m.watcher.next?, m.slot with
  | .building, _, _ => some .finish
  | .waiting, _, _ => some .build
  | _, some s, _ => some (.watcher s)
  | .idle, none, some _ => some .receive
  | _, none, _ => none

def workLeft (m : Machine) : Nat :=
  4 * m.watcher.workLeft + (if m.slot.isSome then 3 else 0) +
    match m.phase with
    | .building => 1
    | .waiting => 2
    | .idle | .ended => 0

end Machine

structure Directory where
  path : String
  place : Place
  deriving DecidableEq

structure Files where
  paths : List String
  directories : List Directory
  deriving DecidableEq

inductive Change where
  | put (place : Place) (content : String)
  | replace (place : Place) (content : String)
  | makeDirectory (place : Place)
  | move (old new : Place)
  | remove (place : Place)
  | permit (place : Place)
  deriving DecidableEq

namespace Change

def apply (d : Disk) : Change → Disk
  | put place content | replace place content => d.put place content
  | makeDirectory place => d.makeAll place
  | move old new => if (d.at? old).isSome then d.move old new else d
  | remove place => d.prune place
  | permit _ => d

/-- The places whose entries are new, written or gone to another place. -/
def touched (d : Disk) : Change → List Place
  | put place _ | replace place _ => newAbove place.dropLast ++ [place]
  | makeDirectory place => newAbove place
  | move old new => if (d.at? old).isSome then [old, new] else []
  | remove _ | permit _ => []
where
  newAbove (place : Place) : List Place :=
    ((List.range place.length).map fun n => place.take (n + 1)).filter fun p => (d.at? p).isNone

end Change

namespace Files

/-- Whether a path names a version that was kept when settings were saved. -/
def isBackup (path : String) : Bool :=
  let start := Text.trimRightChars Char.isDigit path.toList
  start.length < path.length && Text.hasSuffix ".back" (String.ofList start)

def watch (h : Host) (paths : List String) : Except Failure Files := do
  if paths.isEmpty then throw (.badConfig "nothing to watch")
  let absolute := paths.map (Path.absolute h.workingPath)
  let directories ← (Text.sortedSet (absolute.map Path.parent)).mapM fun path =>
    match h.find path with
    | .ok (place, _) => .ok (Directory.mk path place)
    | .error e => .error ((Failure.plain e.text).within ("failed to watch " ++ path))
  return { paths := absolute, directories }

def named (f : Files) (place : Place) : List String :=
  ((f.directories.filter (·.place == place.dropLast)).map fun d =>
    Path.join [d.path, place.getLastD ""]).filter fun p => f.paths.contains p && !isBackup p

def follow (f : Files) (c : Change) : Files :=
  match c with
  | .move old new =>
    { f with directories := (f.directories.filter (·.place != old)).map fun d =>
        if old.isPrefixOf d.place then { d with place := new ++ d.place.drop old.length } else d }
  | .remove place => { f with directories := f.directories.filter fun d => !place.isPrefixOf d.place }
  | _ => f

def observe (f : Files) (d : Disk) (c : Change) : Files × Disk × List String :=
  (f.follow c, c.apply d, (c.touched d).flatMap f.named)

end Files

end Covenant.Watch
