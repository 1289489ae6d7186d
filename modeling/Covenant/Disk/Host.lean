import Covenant.Failure

/-!
# Disks

A disk holds files and directories at places, which are the names on the way from the root.  A host is a disk with the
directory the program works in and its environment.  Operations on files either fail and leave the disk as it was, or
do their work.  A host may also be given faults: the next operations that can fail take one each.
-/

namespace Covenant.Path

def isAbsolute (p : String) : Bool := Text.hasPrefix "/" p

def names (p : String) : List String := (Text.split '/' p).filter (!·.isEmpty)

/-- Names without steps that lead nowhere: a step up takes back the name before it.  Nothing is above the root. -/
def reduce (rooted : Bool) (done : List String) : List String → List String
  | [] => done.reverse
  | name :: rest =>
    if name == "." then reduce rooted done rest
    else if name == ".." then
      match done with
      | last :: before => if last == ".." then reduce rooted (name :: done) rest else reduce rooted before rest
      | [] => reduce rooted (if rooted then [] else [name]) rest
    else reduce rooted (name :: done) rest

def clean (p : String) : String :=
  let rooted := isAbsolute p
  let text := Text.join "/" (reduce rooted [] (names p))
  if rooted then "/" ++ text else if text.isEmpty then "." else text

def join (parts : List String) : String :=
  match parts.filter (!·.isEmpty) with
  | [] => ""
  | given => clean (Text.join "/" given)

def parent (p : String) : String :=
  clean (String.ofList (Text.trimRightChars (· != '/') p.toList))

def base (p : String) : String :=
  if p.isEmpty then "."
  else (names p).getLastD "/"

def absolute (here p : String) : String := if isAbsolute p then clean p else join [here, p]

end Covenant.Path

namespace Covenant

abbrev Place := List String

/-- What is at a place.  Symbolic links are left out: a path leads where its names say, and what stands there is a
file or a directory. -/
inductive Disk.Entry where
  | file (content : String)
  | directory
  deriving DecidableEq

structure Disk where
  entries : List (Place × Disk.Entry) := []
  deriving DecidableEq

namespace Disk

variable (d : Disk)

variable (p : Place)

def at? : Option Entry := if p = [] then some .directory else d.entries.lookup p

def erase : Disk := ⟨d.entries.filter fun (q, _) => q ≠ p⟩

def set (e : Entry) : Disk := ⟨(d.erase p).entries ++ [(p, e)]⟩

def placesBelow : List Place :=
  (d.entries.map (·.1)).filter fun q => p.isPrefixOf q && q ≠ p

def prune : Disk := ⟨d.entries.filter fun (q, _) => !p.isPrefixOf q⟩

def move (p q : Place) : Disk :=
  let moved := (d.entries.filter fun (r, _) => p.isPrefixOf r).map fun (r, e) => (q ++ r.drop p.length, e)
  ⟨((d.prune p).prune q).entries ++ moved⟩

def makeAll : Disk :=
  (List.range p.length).foldl (fun d n =>
    let q := p.take (n + 1)
    if (d.at? q).isSome then d else d.set q .directory) d

def put (content : String) : Disk := (d.makeAll p.dropLast).set p (.file content)

end Disk

/-!
 ### Errors

Why an operation cannot be done.  The texts are those of the operating system, after the operation and the paths it
was asked for.
-/

inductive Errno where
  | notFound | notDirectory | isDirectory | alreadyThere | notEmpty | nameTooLong | busy | invalid | denied
  deriving DecidableEq

def Errno.text : Errno → String
  | notFound => "no such file or directory"
  | notDirectory => "not a directory"
  | isDirectory => "is a directory"
  | alreadyThere => "file exists"
  | notEmpty => "directory not empty"
  | nameTooLong => "file name too long"
  | busy => "device or resource busy"
  | invalid => "invalid argument"
  | denied => "permission denied"

structure DiskFault where
  operation : String
  paths : List String
  errno : Errno

namespace DiskFault

def message (f : DiskFault) : String := Text.join " " (f.operation :: f.paths) ++ ": " ++ f.errno.text

def toFailure (f : DiskFault) : Failure := .plain f.message

end DiskFault

/-- A disk with all that operations on it depend on.  The faults that are due come to the next operations, and the
names of temporary files take their numbers from the draws. -/
structure Host where
  disk : Disk := {}
  here : Place := []
  environment : List (String × String) := []
  due : List (Option Errno) := []
  draws : Nat → Nat := fun i => 1000000000 + i

abbrev Work := ExceptT Failure (StateM Host)

structure Target where
  place : Place
  isNamed : Bool
  isDirectoryOnly : Bool

namespace Disk

def longestName : Nat := 255
def longestPath : Nat := 4095

def follow (d : Disk) (at_ : Place) : List String → Except Errno (Place × Bool)
  | [] => .ok (at_, false)
  | name :: rest =>
    let isNamed := name != "." && name != ".."
    let next := if name == "." then at_ else if name == ".." then at_.dropLast else at_ ++ [name]
    if isNamed && Text.byteLength name > longestName then .error .nameTooLong
    else if rest.isEmpty then .ok (next, isNamed)
    else match d.at? next with
      | some .directory => follow d next rest
      | some (.file _) => .error .notDirectory
      | none => .error .notFound

variable (d : Disk)

variable (here : Place) (path : String)

def target : Except Errno Target := do
  if path.toList.contains '\x00' then .error .invalid
  if path.isEmpty then .error .notFound
  if Text.byteLength path > longestPath then .error .nameTooLong
  let (place, isNamed) ← d.follow (if Path.isAbsolute path then [] else here) (Path.names path)
  return ⟨place, isNamed, Text.hasSuffix "/" path⟩

def find : Except Errno (Place × Entry) := do
  let t ← d.target here path
  match d.at? t.place with
  | none => .error .notFound
  | some .directory => return (t.place, .directory)
  | some (.file content) => if t.isDirectoryOnly then .error .notDirectory else return (t.place, .file content)

def parentCheck (place : Place) : Except Errno Unit :=
  match d.at? place.dropLast with
  | some .directory => .ok ()
  | some (.file _) => .error .notDirectory
  | none => .error .notFound

def writeFile (path content : String) : Except Errno Disk := do
  let t ← d.target here path
  if !t.isNamed || t.isDirectoryOnly then .error .isDirectory
  match d.at? t.place with
  | some .directory => .error .isDirectory
  | some (.file _) => return d.set t.place (.file content)
  | none =>
    d.parentCheck t.place
    return d.set t.place (.file content)

def makeDirectory : Except Errno Disk := do
  let t ← d.target here path
  if (d.at? t.place).isSome then .error .alreadyThere
  d.parentCheck t.place
  return d.set t.place .directory

def remove : Except Errno Disk := do
  let t ← d.target here path
  match d.at? t.place with
  | none => .error .notFound
  | some (.file _) => if t.isDirectoryOnly then .error .notDirectory else return d.erase t.place
  | some .directory =>
    if !t.isNamed then .error (if t.place.isEmpty then .busy else .invalid)
    else if !(d.placesBelow t.place).isEmpty then .error .notEmpty
    else return d.erase t.place

/-- Moves an entry.  It takes the place of a file but not of a directory. -/
def rename (old new : String) : Except Errno Disk := do
  if let .ok (_, .directory) := d.find here new then
    let _ ← d.find here old
    .error .alreadyThere
  let from_ ← d.target here old
  let goal ← d.target here new
  d.parentCheck from_.place
  d.parentCheck goal.place
  if !from_.isNamed || !goal.isNamed then .error .busy
  match d.at? from_.place with
  | none => .error .notFound
  | some (.file _) =>
    if from_.isDirectoryOnly || goal.isDirectoryOnly then .error .notDirectory
    else return d.move from_.place goal.place
  | some .directory =>
    if from_.place.isPrefixOf goal.place then .error .invalid
    else match d.at? goal.place with
      | some (.file _) => .error .notDirectory
      | _ => return d.move from_.place goal.place

end Disk

namespace Host

variable (d : Disk) (h : Host)

def workingPath : String := "/" ++ Text.join "/" h.here

def environment? (name : String) : Option String := (h.environment.lookup name).filter (!·.isEmpty)

def home? : Option String := h.environment? "HOME"

def find (h : Host) (path : String) : Except Errno (Place × Disk.Entry) := h.disk.find h.here path

def exists_ (path : String) : Bool := (h.find path).toOption.isSome

def readFile (path : String) : Except DiskFault String :=
  match h.find path with
  | .ok (_, .file content) => .ok content
  | .ok (_, .directory) => .error ⟨"read", [path], .isDirectory⟩
  | .error e => .error ⟨"open", [path], e⟩

def parentText (path : String) : String :=
  let cs := Text.trimRightChars (· == '/') path.toList
  String.ofList (Text.trimRightChars (· != '/') cs)

def makeMissing (here : Place) (path : String) : Disk × Option DiskFault :=
  match d.makeDirectory here path with
  | .ok d => (d, none)
  | .error e =>
    match d.find here path with
    | .ok (_, .directory) => (d, none)
    | _ => (d, some ⟨"mkdir", [path], e⟩)

def makeAfter (above : Disk × Option DiskFault) (d : Disk) (here : Place) (path : String) : Disk × Option DiskFault :=
  match d.find here path with
  | .ok (_, .directory) => (d, none)
  | .ok (_, .file _) => (d, some ⟨"mkdir", [path], .notDirectory⟩)
  | .error _ =>
    match above with
    | (d, some fault) => (d, some fault)
    | (d, none) => makeMissing d here path

/-- Makes a directory and all above it; the first number bounds how many there are.  Those that were made before one
that cannot be made stay. -/
def makeDirectories : Nat → Disk → Place → String → Disk × Option DiskFault
  | 0, d, here, path => makeAfter (d, none) d here path
  | depth + 1, d, here, path =>
    let above := parentText path
    makeAfter (if above.isEmpty then (d, none) else makeDirectories depth d here above) d here path

def below (dir name : String) : String := if Text.hasSuffix "/" dir then dir ++ name else dir ++ "/" ++ name

def numbered (start stop : String) (n : Nat) : String := start ++ toString n ++ stop

def mostDraws : Nat := 10000

/-- The first draw whose name stands for nothing yet, if it is among the next ones. -/
def firstFree (h : Host) (dir start stop : String) : (tries i : Nat) → Option Nat
  | 0, _ => none
  | tries + 1, i =>
    if h.exists_ (below dir (numbered start stop (h.draws i))) then firstFree h dir start stop tries (i + 1)
    else some i

end Host

namespace Work

def ofDisk {α : Type} : Except DiskFault α → Work α
  | .ok a => return a
  | .error f => throw f.toFailure

def during {α : Type} (activity : String) (t : Work α) : Work α :=
  tryCatch t fun f => throw (f.within activity)

def dueFault : Work (Option Errno) := do
  let h ← get
  set { h with due := h.due.drop 1 }
  return h.due.head?.join

def change (operation : String) (paths : List String) (f : Host → Except Errno Disk) : Work Unit := do
  match ← dueFault with
  | some e => throw (DiskFault.toFailure ⟨operation, paths, e⟩)
  | none =>
    match f (← get) with
    | .ok d => modify fun h => { h with disk := d }
    | .error e => throw (DiskFault.toFailure ⟨operation, paths, e⟩)

def attempt (f : Host → Except Errno Disk) : Work Unit :=
  modify fun h => match f h with
    | .ok d => { h with disk := d }
    | .error _ => h

def readFile (path : String) : Work String := do ofDisk ((← get).readFile path)

def writeFile (path content : String) : Work Unit :=
  change "open" [path] fun h => h.disk.writeFile h.here path content

def rename (old new : String) : Work Unit :=
  change "rename" [old, new] fun h => h.disk.rename h.here old new

/-- Draws numbers until one gives a path to nothing.  All that is known of the path is that it is new. -/
def drawPath (operation dir start stop : String) : Work String := do
  let h ← get
  match h.firstFree dir start stop Host.mostDraws 0 with
  | none => throw (.plain (operation ++ " " ++ Host.below dir (start ++ "*" ++ stop) ++ ": file already exists"))
  | some i =>
    set { h with draws := fun j => h.draws (i + 1 + j) }
    return Host.below dir (Host.numbered start stop (h.draws i))

def createTemporary (dir start stop : String) : Work String := do
  let path ← drawPath "createtemp" dir start stop
  writeFile path ""
  return path

def remove (path : String) : Work Unit := attempt fun h => h.disk.remove h.here path

def makeDirectories (path : String) : Work Unit := do
  let h ← get
  let (disk, fault?) := Host.makeDirectories path.length h.disk h.here path
  set { h with disk }
  match fault? with
  | some fault => throw fault.toFailure
  | none => return

def removeAll (path : String) : Work Unit :=
  attempt fun h => return h.disk.prune (← h.find path).1

def temporaryRoot (h : Host) : String := (h.environment? "TMPDIR").getD "/tmp"

def inTemporaryDirectory {α : Type} (start : String) (f : String → Work α) : Work α := do
  let root := temporaryRoot (← get)
  let dir ← (drawPath "mkdirtemp" root start "").during "failed to create temp directory"
  let h ← get
  match h.disk.makeDirectory h.here dir with
  | .error e =>
    let fault : DiskFault := match h.find root with
      | .error .notFound => ⟨"stat", [root], .notFound⟩
      | _ => ⟨"mkdir", [dir], e⟩
    throw (fault.toFailure.within "failed to create temp directory")
  | .ok disk =>
    set { h with disk }
    let a ← tryCatch (f dir) fun failure => do
      removeAll dir
      throw failure
    removeAll dir
    return a

end Work

end Covenant
