import Covenant.Contract.Program
import Covenant.Failure
import Covenant.Text.Quoted

/-!
# Name tables

`Table.resolve` gives every declaration that is not excluded its emitted name.  A top-level declaration keeps its
short name; declarations that share one get the last segments of their namespaces in front, the smallest number of
segments for which the names are distinct and free.  A nested declaration has the name of its enclosing one, a
separator and its short name.  Emitted names are pairwise distinct.
-/

namespace Covenant.Naming

def markerNames : List String :=
  ["IRemoteQuery", "IRemoteCommand", "IRemoteOperation", "ICommand", "IQuery", "IOperation"]

structure Policy where
  /-- Joins the name of an enclosing declaration and a nested short name. -/
  nestedSeparator : String := "_"
  /-- Names that are never mangled, even when they collide. -/
  unmangled : List String := []
  reserved : List String := []
  escapeSuffix : String := "_"

def Policy.extend (p : Policy) (unmangled : List String) : Policy := { p with unmangled := p.unmangled ++ unmangled }

inductive Conflict where
  | unmangledTwice (short : String) (decls : List String)
  /-- The only distinct names of a group include one that another declaration has. -/
  | taken (decl name owner : String)
  | exhausted (short : String) (decls : List String)
  | sameName (first second name : String)
  | orphan (decl : String)
  | emptyMember (owner wire : String)
  | sameMember (owner first second ident : String)
  deriving DecidableEq, Repr

def Conflict.toFailure : Conflict → Failure
  | unmangledTwice short decls =>
    (Failure.ofClass .nameCollision ("unmangled name " ++ short ++ " is declared in " ++ toString decls.length ++
      " namespaces: " ++ Text.join ", " decls)).withHint
      "declare framework marker names only once, or drop them from the unmangled list"
  | taken decl name owner =>
    (Failure.ofClass .nameCollision (decl ++ " mangles to " ++ name ++ " which is already the name of " ++
      owner)).withHint ("rename " ++ owner ++ " or " ++ decl ++ ", or exclude one of them")
  | exhausted short decls =>
    (Failure.ofClass .manglingExhausted ("cannot disambiguate " ++ toString decls.length ++
      " declarations named " ++ short ++ ": " ++ Text.join ", " decls)).withHint
      "two declarations share the same fully-qualified name; rename or exclude one of them"
  | sameName first second name =>
    (Failure.ofClass .nameCollision (first ++ " and " ++ second ++ " both emit as " ++ name)).withHint
      ("a nested declaration flattens to " ++ name ++ "; rename one of them")
  | orphan decl => .impossible ("nested declaration " ++ decl ++ " resolved before its parent")
  | emptyMember owner wire =>
    .malformed (owner ++ ": member " ++ Text.quoted wire ++ " has no identifier characters")
  | sameMember owner first second ident =>
    .ofClass .nameCollision (owner ++ ": members " ++ first ++ " and " ++ second ++ " both emit as " ++ ident)

namespace Policy

/-- The policy with the default for a separator or suffix that is empty. -/
def completed (p : Policy) : Policy :=
  { p with
    nestedSeparator := if p.nestedSeparator.isEmpty then "_" else p.nestedSeparator
    escapeSuffix := if p.escapeSuffix.isEmpty then "_" else p.escapeSuffix }

def isUnmangled (p : Policy) (name : String) : Bool := p.unmangled.contains name

def identifier (p : Policy) (name : String) : String :=
  if p.reserved.contains name then name ++ p.escapeSuffix else name

/-- The identifier of a field, constant or enumeration member; empty if the wire name has none. -/
def member (p : Policy) (wire : String) : String :=
  let id := Text.toIdentifier wire
  if id.isEmpty then "" else p.identifier id

/-- The identifiers of wire names, given the identifiers in use with their wire names. -/
def membersAfter (p : Policy) (owner : String) (used : List (String × String)) :
    List String → Except Conflict (List String)
  | [] => .ok []
  | wire :: rest =>
    let id := p.member wire
    if id.isEmpty then .error (.emptyMember owner wire)
    else match used.lookup id with
      | some first => .error (.sameMember owner first wire id)
      | none => return id :: (← p.membersAfter owner ((id, wire) :: used) rest)

def members (p : Policy) (owner : String) (wires : List String) : Except Conflict (List String) :=
  p.membersAfter owner [] wires

end Policy

open Contract (Declaration Program Visit)

structure Entry where
  name : String
  /-- The identity of the declaration, also its wire key. -/
  qualified : String
  ns : String
  path : String
  decl : Declaration
  parent? : Option String := none
  deriving Inhabited

structure Table where
  policy : Policy
  /-- The entries in order of their emitted names. -/
  entries : List Entry
  /-- The entries in the order of resolution, latest first. -/
  resolved : List Entry

namespace Table

def lookup (t : Table) (qualified : String) : Option Entry := t.resolved.find? (·.qualified == qualified)

/-- A short name after the last `depth` segments of a namespace, most specific first. -/
def mangledName (segments : List String) (short : String) (depth : Nat) : String :=
  String.join (segments.reverse.take depth) ++ short

def segments (v : Visit) : List String := if v.ns.isEmpty then [] else Text.split '.' v.ns

def identities (group : List Visit) : List String := Text.sorted (group.map (·.qualified))

def candidates (p : Policy) (short : String) (group : List Visit) (depth : Nat) : List (String × String) :=
  group.map fun v => (v.qualified, p.identifier (mangledName (segments v) short depth))

def maxDepth (group : List Visit) : Nat := (group.map fun v => (segments v).length).foldl max 0

def distinct : List String → Bool
  | [] => true
  | a :: as => !as.contains a && distinct as

/-- Tries `count` depths from `depth` on.  The last depth with distinct names of which one was taken is remembered
in `clash`. -/
def mangleFrom (p : Policy) (short : String) (group : List Visit) (taken : List (String × String)) :
    Nat → Nat → Option Conflict → Except Conflict (List (String × String))
  | 0, _, clash => .error (clash.getD (.exhausted short (identities group)))
  | count + 1, depth, clash =>
    let names := Text.sortedByKey (candidates p short group depth)
    if distinct (names.map (·.2)) then
      match names.findSome? fun (decl, name) => (taken.lookup name).map (Conflict.taken decl name) with
      | none => .ok names
      | some conflict => mangleFrom p short group taken count (depth + 1) (some conflict)
    else mangleFrom p short group taken count (depth + 1) clash

/-- The names of a group of declarations that share a short name, in order of their identities. -/
def mangle (p : Policy) (short : String) (group : List Visit) (taken : List (String × String)) :
    Except Conflict (List (String × String)) :=
  mangleFrom p short group taken (maxDepth group) 1 none

/-- The names given so far: by identity, and the owners of names.  The latest comes first. -/
structure Assignment where
  names : List (String × String) := []
  owners : List (String × String) := []

def Assignment.give (a : Assignment) (decl name : String) : Assignment :=
  { names := (decl, name) :: a.names, owners := (name, decl) :: a.owners }

def groupOf (top : List Visit) (short : String) : List Visit := top.filter (·.decl.name == short)

/-- Names the declarations whose short name is theirs alone or is never mangled.  Returns the other short names. -/
def assignSingles (p : Policy) (top : List Visit) :
    Assignment → List String → Except Conflict (Assignment × List String)
  | a, [] => .ok (a, [])
  | a, short :: rest =>
    match p.isUnmangled short, groupOf top short with
    | true, [v] => assignSingles p top (a.give v.qualified short) rest
    | true, group => .error (.unmangledTwice short (identities group))
    | false, [v] => assignSingles p top (a.give v.qualified (p.identifier short)) rest
    | false, _ => return (fun r => (r.1, short :: r.2)) (← assignSingles p top a rest)

def assignGroups (p : Policy) (top : List Visit) : Assignment → List String → Except Conflict Assignment
  | a, [] => .ok a
  | a, short :: rest => do
    let names ← mangle p short (groupOf top short) a.owners
    assignGroups p top (names.foldl (fun a (decl, name) => a.give decl name) a) rest

def assignTop (p : Policy) (top : List Visit) : Except Conflict (List (String × String)) := do
  let (a, shared) ← assignSingles p top {} (Text.sortedSet (top.map (·.decl.name)))
  return (← assignGroups p top a shared).names

def topEntry (names : List (String × String)) (v : Visit) : Entry :=
  { name := (names.lookup v.qualified).getD "", qualified := v.qualified, ns := v.ns, path := v.path, decl := v.decl }

def addNested (p : Policy) : List Entry → List Visit → Except Conflict (List Entry)
  | done, [] => .ok done
  | done, v :: vs =>
    match v.parentQualified?.bind fun q => done.find? (·.qualified == q) with
    | none => .error (.orphan v.qualified)
    | some parent =>
      addNested p
        ({ name := parent.name ++ p.nestedSeparator ++ v.decl.name, qualified := v.qualified, ns := v.ns,
            path := v.path, decl := v.decl, parent? := some parent.qualified } :: done) vs

/-- Checks that no two entries have the same name; `owners` holds the names seen with their identities. -/
def checkUnique (owners : List (String × String)) : List Entry → Except Conflict Unit
  | [] => .ok ()
  | e :: es =>
    match owners.lookup e.name with
    | some other => .error (.sameName other e.qualified e.name)
    | none => checkUnique ((e.name, e.qualified) :: owners) es

def resolve (program : Program) (policy : Policy) : Except Conflict Table := do
  let p := policy.completed
  let visits := program.visits.filter (!·.isExcluded)
  let top := visits.filter (·.parents.isEmpty)
  let names ← assignTop p top
  let resolved ← addNested p (top.map (topEntry names)).reverse (visits.filter (!·.parents.isEmpty))
  checkUnique [] resolved.reverse
  return { policy := p, entries := Text.sortBy (fun a b => Text.before a.name b.name) resolved, resolved }

end Table

end Covenant.Naming
