import Covenant.Contract.Program
import Covenant.Failure
import Covenant.Text.Quoted

/-!
# Well-formed programs

`Program.validate` checks the structural rules that compilation relies on and reports the first that is broken.
Whether references can be resolved is not checked here.
-/

namespace Covenant.Contract

open Text (isIdentifier quoted)

inductive AliasDefect where
  | empty
  | slash (given : String)
  | character (given : String) (c : Char)
  deriving DecidableEq, Repr

inductive RefDefect where
  | missing
  | listAndDictionary (ref : String)
  | listArguments (count : Nat)
  | dictionaryArguments (count : Nat)
  | unnamed
  deriving DecidableEq, Repr

inductive Defect where
  | noProgram
  | programName (name : String)
  | duplicate (decl : String)
  | nestedNamespace (decl ns enclosing : String)
  | name (decl name : String)
  | nsSegment (decl ns segment : String)
  | noResult (kind : Kind) (decl : String)
  | unexpectedResult (kind : Kind) (decl : String)
  | genericRemote (kind : Kind) (decl : String)
  | typeParameter (decl name : String)
  | field (decl name : String)
  | constant (decl name : String)
  | noValue (decl name : String)
  | member (decl name : String)
  | sharedValue (decl first second : String) (value : Int64)
  | ref (site : String) (defect : RefDefect)
  | undeclaredAlias (decl : String)
  | localAlias (decl : String)
  | badAlias (decl : String) (defect : AliasDefect)
  | takenAlias (given decl owner : String)
  /-- An entry of a list of the declaration is left out; nothing is known about it. -/
  | absentEntry (decl : String)
  deriving DecidableEq, Repr

def AliasDefect.message : AliasDefect → String
  | empty => "alias path is empty"
  | slash given => "alias path " ++ quoted given ++ " must not start or end with '/'"
  | character given c => "alias path " ++ quoted given ++ " contains invalid character " ++ Text.quotedRune c

def RefDefect.message : RefDefect → String
  | missing => "missing type"
  | listAndDictionary ref => ref ++ " is both array-like and a dictionary"
  | listArguments count => "array-like type needs exactly one element type, got " ++ toString count
  | dictionaryArguments count => "dictionary needs key and value types, got " ++ toString count
  | unnamed => "type reference has no name"

def AliasDefect.toFailure (d : AliasDefect) : Failure := .badConfig d.message

def Defect.toFailure : Defect → Failure
  | noProgram => .malformed "program is nil"
  | programName given => .badConfig ("program name " ++ quoted given ++ " is not an identifier")
  | duplicate decl =>
    (Failure.ofClass .duplicateDeclaration (decl ++ " is declared more than once")).withHint
      "two declarations share namespace and name; rename one or exclude it"
  | nestedNamespace decl ns enclosing =>
    .malformed ("nested declaration " ++ decl ++ " has namespace " ++ quoted ns ++
      ", enclosing declaration has " ++ quoted enclosing)
  | name decl given => .malformed (decl ++ ": name " ++ quoted given ++ " is not an identifier")
  | nsSegment decl ns segment =>
    .malformed (decl ++ ": namespace " ++ quoted ns ++ " has invalid segment " ++ quoted segment)
  | noResult kind decl =>
    (Failure.malformed (kind.name ++ " " ++ decl ++ " has no result type")).withHint
      "queries and operations must declare exactly one result type"
  | unexpectedResult kind decl => .malformed (kind.name ++ " " ++ decl ++ " declares a result type")
  | genericRemote kind decl =>
    (Failure.malformed (kind.name ++ " " ++ decl ++ " is generic")).withHint
      ("commands, queries and operations are invoked by wire key and cannot take type parameters; " ++
        "make the payload type generic instead")
  | typeParameter decl given => .malformed (decl ++ ": invalid or duplicate type parameter " ++ quoted given)
  | field decl given => .malformed (decl ++ ": empty or duplicate field name " ++ quoted given)
  | constant decl given => .malformed (decl ++ ": invalid or duplicate constant " ++ quoted given)
  | noValue decl given => .malformed (decl ++ "." ++ given ++ " has no value")
  | member decl given => .malformed (decl ++ ": invalid or duplicate member " ++ quoted given)
  | sharedValue decl first second value =>
    .malformed (decl ++ ": members " ++ first ++ " and " ++ second ++ " share value " ++ toString value.toInt)
  | ref site defect => .malformed (site ++ ": " ++ defect.message)
  | undeclaredAlias decl => .badConfig ("alias target " ++ decl ++ " is not declared")
  | localAlias decl => .badConfig ("alias target " ++ decl ++ " is not a command, query or operation")
  | badAlias decl defect => defect.toFailure.within ("alias of " ++ decl)
  | takenAlias given decl owner =>
    .badConfig ("alias " ++ quoted given ++ " of " ++ decl ++ " is already used by " ++ owner)
  | absentEntry decl => .plain (decl ++ ": absent list entry")

/-- The rule that a reference breaks by itself, whatever its arguments are. -/
def refDefect? (h : RefHead) (ref : String) (count : Nat) : Option RefDefect :=
  if h.isList && h.isDictionary then some (.listAndDictionary ref)
  else if h.isList && count != 1 then some (.listArguments count)
  else if h.isDictionary && count != 2 then some (.dictionaryArguments count)
  else if !h.isList && !h.isDictionary && h.name.isEmpty then some .unnamed
  else none

mutual

def checkRef (site : String) : TypeRef → Except Defect Unit
  | .mk h as =>
    match refDefect? h (TypeRef.mk h as).text as.length with
    | some defect => .error (.ref site defect)
    | none => checkArguments site as

def checkArguments (site : String) : List (Option TypeRef) → Except Defect Unit
  | [] => .ok ()
  | none :: _ => .error (.ref site .missing)
  | some a :: as => do
    checkRef site a
    checkArguments site as

end

def checkRefs (site : String) : List (Option TypeRef) → Except Defect Unit := checkArguments site

def badSegment? (ns : String) : Option String :=
  if ns.isEmpty then none else (Text.split '.' ns).find? fun segment => !isIdentifier segment

def checkNames (decl : String) (head : DeclHead) : Except Defect Unit :=
  if !isIdentifier head.name then .error (.name decl head.name)
  else match badSegment? head.ns with
    | some segment => .error (.nsSegment decl head.ns segment)
    | none => .ok ()

def checkResult (decl : String) (body : TypeBody) : Except Defect Unit :=
  match body.kind.hasResult, body.result with
  | true, none => .error (.noResult body.kind decl)
  | false, some _ => .error (.unexpectedResult body.kind decl)
  | true, some r => checkRef (decl ++ " result") r
  | false, none => .ok ()

/-- Checks the entries of a list one after the other, each against those before it.  They are read whether they are
there or not. -/
def checkEntries {α : Type} (decl : String) (check : List α → α → Except Defect Unit) (seen : List α) :
    List (Option α) → Except Defect Unit
  | [] => .ok ()
  | none :: _ => .error (.absentEntry decl)
  | some a :: entries => do
    check seen a
    checkEntries decl check (a :: seen) entries

def checkParameter (decl : String) (seen : List TypeParameter) (p : TypeParameter) : Except Defect Unit := do
  if !isIdentifier p.name || seen.any (·.name == p.name) then throw (.typeParameter decl p.name)
  checkRefs (decl ++ " constraint of " ++ p.name) p.constraints

def checkField (decl : String) (seen : List Field) (f : Field) : Except Defect Unit := do
  if f.name.isEmpty || seen.any (·.name == f.name) then throw (.field decl f.name)
  checkRefs (decl ++ "." ++ f.name) [f.type]

def checkConstant (decl : String) (seen : List Constant) (c : Constant) : Except Defect Unit := do
  if !isIdentifier c.name || seen.any (·.name == c.name) then throw (.constant decl c.name)
  if c.value.isNone then throw (.noValue decl c.name)

def checkMember (decl : String) (seen : List EnumMember) (m : EnumMember) : Except Defect Unit := do
  if !isIdentifier m.name || seen.any (·.name == m.name) then throw (.member decl m.name)
  if let some other := seen.find? (·.value == m.value) then throw (.sharedValue decl other.name m.name m.value)

def checkType (decl : String) (head : DeclHead) (body : TypeBody) : Except Defect Unit := do
  checkNames decl head
  checkResult decl body
  if body.kind.isRemote && !body.typeParameters.isEmpty then throw (.genericRemote body.kind decl)
  checkEntries decl (checkParameter decl) [] body.typeParameters
  checkRefs (decl ++ " base type") body.baseTypes
  checkEntries decl (checkField decl) [] body.fields
  checkEntries decl (checkConstant decl) [] (body.constants.map some)

def checkDeclaration (decl : String) : Declaration → Except Defect Unit
  | .enum head members => do
    checkNames decl head
    checkEntries decl (checkMember decl) [] members
  | .type head body _ => checkType decl head body

/-- A nested declaration repeats the namespace of the declaration directly around it or leaves it out. -/
def checkEnclosing (v : Visit) : Except Defect Unit :=
  match v.parent? with
  | some parent =>
    if !v.decl.ns.isEmpty && v.decl.ns != parent.ns then
      .error (.nestedNamespace v.qualified v.decl.ns parent.ns)
    else .ok ()
  | none => .ok ()

def checkVisits (seen : List String) : List Visit → Except Defect Unit
  | [] => .ok ()
  | v :: vs => do
    if seen.contains v.qualified then throw (.duplicate v.qualified)
    checkEnclosing v
    checkDeclaration v.qualified v.decl
    checkVisits (v.qualified :: seen) vs

def isAliasBreaker (c : Char) : Bool :=
  Text.isBlank c || Text.isControl c || c == '"' || c == '\'' || c.toNat == 0x60 || c == '\\'

def aliasDefect? (given : String) : Option AliasDefect :=
  if given.isEmpty then some .empty
  else if Text.hasPrefix "/" given || Text.hasSuffix "/" given then some (.slash given)
  else (given.toList.find? isAliasBreaker).map (.character given)

/-- Adds the aliases of a declaration to the wire names in use, each with its owner. -/
def claimAliases (decl : String) : List (String × String) → List String → Except Defect (List (String × String))
  | taken, [] => .ok taken
  | taken, given :: aliases =>
    match aliasDefect? given, taken.lookup given with
    | some defect, _ => .error (.badAlias decl defect)
    | none, some owner => .error (.takenAlias given decl owner)
    | none, none => claimAliases decl ((given, decl) :: taken) aliases

def checkAliases (p : Program) : List (String × String) → List String → Except Defect Unit
  | _, [] => .ok ()
  | taken, key :: keys =>
    match p.visit? key with
    | none => .error (.undeclaredAlias key)
    | some v =>
      if v.decl.isRemote then do
        let taken ← claimAliases key taken (p.aliasesOf key)
        checkAliases p taken keys
      else .error (.localAlias key)

def Program.remoteNames (p : Program) : List (String × String) :=
  p.qualifiedNames.filterMap fun q =>
    if (p.visit? q).any (·.decl.isRemote) then some (q, q) else none

def Program.validate (p : Program) : Except Defect Unit := do
  if !isIdentifier p.name then throw (.programName p.name)
  checkVisits [] p.visits
  if !p.aliases.isEmpty then checkAliases p p.remoteNames p.aliasKeys

def validate? : Option Program → Except Defect Unit
  | none => .error .noProgram
  | some p => p.validate

end Covenant.Contract
