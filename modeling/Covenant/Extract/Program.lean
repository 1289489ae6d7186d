import Covenant.Contract.SchemaVersion
import Covenant.Source.Directive
import Covenant.Source.Evaluate

/-!
# Programs from source packages

Exported record types of a package become types, integer types with constants become enumerations; references to them
are in the namespace of their package, and every other name stands for what it is defined as.  `Site.plan` says what
one type becomes or is made of, and `Site.convert` follows it down; `none` is the outcome of a conversion without end.
Directives make types remote, alias or exclude them, and turn integer types into the error codes of another type.
-/

namespace Covenant.Extract

open Contract Source

/-! ### Options

The import path of a package becomes a namespace: a prefix of the path is dropped and every part that is left becomes
an identifier. -/

structure Options where
  programName : String := ""
  trimPrefix : String := ""
  errorCodesName : String := ""
  deriving DecidableEq, Inhabited

def Options.program (o : Options) : String := if o.programName.isEmpty then "Contracts" else o.programName

def Options.errorCodes (o : Options) : String := if o.errorCodesName.isEmpty then "ErrorCodes" else o.errorCodesName

def segmentChar (c : Char) : Char := if Text.isIdentifierChar c then c else '_'

/-- A part of a path as an identifier.  A digit at the front gets an underscore before it. -/
def segment (part : List Char) : List Char :=
  match part with
  | [] => []
  | c :: _ => (if c.isDigit then ['_'] else []) ++ part.map segmentChar

def segments (path : String) : List String :=
  (Text.runs (fun c => c != '/' && c != '.') path.toList).map fun part => String.ofList (segment part)

def Options.namespaceOf (o : Options) (path : String) : String :=
  Text.join "." (segments (Text.trimStart "/" (Text.trimStart o.trimPrefix path)))

inductive TypeDefect where
  | unsupported (type : String)
  | unexported (name : String)
  | notNamed (type : String)
  | inexpressible (term : String)
  deriving DecidableEq

def TypeDefect.toFailure : TypeDefect → Failure
  | unsupported type => .malformed ("unsupported type " ++ type)
  | unexported name => .malformed ("unexported type " ++ name ++ " cannot appear in a contract")
  | notNamed type => .malformed ("embedded " ++ type ++ " is not a named type")
  | inexpressible term => .malformed ("constraint term " ++ term ++ " cannot be expressed in a contract")

def basicName? (b : Basic) : Option String :=
  match b.proper with
  | .bool => some "bool"
  | .int | .int64 | .uint | .uint64 | .uintptr => some "int64"
  | .int8 | .int16 | .int32 | .uint8 | .uint16 | .uint32 => some "int32"
  | .float32 | .float64 => some "double"
  | .string => some "string"
  | _ => none

def wellKnown : List (TypeName × String) :=
  let foreign (path name : String) : TypeName := { home := some path, name }
  [(foreign "time" "Time", "datetime"), (foreign "time" "Duration", "int64"),
    (foreign "encoding/json" "RawMessage", "object"), (foreign "math/big" "Int", "string")]

def objectRef : TypeRef := .named "object"

def isOctet (w : World) (t : SourceType) : Bool :=
  match w.unalias t with
  | .basic b => b.proper == .uint8
  | _ => false

/-- A part of a type, and what a failure to convert it is said to be about. -/
structure Part where
  type : SourceType
  context : Option String := none

def Part.blame (p : Part) (f : Failure) : Failure := p.context.elim f f.within

/-- What one type becomes: a reference or a failure at once, what another type becomes, with a change, or a reference
whose arguments are what its parts become. -/
inductive Plan where
  | answer (result : Except Failure TypeRef)
  | follow (type : SourceType) (build : TypeRef → TypeRef)
  | compose (head : RefHead) (parts : List Part)

def listHead : RefHead := { name := "List", isList := true }

def dictionaryHead : RefHead := { name := "Dictionary", isDictionary := true }

/-- Work on the types of a package, which may fail, and which may not end. -/
abbrev Extraction := ExceptT Failure Option

def Extraction.within {α : Type} (x : Extraction α) (context : String) : Extraction α := x.adapt (·.within context)

structure Site where
  world : World
  options : Options

namespace Site

variable (s : Site)

def headOf (path : String) (name : TypeName) : RefHead := { name := name.name, ns := s.options.namespaceOf path }

def namedPlan (name : TypeName) (arguments : List SourceType) : Plan :=
  match name.home, wellKnown.lookup name with
  | none, _ => .answer (.ok objectRef)
  | some _, some wire => .answer (.ok (.named wire))
  | some path, none =>
    match s.world.underlying (.named name arguments) with
    | .record _ =>
      if isExported name.name then .compose (s.headOf path name) (arguments.map fun t => { type := t })
      else .answer (.error (TypeDefect.unexported name.name).toFailure)
    | .interface _ _ => .answer (.ok objectRef)
    | .basic b =>
      if s.world.isEnum name arguments && isExported name.name then .compose (s.headOf path name) []
      else .follow (.basic b) id
    | other => .follow other id

def plan (t : SourceType) : Plan :=
  match s.world.unalias t with
  | .basic b =>
    match basicName? b with
    | some name => .answer (.ok (.named name))
    | none => .answer (.error (TypeDefect.unsupported b.name).toFailure)
  | .pointer target => .follow target TypeRef.orNull
  | .slice element | .array _ element =>
    if isOctet s.world element then .answer (.ok (.named "string")) else .compose listHead [{ type := element }]
  | .map key value => .compose dictionaryHead [{ type := key, context := some "map key" }, { type := value }]
  | .interface _ _ => .answer (.ok objectRef)
  | .parameter name _ => .answer (.ok (.named name))
  | .named name arguments => s.namedPlan name arguments
  | _ => .answer (.error (TypeDefect.unsupported (s.world.text fullPath t)).toFailure)

mutual
def convert (s : Site) (t : SourceType) : Option (Except Failure TypeRef) :=
  match s.plan t with
  | .answer result => some result
  | .follow u build => do
    let result ← s |>.convert u
    return result.map build
  | .compose head parts => do
    let refs ← s |>.convertAll parts
    return refs.map fun refs => .mk head (refs.map some)
partial_fixpoint

def convertAll (s : Site) : List Part → Option (Except Failure (List TypeRef))
  | [] => some (.ok [])
  | part :: parts => do
    let result ← s |>.convert part.type
    match result with
    | .error f => return .error (part.blame f)
    | .ok r =>
      let refs ← s |>.convertAll parts
      return refs.map (r :: ·)
partial_fixpoint
end

def ref (t : SourceType) : Extraction TypeRef := s.convert t

def marker (name : TypeName) (arguments : List SourceType) : Extraction TypeRef := do
  return .within "" name.name (← arguments.mapM s.ref)

/-- The reference to a base type or a term of a constraint, which has to be a name. -/
def base (otherwise : String → TypeDefect) (t : SourceType) : Extraction TypeRef :=
  match s.world.unalias t with
  | .named name arguments =>
    if s.world.isInterface (.named name arguments) then s.marker name arguments else s.ref (.named name arguments)
  | _ => throw (otherwise (s.world.text fullPath t)).toFailure

def pointee : SourceType → SourceType
  | .pointer target => target
  | other => other

def embedded (t : SourceType) : Extraction TypeRef := s.base .notNamed (pointee t)

/-- The terms of a constraint that is no name: what it embeds, or the constraint itself if it is no interface. -/
def constraintTerms (w : World) (t : SourceType) : List SourceType :=
  match w.underlying t with
  | .interface _ embedded => embedded
  | _ => [t]

/-- The terms of a constraint.  Predeclared names have none, and neither has a constraint that all types meet. -/
def terms (w : World) (t : SourceType) : List SourceType :=
  match w.unalias t with
  | .named name arguments => if name.home.isNone then [] else [.named name arguments]
  | bare => if w.admitsAll bare then [] else constraintTerms w bare

def constraints (t : SourceType) : Extraction (List TypeRef) :=
  (terms s.world t).mapM (s.base .inexpressible)

end Site

inductive DeclDefect where
  | noResult (kind : Kind)
  | notType (expression : String)
  | unreadable (expression message : String)
  | remoteEnum (name : String)
  | noOwner (name owner : String)
  | noCodes (name : String)
  deriving DecidableEq

def DeclDefect.toFailure : DeclDefect → Failure
  | noResult kind => .malformed ("contract:" ++ kind.name ++ " needs a result type")
  | notType expression => .malformed ("result " ++ Text.quoted expression ++ " is not a type")
  | unreadable expression message => (Failure.malformed message).within ("result type " ++ Text.quoted expression)
  | remoteEnum name => .malformed (name ++ ": only structs can be commands, queries or operations")
  | noOwner name owner =>
    .malformed (name ++ ": contract:errors names " ++ owner ++ ", which is not an exported struct in the package")
  | noCodes name => .malformed (name ++ ": error codes must have an integer type")

def narrowed (value : Int) : Int64 := Int64.ofInt value

def enumMembers (members : List World.Member) : List (Option EnumMember) :=
  members.map fun m => some { name := m.name, value := narrowed (World.intOf m.value) }

namespace Site

def typeParameter (s : Site) (p : TypeParam) : Extraction (Option TypeParameter) := do
  let refs ← (s.constraints p.constraint).within ("constraint of " ++ p.name)
  return some { name := p.name, constraints := refs.map some }

/-- What a field of a record adds: a base type if it is embedded, a field if it is exported. -/
def member (s : Site) : FieldHead × SourceType → Extraction (List (Option TypeRef) × List (Option Field))
  | (head, t) =>
    match wireName head.tag with
    | .hidden => return ([], [])
    | .shown wire =>
      if head.isEmbedded then do
        return ([some (← (s.embedded t).within ("embedded " ++ head.name))], [])
      else if isExported head.name then do
        let ref ← (s.ref t).within ("field " ++ head.name)
        return ([], [some { name := wire.getD head.name, type := some ref }])
      else return ([], [])

def result (s : Site) (here : Package) (d : Directives) : Extraction (Option TypeRef) :=
  if !d.kind.hasResult then return none
  else if d.result.isEmpty then throw (DeclDefect.noResult d.kind).toFailure
  else match s.world.evaluate here d.result with
    | .error message => throw (DeclDefect.unreadable d.result message).toFailure
    | .ok none => throw (DeclDefect.notType d.result).toFailure
    | .ok (some t) => do return some (← (s.ref t).within ("result type " ++ Text.quoted d.result))

def typeBody (s : Site) (here : Package) (spec : TypeSpec) (fields : List (FieldHead × SourceType)) (d : Directives) :
    Extraction TypeBody := do
  let typeParameters ← spec.params.mapM s.typeParameter
  let members ← fields.mapM s.member
  let baseTypes := members.flatMap (·.1)
  return { kind := d.kind, typeParameters, baseTypes, fields := members.flatMap (·.2), result := ← s.result here d }

end Site

/-- The types of a package that may appear in a contract, with their directives. -/
def candidates (p : Package) (directives : List (String × Directives)) : List (TypeSpec × Directives) :=
  (p.orderedSpecs.filter fun spec => isExported spec.name && !spec.isAlias).map fun spec =>
    (spec, (directives.lookup spec.name).getD {})

/-- What a type becomes; nothing if it is neither a record nor an enumeration. -/
def declaration? (s : Site) (p : Package) (spec : TypeSpec) (d : Directives) : Extraction (Option Declaration) :=
  let name : TypeName := { home := some p.path, name := spec.name }
  let full := p.path ++ "." ++ spec.name
  let head : DeclHead := { ns := s.options.namespaceOf p.path, name := spec.name, excluded := d.isExcluded }
  match s.world.underlying (.named name []) with
  | .record fields => do
    let body ← (s.typeBody p spec fields d).within full
    return some (.type head body [])
  | .basic _ =>
    if !s.world.isEnum name [] then return none
    else if d.kind != .plain then throw (DeclDefect.remoteEnum full).toFailure
    else return some (.enum head (enumMembers (s.world.members name [])))
  | _ => return none

def nestInto (owner : String) (codes : Declaration) : List Declaration → List Declaration
  | [] => []
  | .type head body nested :: rest =>
    if head.name == owner then .type head body (nested ++ [codes]) :: rest
    else .type head body nested :: nestInto owner codes rest
  | d :: rest => d :: nestInto owner codes rest

def addCodes (s : Site) (p : Package) (declarations : List Declaration) (spec : TypeSpec) (owner : String) :
    Except Failure (List Declaration) :=
  let name : TypeName := { home := some p.path, name := spec.name }
  let full := p.path ++ "." ++ spec.name
  if !declarations.any (fun d => d.name == owner && d.body?.isSome) then
    .error (DeclDefect.noOwner full owner).toFailure
  else if !s.world.isInteger (.named name []) then .error (DeclDefect.noCodes full).toFailure
  else
    let constants : List Contract.Constant :=
      (s.world.members name []).map fun m => { name := m.name, value := some m.value }
    let head : DeclHead := { ns := s.options.namespaceOf p.path, name := s.options.errorCodes }
    .ok (nestInto owner (.type head { constants } []) declarations)

def program (w : World) (p : Package) (options : Options) : Extraction Program := do
  let directives ← ofExcept (p.directives.mapError (·.within ("package " ++ p.path)))
  let site : Site := { world := w, options }
  let found := candidates p directives
  let declared ← (found.filter (·.2.errorsOf.isNone)).mapM fun c => do return (c.2, ← declaration? site p c.1 c.2)
  let declarations ← ofExcept ((found.filter (·.2.errorsOf.isSome)).foldlM
    (fun ds c => addCodes site p ds c.1 (c.2.errorsOf.getD "")) (declared.filterMap (·.2)))
  let aliases := declared.filterMap fun (d, declaration) =>
    match declaration with
    | some (.type head _ _) => if d.aliases.isEmpty then none else some (qualify head.ns head.name, d.aliases)
    | _ => none
  return { name := options.program, version := defaultSchema, aliases, declarations }

end Covenant.Extract
