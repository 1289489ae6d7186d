import Covenant.Text.Basic

/-!
# Contract programs

A program is a list of declarations: enumerations, and types with fields, constants, type parameters, base types, a
result and nested declarations.  A document may leave entries of its lists out, so they are optional.
`Program.visits` lists every declaration with those that enclose it; the namespace of the outermost one and the path
of names make the qualified name, which identifies a declaration.
-/

namespace Covenant.Contract

inductive Kind where
  | plain
  | command
  | query
  | operation
  /-- A kind outside of the four declared ones. -/
  | unknown
  deriving DecidableEq, Repr

namespace Kind

def name : Kind → String
  | plain => "plain"
  | command => "command"
  | query => "query"
  | operation => "operation"
  | unknown => "unknown"

def declared : List Kind := [plain, command, query, operation]

def ofNumber (n : Int) : Kind := if n < 0 then unknown else declared.getD n.toNat unknown

def ofName? (s : String) : Option Kind :=
  if s.isEmpty then some plain else declared.find? fun k => Text.equalFold k.name s

def isRemote : Kind → Bool
  | command | query | operation => true
  | _ => false

def hasResult : Kind → Bool
  | query | operation => true
  | _ => false

end Kind

def routePath (kind : Kind) (key : String) : String := "/" ++ kind.name ++ "/" ++ key

/-- A reference without its arguments.  For a nested declaration the name is the dotted nesting path. -/
structure RefHead where
  name : String := ""
  ns : String := ""
  nullable : Bool := false
  isList : Bool := false
  isDictionary : Bool := false
  deriving DecidableEq, Inhabited

inductive TypeRef where
  | mk (head : RefHead) (arguments : List (Option TypeRef))
  deriving Inhabited

def qualify (ns path : String) : String := if ns.isEmpty then path else ns ++ "." ++ path

namespace TypeRef

def head : TypeRef → RefHead
  | mk h _ => h

def arguments : TypeRef → List (Option TypeRef)
  | mk _ as => as

mutual
def same : TypeRef → TypeRef → Bool
  | mk h as, mk k bs => h == k && sameArguments as bs

def sameArguments : List (Option TypeRef) → List (Option TypeRef) → Bool
  | [], [] => true
  | none :: as, none :: bs => sameArguments as bs
  | some a :: as, some b :: bs => same a b && sameArguments as bs
  | _, _ => false
end

instance : BEq TypeRef := ⟨same⟩

def named (name : String) : TypeRef := mk { name } []

def within (ns name : String) (arguments : List TypeRef) : TypeRef := mk { name, ns } (arguments.map some)

def listOf (element : TypeRef) : TypeRef := mk { name := "List", isList := true } [some element]

def orNull : TypeRef → TypeRef
  | mk h as => mk { h with nullable := true } as

def qualified (r : TypeRef) : String := qualify r.head.ns r.head.name

def element? (r : TypeRef) : Option TypeRef := if r.head.isList then r.arguments.head?.join else none

def key? (r : TypeRef) : Option TypeRef :=
  match r.head.isDictionary, r.arguments with
  | true, key :: _ :: _ => key
  | _, _ => none

def value? (r : TypeRef) : Option TypeRef :=
  match r.head.isDictionary, r.arguments with
  | true, _ :: value :: _ => value
  | _, _ => none

def missingText : String := "<nil>"

def textOf (h : RefHead) (arguments : List String) : String :=
  let body :=
    match h.isList, h.isDictionary, arguments with
    | true, _, [element] => element ++ "[]"
    | _, true, [key, value] => "\x7b" ++ key ++ ": " ++ value ++ "\x7d"
    | _, _, [] => qualify h.ns h.name
    | _, _, as => qualify h.ns h.name ++ "<" ++ Text.join ", " as ++ ">"
  if h.nullable then body ++ "?" else body

mutual
/-- The reference as diagnostics show it, such as `App.Page<App.User>?`. -/
def text : TypeRef → String
  | mk h as => textOf h (argumentTexts as)

def argumentTexts : List (Option TypeRef) → List String
  | [] => []
  | none :: as => missingText :: argumentTexts as
  | some a :: as => text a :: argumentTexts as
end

def text? : Option TypeRef → String
  | none => missingText
  | some r => r.text

abbrev Bindings := List (String × TypeRef)

/-- Whether a reference can name a type parameter: it has no namespace and no arguments and is no collection. -/
def isSimple : TypeRef → Bool
  | mk h as => h.ns.isEmpty && as.isEmpty && !h.isList && !h.isDictionary

mutual
/-- The reference with every bound parameter replaced; a nullable occurrence makes its replacement nullable. -/
def substitute (bindings : Bindings) : TypeRef → TypeRef
  | mk h [] =>
    if (mk h []).isSimple then
      match bindings.lookup h.name with
      | some r => if h.nullable then r.orNull else r
      | none => mk h []
    else mk h []
  | mk h (a :: as) => mk h (substituteArguments bindings (a :: as))

def substituteArguments (bindings : Bindings) : List (Option TypeRef) → List (Option TypeRef)
  | [] => []
  | none :: as => none :: substituteArguments bindings as
  | some a :: as => some (substitute bindings a) :: substituteArguments bindings as
end

end TypeRef

inductive Literal where
  | int (value : Int)
  | string (value : String)
  | float (digits : String)
  | bool (value : Bool)
  deriving DecidableEq, Repr

namespace Literal

def sortName : Literal → String
  | int _ => "Int"
  | string _ => "String"
  | float _ => "Float"
  | bool _ => "Bool"

end Literal

structure EnumMember where
  name : String := ""
  value : Int64 := 0
  deriving DecidableEq

/-- A serialized member of a type; its name is the exact wire name. -/
structure Field where
  name : String := ""
  type : Option TypeRef := none

structure Constant where
  name : String := ""
  value : Option Literal := none
  deriving DecidableEq, Inhabited

structure TypeParameter where
  name : String := ""
  constraints : List (Option TypeRef) := []

structure DeclHead where
  ns : String := ""
  name : String := ""
  excluded : Bool := false
  deriving DecidableEq, Inhabited

structure TypeBody where
  kind : Kind := .plain
  typeParameters : List (Option TypeParameter) := []
  baseTypes : List (Option TypeRef) := []
  fields : List (Option Field) := []
  constants : List Constant := []
  result : Option TypeRef := none
  deriving Inhabited

inductive Declaration where
  | enum (head : DeclHead) (members : List (Option EnumMember))
  | type (head : DeclHead) (body : TypeBody) (nested : List Declaration)
  deriving Inhabited

namespace Declaration

def head : Declaration → DeclHead
  | enum h _ => h
  | type h _ _ => h

def name (d : Declaration) : String := d.head.name

def ns (d : Declaration) : String := d.head.ns

def isExcluded (d : Declaration) : Bool := d.head.excluded

def nested : Declaration → List Declaration
  | enum _ _ => []
  | type _ _ ds => ds

def body? : Declaration → Option TypeBody
  | enum _ _ => none
  | type _ b _ => some b

def kind? (d : Declaration) : Option Kind := d.body?.map (·.kind)

def isRemote (d : Declaration) : Bool := d.kind?.any Kind.isRemote

end Declaration

namespace TypeBody

def parameters (b : TypeBody) : List TypeParameter := b.typeParameters.filterMap id

def parameterNames (b : TypeBody) : List String := b.parameters.map (·.name)

def parameter? (b : TypeBody) (name : String) : Option TypeParameter := b.parameters.find? (·.name == name)

end TypeBody

structure Program where
  name : String := ""
  version : String := ""
  /-- Further wire names of declarations, by qualified name. -/
  aliases : List (String × List String) := []
  declarations : List Declaration := []

def Program.aliasKeys (p : Program) : List String := Text.sortedSet (p.aliases.map (·.1))

def Program.aliasesOf (p : Program) (qualified : String) : List String := (p.aliases.lookup qualified).getD []

structure Visit where
  decl : Declaration
  parents : List Declaration := []
  deriving Inhabited

namespace Visit

def names (v : Visit) : List String := v.parents.map (·.name) ++ [v.decl.name]

def path (v : Visit) : String := Text.join "." v.names

def ns (v : Visit) : String :=
  match v.parents with
  | outermost :: _ => outermost.ns
  | [] => v.decl.ns

/-- The identity of the declaration, also its wire key. -/
def qualified (v : Visit) : String := qualify v.ns v.path

def parent? (v : Visit) : Option Declaration := v.parents.getLast?

def parentQualified? (v : Visit) : Option String :=
  match v.parents.getLast? with
  | none => none
  | some p => some { decl := p, parents := v.parents.dropLast : Visit }.qualified

def isExcluded (v : Visit) : Bool := v.decl.isExcluded || v.parents.any (·.isExcluded)

end Visit

mutual

def Declaration.visits (parents : List Declaration) : Declaration → List Visit
  | .enum h members => [{ decl := .enum h members, parents }]
  | .type h body nested =>
    { decl := .type h body nested, parents } :: visitsOf (parents ++ [.type h body nested]) nested

def visitsOf (parents : List Declaration) : List Declaration → List Visit
  | [] => []
  | d :: ds => d.visits parents ++ visitsOf parents ds

end

def Program.visits (p : Program) : List Visit := visitsOf [] p.declarations

/-- The declaration with a qualified name; of several the last. -/
def Program.visit? (p : Program) (qualified : String) : Option Visit :=
  p.visits.reverse.find? (·.qualified == qualified)

def Program.qualifiedNames (p : Program) : List String := Text.sortedSet (p.visits.map (·.qualified))

/-- Which declarations to drop besides the flagged ones. -/
structure ExcludeRules where
  namespaces : List String := []
  types : List String := []
  deriving DecidableEq

def inNamespace (ns : String) (outer : List String) : Bool :=
  outer.any fun o => ns == o || Text.hasPrefix (o ++ ".") ns

namespace ExcludeRules

/-- Whether a declaration with the given namespace and path is dropped by itself. -/
def drops (rules : ExcludeRules) (ns path : String) (d : Declaration) : Bool :=
  d.isExcluded || rules.types.contains (qualify ns path) || inNamespace ns rules.namespaces

mutual

/-- The declaration without what is dropped inside it, or nothing. -/
def keep? (rules : ExcludeRules) (ns path : String) : Declaration → Option Declaration
  | .enum h members => if rules.drops ns path (.enum h members) then none else some (.enum h members)
  | .type h body nested =>
    if rules.drops ns path (.type h body nested) then none
    else some (.type h body (keepAll rules ns path nested))

def keepAll (rules : ExcludeRules) (ns path : String) : List Declaration → List Declaration
  | [] => []
  | d :: ds => (keep? rules ns (path ++ "." ++ d.name) d).toList ++ keepAll rules ns path ds

end

mutual

/-- The qualified names that are dropped; `dropped` says that the declaration around this one is. -/
def removed (rules : ExcludeRules) (dropped : Bool) (ns path : String) : Declaration → List String
  | .enum h members => if dropped || rules.drops ns path (.enum h members) then [qualify ns path] else []
  | .type h body nested =>
    let dropped := dropped || rules.drops ns path (.type h body nested)
    (if dropped then [qualify ns path] else []) ++ removedAll rules dropped ns path nested

def removedAll (rules : ExcludeRules) (dropped : Bool) (ns path : String) : List Declaration → List String
  | [] => []
  | d :: ds => removed rules dropped ns (path ++ "." ++ d.name) d ++ removedAll rules dropped ns path ds

end

end ExcludeRules

/-- The program without excluded declarations, and the qualified names that were removed, in order. -/
def Program.exclude (p : Program) (rules : ExcludeRules) : Program × List String :=
  let removed := p.declarations.flatMap fun d => rules.removed false d.ns d.name d
  ({ p with
      declarations := p.declarations.filterMap fun d => rules.keep? d.ns d.name d
      aliases := p.aliases.filter fun a => !removed.contains a.1 },
    Text.sorted removed)

structure Route where
  kind : Kind
  key : String
  /-- Kind and key of a declaration, or the alias as it stands. -/
  path : String
  target : String
  isAlias : Bool := false
  deriving DecidableEq

/-- The remote declarations that are not excluded, by kind and qualified name. -/
def Program.calls (p : Program) : List (Kind × String) :=
  p.visits.filterMap fun v =>
    match v.decl with
    | .type _ body _ => if body.kind.isRemote && !v.isExcluded then some (body.kind, v.qualified) else none
    | .enum .. => none

def byKey (routes : List Route) : List Route := Text.sortBy (fun a b => Text.before a.key b.key) routes

def Program.routes (p : Program) : List Route :=
  byKey (p.calls.map fun (kind, q) => { kind, key := q, path := routePath kind q, target := q }) ++
  byKey (p.calls.flatMap fun (kind, q) =>
    (p.aliasesOf q).map fun a => { kind, key := a, path := a, target := q, isAlias := true })

end Covenant.Contract
