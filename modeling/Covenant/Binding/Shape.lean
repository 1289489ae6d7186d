import Covenant.Binding.Bind

/-!
# Shapes of types

The shape of a type is everything that its rendering needs, fully resolved: type parameters with their constraints,
the generated base and the markers, the fields of the base chain and its own, constants and the result.  An
error-code container is a nested type with a given name; it also shows the constants of the containers it extends.
-/

namespace Covenant.Binding

open Contract (Constant TypeBody TypeRef)
open Naming (Entry)

structure ShapeField where
  wire : String
  ident : String := ""
  type : Bound
  inherited : Bool := false

inductive StaticValue where
  | int (value : Int)
  | string (value : String)
  deriving DecidableEq

structure ShapeConstant where
  name : String
  ident : String
  value : StaticValue

structure ShapeParam where
  name : String
  constraints : List Bound

structure Shape where
  entry : Entry
  body : TypeBody
  params : List ShapeParam
  base? : Option Bound
  markers : List Bound
  /-- The inherited fields, those of the root first, and then its own. -/
  fields : List ShapeField
  constants : List ShapeConstant
  result? : Option Bound
  errorCodes : Bool
  deriving Inhabited

namespace Shape

def ownFields (s : Shape) : List ShapeField := s.fields.filter (!·.inherited)

def inheritedFields (s : Shape) : List ShapeField := s.fields.filter (·.inherited)

def isRemote (s : Shape) : Bool := s.body.kind.isRemote

end Shape

namespace Binder

variable (b : Binder)

def bindFor (context : String) (scope : Scope) (r : Option TypeRef) : Except Failure Bound :=
  (b.bindOptional scope r).mapError fun d => d.toFailure.within context

def shapeParams (e : Entry) (body : TypeBody) : Except Failure (List ShapeParam) :=
  body.parameters.mapM fun p => do
    let constraints ← p.constraints.mapM (b.bindFor ("constraint of " ++ p.name ++ " on " ++ e.qualified) (.inside e))
    return { name := p.name, constraints }

/-- Sorts base types into the generated base and the markers; a second generated base is refused. -/
def shapeBases (b : Binder) (e : Entry) :
    Option Bound → List Bound → List (Option TypeRef) → Except Failure (Option Bound × List Bound)
  | base?, markers, [] => .ok (base?, markers)
  | base?, markers, r :: rs => do
    let bound ← b.bindFor ("base type of " ++ e.qualified) (.inside e) r
    match bound, base?.bind (·.declared?) with
    | .marker .., _ => shapeBases b e base? (markers ++ [bound]) rs
    | .named _ _ _, none => shapeBases b e (some bound) markers rs
    | .named _ second _, some first =>
      throw ((Failure.malformed (e.qualified ++ " extends both " ++ first.qualified ++ " and " ++
        second.qualified)).withHint ("a contract type may extend at most one generated type; " ++
        "list framework interfaces as unmangled markers"))
    | _, _ => throw (.malformed (e.qualified ++ " cannot extend " ++ TypeRef.text? r))

/-- What the parameters of a base stand for in the type that names it with these arguments. -/
def baseBindings (body : TypeBody) (arguments : List (Option TypeRef)) : TypeRef.Bindings :=
  ((body.parameterNames.zip arguments).filterMap fun (name, a) => a.map (name, ·)).reverse

/-- The first reference that binds to a declared type; references before it have to be bound. -/
def firstNamed (b : Binder) (context : String) (scope : Scope) : List (Option TypeRef) → Except Failure (Option Bound)
  | [] => .ok none
  | r :: rs => do
    let bound ← b.bindFor context scope r
    match bound with
    | .named .. => return some bound
    | _ => firstNamed b context scope rs

/-- The fields of a base and of its own bases, those of the root first.  `seen` holds the declarations of the chain so
far; every step adds an entry of the table, so `fuel` beyond the size of the table is never used up. -/
def chainFields (b : Binder) (e : Entry) : Nat → List String → Option Bound → Except Failure (List ShapeField)
  | fuel + 1, seen, some (.named occ base _) =>
    match base.decl with
    | .enum _ _ => .ok []
    | .type head body _ => do
      if seen.contains base.qualified then
        throw (.malformed (e.qualified ++ " has a cyclic base chain through " ++ base.qualified))
      let bindings := baseBindings body occ.ref.arguments
      let scope := { Scope.inside e with namespaces := base.ns :: (Scope.inside e).namespaces }
      let level ← (body.fields.filterMap id).mapM fun f => do
        let type ← b.bindFor ("field " ++ base.qualified ++ "." ++ f.name ++ " inherited by " ++ e.qualified) scope
          (f.type.map (·.substitute bindings))
        return ({ wire := f.name, type, inherited := true } : ShapeField)
      let next ← b.firstNamed ("base type of " ++ head.name) scope
        (body.baseTypes.map (·.map (·.substitute bindings)))
      return (← chainFields b e fuel (base.qualified :: seen) next) ++ level
  | _, _, _ => .ok []

def repeated? : List String → List String → Option String
  | _, [] => none
  | seen, a :: as => if seen.contains a then some a else repeated? (a :: seen) as

def identify (owner : String) (fields : List ShapeField) : Except Failure (List ShapeField) :=
  match repeated? [] (fields.map (·.wire)) with
  | some wire =>
    .error ((Failure.malformed (owner ++ ": field " ++ wire ++
      " is declared on both the type and its base")).withHint "remove the redeclared field from the derived type")
  | none => do
    let idents ← (b.table.policy.members owner (fields.map (·.wire))).mapError (·.toFailure)
    return fields.zipWith (fun f ident => { f with ident }) idents

def chainConstants (b : Binder) : Nat → List String → Option Bound → List Constant
  | fuel + 1, seen, some (.named _ base _) =>
    match seen.contains base.qualified, base.decl with
    | false, .type _ body _ =>
      let scope : Scope := { namespaces := [base.ns] }
      let next := body.baseTypes.findSome? fun r =>
        match b.bindOptional scope r with
        | .ok (.named occ entry as) => some (.named occ entry as)
        | _ => none
      chainConstants b fuel (base.qualified :: seen) next ++ body.constants
    | _, _ => []
  | _, _, _ => []

/-- Of constants with the same name only the first, and none whose name is in `own`. -/
def withoutOwn (own : List String) : List Constant → List Constant
  | [] => []
  | c :: cs => if own.contains c.name then withoutOwn own cs else c :: withoutOwn (c.name :: own) cs

/-- The constants of a type.  Those that a container of error codes inherits come first; its own values win. -/
def declaredConstants (e : Entry) (body : TypeBody) (base? : Option Bound) (errorCodes : Bool) : List Constant :=
  if errorCodes then
    withoutOwn (body.constants.map (·.name))
      (b.chainConstants (b.table.entries.length + 1) [e.qualified] base?) ++ body.constants
  else body.constants

def shapeConstant (owner : String) (c : Constant) (ident : String) : Except Failure ShapeConstant :=
  match c.value with
  | some (.int n) => .ok { name := c.name, ident, value := .int n }
  | some (.string s) => .ok { name := c.name, ident, value := .string s }
  | some v =>
    .error (.malformed (owner ++ "." ++ c.name ++ ": constant must be an integer or string, got " ++ v.sortName))
  | none => .error (.plain (owner ++ "." ++ c.name ++ ": constant without a value"))

def shapeConstants (owner : String) (constants : List Constant) : Except Failure (List ShapeConstant) := do
  let idents ← (b.table.policy.members owner (constants.map (·.name))).mapError (·.toFailure)
  (constants.zip idents).mapM fun (c, ident) => shapeConstant owner c ident

def shapeResult (e : Entry) (body : TypeBody) : Except Failure (Option Bound) :=
  match body.result with
  | some r => return some (← b.bindFor ("result of " ++ e.qualified) (.inside e) (some r))
  | none =>
    if body.kind.hasResult then .error (.malformed (body.kind.name ++ " " ++ e.qualified ++ " has no result type"))
    else .ok none

/-- The shape of a type.  `errorCodesName` is the name of nested containers of error codes. -/
def shapeOf (errorCodesName : String) (e : Entry) : Except Failure Shape :=
  match e.decl with
  | .enum _ _ => .error (.impossible (e.qualified ++ " is not a type declaration"))
  | .type head body _ => do
    let errorCodes := e.parent?.isSome && head.name == errorCodesName
    let params ← b.shapeParams e body
    let (base?, markers) ← b.shapeBases e none [] body.baseTypes
    let inherited ← b.chainFields e (b.table.entries.length + 1) [e.qualified] base?
    let own ← (body.fields.filterMap id).mapM fun f => do
      let type ← b.bindFor ("field " ++ e.qualified ++ "." ++ f.name) (.inside e) f.type
      return ({ wire := f.name, type } : ShapeField)
    let fields ← b.identify e.qualified (inherited ++ own)
    let result? ← b.shapeResult e body
    let constants ← b.shapeConstants e.qualified (b.declaredConstants e body base? errorCodes)
    return { entry := e, body, params, base?, markers, fields, constants, result?, errorCodes }

end Binder

end Covenant.Binding
