import Covenant.Naming.Table
import Covenant.Typing.Primitive

/-!
# Binding of references

A bound type is a reference together with what it resolves to.  `Binder.bind` resolves a reference within a scope: an
unqualified name is looked up as a type parameter, a primitive, a top-level declaration, a declaration of a namespace
in scope and a marker, in this order.
-/

namespace Covenant.Binding

open Contract (TypeRef)
open Naming (Entry)
open Typing (Primitive)

/-- The reference that was bound, and whether null is among its values. -/
structure Occurrence where
  ref : TypeRef
  nullable : Bool
  deriving Inhabited

inductive Bound where
  | primitive (occ : Occurrence) (category : Primitive) (target : String)
  | named (occ : Occurrence) (entry : Entry) (arguments : List Bound)
  | enum (occ : Occurrence) (entry : Entry)
  | param (occ : Occurrence) (name : String)
  | list (occ : Occurrence) (element : Bound)
  | map (occ : Occurrence) (key value : Bound)
  | marker (occ : Occurrence) (name : String) (arguments : List Bound)
  deriving Inhabited

namespace Bound

def occurrence : Bound → Occurrence
  | primitive occ _ _ | named occ _ _ | enum occ _ | param occ _ | list occ _ | map occ _ _ | marker occ _ _ => occ

def ref (b : Bound) : TypeRef := b.occurrence.ref

def nullable (b : Bound) : Bool := b.occurrence.nullable

def isPrimitive (category : Primitive) : Bound → Bool
  | primitive _ c _ => c == category
  | _ => false

def declared? : Bound → Option Entry
  | named _ entry _ => some entry
  | _ => none

def children : Bound → List Bound
  | named _ _ as | marker _ _ as => as
  | list _ element => [element]
  | map _ key value => [key, value]
  | _ => []

/-- Whether keys of the type can be written as the keys of a JSON object. -/
def isKey : Bound → Bool
  | enum _ _ => true
  | primitive _ category _ => category != .dynamic && category != .boolean
  | _ => false

end Bound

open Contract (RefHead qualify)
open Naming (Table)
open Typing (Mapper)

structure Scope where
  /-- The namespaces in which unqualified names of declarations are looked up. -/
  namespaces : List String := []
  params : List String := []

def Scope.inside (e : Entry) : Scope :=
  { namespaces := [e.ns], params := (e.decl.body?.map (·.parameterNames)).getD [] }

inductive BindDefect where
  | missing
  | listArguments (ref : String)
  | dictionaryArguments (ref : String)
  | keyType (ref key : String)
  | paramArguments (name : String)
  | primitiveArguments (name : String)
  | enumArguments (decl : String)
  | arity (decl : String) (expected got : Nat) (ref : String)
  | unresolved (ref : String)
  deriving DecidableEq, Repr

def BindDefect.toFailure : BindDefect → Failure
  | missing => .malformed "missing type reference"
  | listArguments ref => .malformed ("array-like type " ++ ref ++ " needs one element type")
  | dictionaryArguments ref => .malformed ("dictionary type " ++ ref ++ " needs key and value types")
  | keyType ref key =>
    (Failure.malformed ("dictionary " ++ ref ++ " has unsupported key type " ++ key)).withHint
      "JSON object keys are strings; use a string, number, date or enum key"
  | paramArguments name => .malformed ("type parameter " ++ name ++ " cannot take arguments")
  | primitiveArguments name => .malformed ("primitive " ++ name ++ " cannot take arguments")
  | enumArguments decl => .malformed ("enum " ++ decl ++ " cannot take arguments")
  | arity decl expected got ref =>
    .malformed (decl ++ " takes " ++ toString expected ++ " type arguments, got " ++ toString got ++ " in " ++ ref)
  | unresolved ref => .unresolved ref ("unresolved type reference " ++ ref)

structure Binder where
  table : Table
  types : Mapper

namespace Binder

def build (targets : Typing.Targets) (overrides : List (String × String)) (policy : Naming.Policy)
    (p : Contract.Program) : Except Failure Binder := do
  let types ← (Mapper.build targets overrides).mapError (·.toFailure)
  let table ← (Table.resolve p policy).mapError (·.toFailure)
  return { table, types }

/-- The declaration that a name means: as it stands, or else in the first namespace of the scope that has it. -/
def resolve? (b : Binder) (scope : Scope) (h : RefHead) : Option Entry :=
  match b.table.lookup (qualify h.ns h.name) with
  | some e => some e
  | none =>
    if h.ns.isEmpty then
      (scope.namespaces.filter (!·.isEmpty)).findSome? fun ns => b.table.lookup (qualify ns h.name)
    else none

mutual

def bind (b : Binder) (scope : Scope) : TypeRef → Except BindDefect Bound
  | .mk h as =>
    let text := (TypeRef.mk h as).text
    let occ : Occurrence := { ref := .mk h as, nullable := h.nullable }
    if h.isList then
      match as with
      | [a] => return .list occ (← bindOptional b scope a)
      | _ => .error (.listArguments text)
    else if h.isDictionary then
      match as with
      | [k, v] => do
        let key ← bindOptional b scope k
        let value ← bindOptional b scope v
        if key.isKey then return .map occ key value else throw (.keyType text key.ref.text)
      | _ => .error (.dictionaryArguments text)
    else if h.ns.isEmpty && scope.params.contains h.name then
      if as.isEmpty then .ok (.param occ h.name) else .error (.paramArguments h.name)
    else match (if h.ns.isEmpty then b.types.category? h.name else none) with
      | some category =>
        if as.isEmpty then .ok (.primitive occ category (b.types.targets category))
        else .error (.primitiveArguments h.name)
      | none =>
        match b.resolve? scope h with
        | some e =>
          match e.decl with
          | .enum _ _ => if as.isEmpty then .ok (.enum occ e) else .error (.enumArguments e.qualified)
          | .type _ body _ =>
            if as.length = body.typeParameters.length then return .named occ e (← bindArguments b scope as)
            else .error (.arity e.qualified body.typeParameters.length as.length text)
        | none =>
          if h.ns.isEmpty && b.table.policy.isUnmangled h.name then
            return .marker occ h.name (← bindArguments b scope as)
          else .error (.unresolved text)

def bindOptional (b : Binder) (scope : Scope) : Option TypeRef → Except BindDefect Bound
  | none => .error .missing
  | some r => bind b scope r

def bindArguments (b : Binder) (scope : Scope) : List (Option TypeRef) → Except BindDefect (List Bound)
  | [] => .ok []
  | a :: as => do
    let bound ← bindOptional b scope a
    return bound :: (← bindArguments b scope as)

end

end Binder

end Covenant.Binding
