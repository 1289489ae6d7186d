import Mathlib.Data.List.Perm.Basic
import Covenant.Compile.Generate
import Covenant.Proofs.Binding.Words

/-!
# The meaning of codec expressions

`eval` gives a codec expression its value in a target language, over one type of values that holds both JSON values
and typed values.  What the core library of the language and the emitted classes do is a `Runtime`, and
`Runtime.Lawful` is what the codecs rest on: the conversions of numbers, instants, enumerations, classes and type
parameters are inverse to each other.

Closure variables and declarations share one scope: where a variable has the name of a declaration, the name leads to
a JSON value, which has no reader, and the expression that looks it up has no value.
-/

namespace Covenant.Emit

open Binding (Bound)

def Language.encodeStyle : Language → EncodeStyle
  | dart => Dart.encodeStyle
  | typescript => TypeScript.encodeStyle

/-- What values are made of, besides truth values and texts. -/
structure Domain where
  Number : Type
  Instant : Type
  Member : Type
  Instance : Type
  [decideNumber : DecidableEq Number]
  [decideInstant : DecidableEq Instant]
  [decideMember : DecidableEq Member]

attribute [instance] Domain.decideNumber Domain.decideInstant Domain.decideMember

inductive Value (D : Domain) where
  | null
  | bool (b : Bool)
  | number (x : D.Number)
  | text (s : String)
  | instant (i : D.Instant)
  | member (m : D.Member)
  | made (c : D.Instance)
  | list (vs : List (Value D))
  /-- A dictionary, with its entries in their order. -/
  | map (entries : List (Value D × Value D))
  /-- An object that is no dictionary, with its properties. -/
  | object (fields : List (String × Value D))

variable {D : Domain}

/-- Puts a value under a key.  A key that is there keeps its place. -/
def put {κ β : Type} (same : κ → κ → Bool) (k : κ) (v : β) : List (κ × β) → List (κ × β)
  | [] => [(k, v)]
  | (k', v') :: rest => if same k' k then (k', v) :: rest else (k', v') :: put same k v rest

/-- The entries that pairs make when they are put one after the other. -/
def collect {κ β : Type} (same : κ → κ → Bool) (pairs : List (κ × β)) : List (κ × β) :=
  pairs.foldl (fun entries p => put same p.1 p.2 entries) []

namespace Value

def isNull : Value D → Bool
  | null => true
  | _ => false

def text? : Value D → Option String
  | text s => some s
  | _ => none

def sameKey : Value D → Value D → Bool
  | bool a, bool b => a == b
  | number x, number y => x == y
  | text s, text t => s == t
  | instant i, instant j => i == j
  | member m, member n => m == n
  | _, _ => false

/-- A JSON object: in Dart a dictionary whose keys are texts, and in TypeScript an object. -/
def record (l : Language) (fields : List (String × Value D)) : Value D :=
  match l with
  | .dart => map (fields.map fun p => (text p.1, p.2))
  | .typescript => object fields

def fields? : Language → Value D → Option (List (String × Value D))
  | .dart, map entries => entries.mapM fun p => p.1.text?.map (·, p.2)
  | .typescript, object fields => some fields
  | _, _ => none

/-- JSON values, as the language represents them. -/
inductive IsJson (l : Language) : Value D → Prop
  | null : IsJson l null
  | bool (b : Bool) : IsJson l (bool b)
  | number (x : D.Number) : IsJson l (number x)
  | text (s : String) : IsJson l (text s)
  | list {vs : List (Value D)} : (∀ v ∈ vs, IsJson l v) → IsJson l (list vs)
  | record {fields : List (String × Value D)} : (∀ p ∈ fields, IsJson l p.2) → IsJson l (record l fields)

/-- Equal but for the order of the entries of dictionaries. -/
inductive Rearranged : Value D → Value D → Prop
  | refl (v : Value D) : Rearranged v v
  | list {vs ws : List (Value D)} : List.Forall₂ Rearranged vs ws → Rearranged (list vs) (list ws)
  | map {keys vs ws : List (Value D)} {entries : List (Value D × Value D)} : List.Forall₂ Rearranged vs ws →
      (keys.zip ws).Perm entries → Rearranged (map (keys.zip vs)) (map entries)

/-- The same value.  An object of TypeScript lists its properties in an order of its own, so that a dictionary that
was written to one and read again is the same dictionary with its entries in another order. -/
def Same : Language → Value D → Value D → Prop
  | .dart, v, w => v = w
  | .typescript, v, w => v.Rearranged w

end Value

/-- What the core library of a language and the emitted classes do. -/
structure Runtime (D : Domain) where
  IsInteger : D.Number → Prop
  IsDouble : D.Number → Prop
  toInteger : D.Number → D.Number
  toDouble : D.Number → D.Number
  numberText : D.Number → String
  readInteger : String → Option D.Number
  readDouble : String → Option D.Number
  instantText : D.Instant → String
  readInstant : String → Option D.Instant
  IsMember (enum : String) : D.Member → Prop
  memberNumber : D.Member → D.Number
  readMember (enum : String) : D.Number → Option D.Member
  /-- The instances of a class whose type arguments have the given values. -/
  IsInstance (cls : String) (arguments : List (Value D → Prop)) : D.Instance → Prop
  instanceFields : D.Instance → List (String × Value D)
  /-- Reads an instance from the fields of its object, with a decoder for each type argument. -/
  readInstance (cls : String) (fields : List (String × Value D)) (decoders : List (Value D → Option (Value D))) :
    Option D.Instance
  /-- The values that a type parameter stands for. -/
  IsArgument (param : String) : Value D → Prop
  readArgument (param : String) : Value D → Option (Value D)
  /-- The properties of an object in the order in which they are listed. -/
  properties : List (String × Value D) → List (String × Value D)

namespace Runtime

variable (l : Language) (R : Runtime D)

/-- The text of a key whose type is known at run time only. -/
def anyKey : Value D → Option String
  | .text s => some s
  | .number x => some (R.numberText x)
  | .instant i => some (R.instantText i)
  | .member m => some (R.numberText (R.memberNumber m))
  | _ => none

mutual

/-- Writes a value whose type is known at run time only. -/
def anyJson : Value D → Option (Value D)
  | .null => some .null
  | .bool b => some (.bool b)
  | .number x => some (.number x)
  | .text s => some (.text s)
  | .instant i => some (.text (R.instantText i))
  | .member m => some (.number (R.memberNumber m))
  | .made c => some (.record l (R.instanceFields c))
  | .list vs => (anyJsonList vs).map .list
  | .map entries => (anyJsonEntries entries).map fun fields => .record l (collect (· == ·) fields)
  | .object fields =>
    match l with
    | .dart => none
    | .typescript => (anyJsonFields fields).map .object

def anyJsonList : List (Value D) → Option (List (Value D))
  | [] => some []
  | v :: vs => do return (← anyJson v) :: (← anyJsonList vs)

def anyJsonEntries : List (Value D × Value D) → Option (List (String × Value D))
  | [] => some []
  | (k, v) :: entries => do return (← R.anyKey k, ← anyJson v) :: (← anyJsonEntries entries)

def anyJsonFields : List (String × Value D) → Option (List (String × Value D))
  | [] => some []
  | (name, v) :: fields => do return (name, ← anyJson v) :: (← anyJsonFields fields)

end

/-- Whether a decoder reads back the values of a type that are written at run time. -/
def Reads (type : Value D → Prop) (decoder : Value D → Option (Value D)) : Prop :=
  ∀ v, type v → ∃ j w, R.anyJson l v = some j ∧ decoder j = some w ∧ v.Same l w

/-- What the codecs assume of the language and of the emitted classes. -/
structure Lawful : Prop where
  toInteger_eq : ∀ {x}, R.IsInteger x → R.toInteger x = x
  toDouble_eq : ∀ {x}, R.IsDouble x → R.toDouble x = x
  readInteger_numberText : ∀ {x}, R.IsInteger x → R.readInteger (R.numberText x) = some x
  readDouble_numberText : ∀ {x}, R.IsDouble x → R.readDouble (R.numberText x) = some x
  readInstant_instantText : ∀ i, R.readInstant (R.instantText i) = some i
  isInteger_memberNumber : ∀ {enum m}, R.IsMember enum m → R.IsInteger (R.memberNumber m)
  readMember_memberNumber : ∀ {enum m}, R.IsMember enum m → R.readMember enum (R.memberNumber m) = some m
  isJson_instanceFields : ∀ c, ∀ p ∈ R.instanceFields c, p.2.IsJson l
  readInstance_instanceFields : ∀ {cls types decoders c}, R.IsInstance cls types c →
    List.Forall₂ (R.Reads l) types decoders → R.readInstance cls (R.instanceFields c) decoders = some c
  readArgument_anyJson : ∀ param, R.Reads l (R.IsArgument param) (R.readArgument param)
  properties_perm : ∀ fields, (R.properties fields).Perm fields

mutual

/-- The values of a type, without the null of a nullable one. -/
def HasValue : Bound → Value D → Prop
  | .primitive _ category _, v =>
    match category with
    | .integer => ∃ x, v = .number x ∧ R.IsInteger x
    | .double => ∃ x, v = .number x ∧ R.IsDouble x
    | .boolean => ∃ b, v = .bool b
    | .string => ∃ s, v = .text s
    | .datetime => ∃ i, v = .instant i
    | .dynamic => True
  | .enum _ entry, v => ∃ m, v = .member m ∧ R.IsMember entry.name m
  | .named _ entry as, v => ∃ c, v = .made c ∧ R.IsInstance entry.name (argumentTypes as) c
  | .param _ name, v => R.IsArgument name v
  | .list _ element, v =>
    ∃ vs, v = .list vs ∧ ∀ w ∈ vs, (element.nullable = true ∧ w = .null) ∨ HasValue element w
  | .map _ key value, v =>
    ∃ entries, v = .map entries ∧ (entries.map Prod.fst).Nodup ∧
      ∀ p ∈ entries, ((key.nullable = true ∧ p.1 = .null) ∨ HasValue key p.1) ∧
        ((value.nullable = true ∧ p.2 = .null) ∨ HasValue value p.2)
  | .marker .., _ => True

def argumentTypes : List Bound → List (Value D → Prop)
  | [] => []
  | a :: as => (fun v => (a.nullable = true ∧ v = .null) ∨ HasValue a v) :: argumentTypes as

end

def HasType (t : Bound) (v : Value D) : Prop := (t.nullable = true ∧ v = .null) ∨ R.HasValue t v

end Runtime

/-- The values of the places of a program and of the variables of the closures around an expression. -/
structure Env (D : Domain) where
  place : String → Option (Value D)
  var : String → Option (Value D)

/-- The variable of a closure hides those of its name. -/
def Env.bind (env : Env D) (x : String) (v : Value D) : Env D :=
  { env with var := fun y => if y = x then some v else env.var y }

/-- Whether a closure variable has the name, so that nothing else is found under it. -/
def Env.hides (env : Env D) (name : String) : Bool := (env.var name).isSome

/-- What an emitted expression calls to read an instance of a class. -/
def Language.reader : Language → String → String
  | dart, cls => cls
  | typescript, cls => TypeScript.decoderName cls

/-- Whether no name in the text of a type is hidden. -/
def isVisible (hidden : String → Bool) (t : Bound) : Bool := t.every fun u => u.label?.all fun name => !hidden name

/-- Whether the expression itself looks up a hidden name; its parts do not matter.  Types are looked up among the
variables in Dart only, and the helpers and the core libraries have names that no closure variable has. -/
def Expr.obscured (l : Language) (hidden : String → Bool) : Expr → Bool
  | .place text => hidden text
  | .convert (.member enum) _ | .convert (.keyMember enum) _ => hidden enum
  | .convert (.parameter name) _ => hidden (paramDecoder name)
  | .construct cls .. => hidden (l.reader cls)
  | .readList element .. => l == .dart && !isVisible hidden element
  | .readMap key value .. => l == .dart && !(isVisible hidden key && isVisible hidden value)
  | _ => false

section Evaluation

variable (l : Language) (R : Runtime D)

/-- A cast is checked in Dart, and does nothing in TypeScript. -/
def Language.cast (checked : Value D → Option (Value D)) (v : Value D) : Option (Value D) :=
  match l with
  | .dart => checked v
  | .typescript => some v

/-- A conversion, which fails on values that have no such method or cannot be cast. -/
def Conversion.apply : Conversion → Value D → Option (Value D)
  | .integer, v => l.cast (fun | .number x => some (.number (R.toInteger x)) | _ => none) v
  | .double, .text s => (R.readDouble s).map .number
  | .double, v => l.cast (fun | .number x => some (.number (R.toDouble x)) | _ => none) v
  | .boolean, v => l.cast (fun | .bool b => some (.bool b) | _ => none) v
  | .string, v => l.cast (fun | .text s => some (.text s) | _ => none) v
  | .datetime, .text s => (R.readInstant s).map .instant
  | .member enum, .number x =>
    match l with
    | .dart => (R.readMember enum (R.toInteger x)).map .member
    | .typescript => (R.readMember enum x).map .member
  | .parameter name, v => R.readArgument name v
  | .keyInteger, .text s => (R.readInteger s).map .number
  | .keyDouble, .text s => (R.readDouble s).map .number
  | .keyDatetime, .text s => (R.readInstant s).map .instant
  | .keyMember enum, .text s => do return .member (← R.readMember enum (← R.readInteger s))
  | .instantText, .instant i => some (.text (R.instantText i))
  | .ownJson, .member m => some (.number (R.memberNumber m))
  | .ownJson, .made c => some (.record l (R.instanceFields c))
  | .anyJson, v => R.anyJson l v
  | .numberKey, .number x => some (.text (R.numberText x))
  | .memberKey, .member m => some (.text (R.numberText (R.memberNumber m)))
  | _, _ => none

/-- The entries of a JSON object in the order in which a closure runs over them. -/
def Value.entries? (v : Value D) : Option (List (String × Value D)) :=
  match l with
  | .dart => v.fields? l
  | .typescript => (v.fields? l).map R.properties

mutual

/-- The value of an expression, if every name in it is found and no conversion fails. -/
def eval (env : Env D) : Expr → Option (Value D)
  | .place text => if env.hides text then none else env.place text
  | .var name => env.var name
  | .nonNull value => do
    let v ← eval env value
    match l with
    | .dart => if v.isNull then none else some v
    | .typescript => some v
  | .unlessNull tested value => do
    let v ← eval env tested
    if v.isNull then some .null else eval env value
  | .convert c value =>
    if (Expr.convert c value).obscured l env.hides then none else do c.apply l R (← eval env value)
  | .construct cls value x as =>
    if (Expr.construct cls value x as).obscured l env.hides then none
    else do
      let fields ← (← eval env value).fields? l
      return .made (← R.readInstance cls fields (closures env x as))
  | .readList element value x body =>
    if (Expr.readList element value x body).obscured l env.hides then none
    else do
      let .list vs ← eval env value | none
      return .list (← vs.mapM fun v => eval (env.bind x v) body)
  | .readMap key value source k v keyBody valueBody =>
    if (Expr.readMap key value source k v keyBody valueBody).obscured l env.hides then none
    else do
      let fields ← (← eval env source).entries? l R
      return .map (collect Value.sameKey (← fields.mapM fun p => do
        let inner := (env.bind k (.text p.1)).bind v p.2
        return (← eval inner keyBody, ← eval inner valueBody)))
  | .writeList value x body => do
    let .list vs ← eval env value | none
    return .list (← vs.mapM fun v => eval (env.bind x v) body)
  | .writeMap source k v keyBody valueBody => do
    let .map entries ← eval env source | none
    return .record l (collect (· == ·) (← entries.mapM fun p => do
      let inner := (env.bind k p.1).bind v p.2
      return (← (← eval inner keyBody).text?, ← eval inner valueBody)))

/-- The closures over a variable with the given bodies. -/
def closures (env : Env D) (x : String) : List Expr → List (Value D → Option (Value D))
  | [] => []
  | a :: as => (fun v => eval (env.bind x v) a) :: closures env x as

end

end Evaluation

end Covenant.Emit
