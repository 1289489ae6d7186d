import Covenant.Binding.Shape

/-!
# Emitted files and their codecs

Conversions between JSON values and typed values are expressions over a source value: `decode` builds the expression
that reads a value of a bound type, `encode` the one that writes it.  Closures bind the variables `e`, `k` and `v`
with the depth of their nesting, so that every variable belongs to its own closure.
-/

namespace Covenant.Emit

open Binding (Binder Shape ShapeParam)
open Contract (EnumMember)
open Naming (Entry)

structure Settings where
  programName : String
  errorCodesName : String

structure OutputFile where
  language : String := ""
  /-- The path below the output directory. -/
  name : String
  content : String
  deriving DecidableEq

def enumMembers (b : Binder) (e : Entry) (members : List (Option EnumMember)) :
    Except Failure (List (String × EnumMember)) := do
  let present := members.filterMap id
  let idents ← (b.table.policy.members e.qualified (present.map (·.name))).mapError (·.toFailure)
  return idents.zip present

def angled (parts : List String) : String :=
  if parts.isEmpty then "" else "<" ++ Text.join ", " parts ++ ">"

def paramNames (params : List ShapeParam) : String := angled (params.map (·.name))

/-- The function that a generic reader takes for one of its type parameters. -/
def paramDecoder (name : String) : String := "fromJson" ++ name

def renderAll (b : Binder) (settings : Settings) (enum : Entry → List (String × EnumMember) → String)
    (type : Shape → Except Failure String) : Except Failure (List String) :=
  b.table.entries.mapM fun e =>
    let block := match e.decl with
      | .enum _ members => return enum e (← enumMembers b e members)
      | .type .. => do type (← b.shapeOf settings.errorCodesName e)
    block.mapError (·.within ("failed to emit " ++ e.qualified))

open Binding (Bound)

structure TypeStyle where
  dynamic : String
  nullMark : String
  listOf : String → String

namespace TypeStyle

def markNullable (s : TypeStyle) (b : Bound) (base : String) : String :=
  if b.nullable && base != s.dynamic then base ++ s.nullMark else base

mutual

def baseType (s : TypeStyle) : Bound → String
  | .primitive _ _ target => target
  | .enum _ entry => entry.name
  | .named _ entry as => entry.name ++ angled (s.typeExprs as)
  | .marker _ name as => name ++ angled (s.typeExprs as)
  | .param _ name => name
  | .list _ element => s.listOf (s.markNullable element (s.baseType element))
  | .map _ key value =>
    "Map<" ++ s.markNullable key (s.baseType key) ++ ", " ++ s.markNullable value (s.baseType value) ++ ">"

def typeExprs (s : TypeStyle) : List Bound → List String
  | [] => []
  | b :: bs => s.markNullable b (s.baseType b) :: s.typeExprs bs

end

def typeExpr (s : TypeStyle) (b : Bound) : String := s.markNullable b (s.baseType b)

def classText (t : TypeStyle) (start params : String) (s : Shape) (members : List String) : String :=
  start ++ s.entry.name ++ params ++
  (match s.base? with
    | some base => " extends " ++ t.baseType base
    | none => "") ++
  (if s.markers.isEmpty then "" else " implements " ++ Text.join ", " (s.markers.map t.baseType)) ++
  " \x7b\n" ++ Text.joinBlocks members ++ "\n\x7d"

end TypeStyle

inductive Conversion where
  | integer
  | double
  | boolean
  | string
  | datetime
  | member (enum : String)
  | parameter (name : String)
  | keyInteger
  | keyDouble
  | keyDatetime
  | keyMember (enum : String)
  | instantText
  | ownJson
  | anyJson
  | numberKey
  | memberKey
  deriving DecidableEq

inductive Expr where
  | place (text : String)
  | var (name : String)
  | nonNull (value : Expr)
  | unlessNull (tested value : Expr)
  | convert (conversion : Conversion) (value : Expr)
  /-- Reads a class from an object, with a closure over the variable for each type argument. -/
  | construct (cls : String) (value : Expr) (var : String) (arguments : List Expr)
  | readList (element : Bound) (value : Expr) (var : String) (body : Expr)
  | readMap (key value : Bound) (source : Expr) (keyVar valueVar : String) (keyBody valueBody : Expr)
  | writeList (value : Expr) (var : String) (body : Expr)
  | writeMap (source : Expr) (keyVar valueVar : String) (keyBody valueBody : Expr)

def elementVar (depth : Nat) : String := "e" ++ toString depth

def keyVar (depth : Nat) : String := "k" ++ toString depth

def valueVar (depth : Nat) : String := "v" ++ toString depth

/-- Whether JSON values are values of the type as they stand: opaque JSON and markers. -/
def readsAsIs : Bound → Bool
  | .primitive _ .dynamic _ | .marker .. => true
  | _ => false

def decodeKey (key : Bound) (src : Expr) : Expr :=
  match key with
  | .enum _ entry => .convert (.keyMember entry.name) src
  | .primitive _ .integer _ => .convert .keyInteger src
  | .primitive _ .double _ => .convert .keyDouble src
  | .primitive _ .datetime _ => .convert .keyDatetime src
  | _ => src

/-- Null if the source is null, for a nullable type that does not read values as they stand. -/
def guardNull (b : Bound) (src value : Expr) : Expr :=
  if b.nullable && !readsAsIs b then .unlessNull src value else value

mutual

def decodeValue (src : Expr) (depth : Nat) : Bound → Expr
  | .primitive _ category _ =>
    match category with
    | .integer => .convert .integer src
    | .double => .convert .double src
    | .boolean => .convert .boolean src
    | .string => .convert .string src
    | .datetime => .convert .datetime src
    | .dynamic => src
  | .enum _ entry => .convert (.member entry.name) src
  | .named _ entry as => .construct entry.name src (elementVar depth) (decodeArguments depth as)
  | .param _ name => .convert (.parameter name) src
  | .list _ element =>
    .readList element src (elementVar depth)
      (guardNull element (.var (elementVar depth)) (decodeValue (.var (elementVar depth)) (depth + 1) element))
  | .map _ key value =>
    .readMap key value src (keyVar depth) (valueVar depth) (decodeKey key (.var (keyVar depth)))
      (guardNull value (.var (valueVar depth)) (decodeValue (.var (valueVar depth)) (depth + 1) value))
  | .marker .. => src

def decodeArguments (depth : Nat) : List Bound → List Expr
  | [] => []
  | a :: as =>
    guardNull a (.var (elementVar depth)) (decodeValue (.var (elementVar depth)) (depth + 1) a) ::
      decodeArguments depth as

end

def decode (b : Bound) (src : Expr) (depth : Nat) : Expr := guardNull b src (decodeValue src depth b)

structure EncodeStyle where
  assertsNonNull : Bool
  /-- Whether dictionaries whose keys and values are JSON as they stand are JSON objects themselves. -/
  keepsMaps : Bool

def keyAsIs : Bound → Bool
  | .primitive _ category _ => category == .string || category == .boolean || category == .dynamic
  | .enum .. => false
  | _ => true

/-- Whether values of the type are JSON values as they stand. -/
def writesAsIs (style : EncodeStyle) : Bound → Bool
  | .primitive _ category _ => category != .datetime && category != .dynamic
  | .list _ element => writesAsIs style element
  | .map _ key value => style.keepsMaps && keyAsIs key && writesAsIs style value
  | .enum .. | .named .. | .param .. | .marker .. => false

def encodeKey (key : Bound) (src : Expr) : Expr :=
  match key with
  | .enum .. => .convert .memberKey src
  | .primitive _ .integer _ | .primitive _ .double _ => .convert .numberKey src
  | .primitive _ .datetime _ => .convert .instantText src
  | _ => src

def testedSource (style : EncodeStyle) (b : Bound) (src : Expr) : Expr :=
  if style.assertsNonNull && b.nullable then .nonNull src else src

def encodeValue (style : EncodeStyle) (src : Expr) (depth : Nat) : Bound → Expr
  | .primitive _ category _ =>
    match category with
    | .datetime => .convert .instantText src
    | .dynamic => .convert .anyJson src
    | _ => src
  | .enum .. | .named .. => .convert .ownJson src
  | .param .. | .marker .. => .convert .anyJson src
  | .list _ element =>
    if writesAsIs style element then src
    else
      let x := Expr.var (elementVar depth)
      let body := encodeValue style (testedSource style element x) (depth + 1) element
      .writeList src (elementVar depth) (if element.nullable then .unlessNull x body else body)
  | .map _ key value =>
    if style.keepsMaps && keyAsIs key && writesAsIs style value then src
    else
      let x := Expr.var (valueVar depth)
      let body := encodeValue style (testedSource style value x) (depth + 1) value
      .writeMap src (keyVar depth) (valueVar depth) (encodeKey key (.var (keyVar depth)))
        (if writesAsIs style value then x else if value.nullable then .unlessNull x body else body)

def encode (style : EncodeStyle) (b : Bound) (src : Expr) (depth : Nat) : Expr :=
  if writesAsIs style b then src
  else
    let body := encodeValue style (testedSource style b src) depth b
    if b.nullable then .unlessNull src body else body

end Covenant.Emit
