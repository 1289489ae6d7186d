import Covenant.Failure
import Covenant.Text.Quoted

/-!
# Primitive types

Source type names resolve, in any case, to one of six categories, and each target language names a type for every
category.  A configuration points further names at categories, or known names at other ones.
-/

namespace Covenant.Typing

inductive Primitive where
  | integer
  | double
  | boolean
  | string
  | datetime
  | dynamic
  deriving DecidableEq, Repr, Inhabited

namespace Primitive

def all : List Primitive := [integer, double, boolean, string, datetime, dynamic]

def name : Primitive → String
  | integer => "integer"
  | double => "double"
  | boolean => "boolean"
  | string => "string"
  | datetime => "datetime"
  | dynamic => "dynamic"

def nameOfNumber (n : Int) : String :=
  if n < 0 then "unknown" else (all[n.toNat]?.map name).getD "unknown"

def shortNames : List (String × Primitive) :=
  [("int", integer), ("long", integer), ("float", double), ("decimal", double), ("number", double),
    ("bool", boolean), ("date", datetime), ("time", datetime), ("any", dynamic), ("object", dynamic),
    ("json", dynamic)]

/-- The category that a configuration names, in any case and with blanks around it. -/
def ofName? (s : String) : Option Primitive :=
  let key := Text.lower (Text.trim s)
  shortNames.lookup key <|> all.find? (·.name == key)

end Primitive

def sourceNames : List (String × Primitive) :=
  [("int", .integer), ("int16", .integer), ("int32", .integer), ("int64", .integer), ("uint", .integer),
    ("uint16", .integer), ("uint32", .integer), ("uint64", .integer), ("byte", .integer), ("sbyte", .integer),
    ("short", .integer), ("ushort", .integer), ("long", .integer), ("ulong", .integer),
    ("float", .double), ("single", .double), ("double", .double), ("decimal", .double),
    ("bool", .boolean), ("boolean", .boolean),
    ("string", .string), ("char", .string), ("guid", .string), ("timespan", .string),
    ("datetime", .datetime), ("datetimeoffset", .datetime), ("date", .datetime),
    ("object", .dynamic), ("dynamic", .dynamic), ("json", .dynamic), ("jsonelement", .dynamic),
    ("jsonobject", .dynamic)]

abbrev Targets := Primitive → String

structure Mapper where
  targets : Targets
  overrides : List (String × Primitive)

inductive MapperDefect where
  | noTarget (category : Primitive)
  | emptyName
  | unknownCategory (name value : String)
  deriving Repr

def MapperDefect.toFailure : MapperDefect → Failure
  | noTarget category => .badConfig ("no target type for " ++ category.name ++ " primitives")
  | emptyName => .badConfig "type override with empty source name"
  | unknownCategory name value =>
    (Failure.badConfig ("type override " ++ name ++ " = " ++ Text.quoted value ++ ": unknown primitive")).withHint
      "use one of integer, double, boolean, string, datetime, dynamic"

namespace Mapper

/-- Reads overrides in order; a later one for the same name wins. -/
def readOverrides :
    List (String × Primitive) → List (String × String) → Except MapperDefect (List (String × Primitive))
  | done, [] => .ok done
  | done, (name, value) :: rest =>
    let key := Text.lower (Text.trim name)
    if key.isEmpty then .error .emptyName
    else match Primitive.ofName? value with
      | none => .error (.unknownCategory name value)
      | some category => readOverrides ((key, category) :: done) rest

def build (targets : Targets) (overrides : List (String × String)) : Except MapperDefect Mapper :=
  match Primitive.all.find? fun p => (targets p).isEmpty with
  | some p => .error (.noTarget p)
  | none => do
    let overrides ← readOverrides [] (Text.sortedByKey overrides)
    return { targets, overrides }

def category? (m : Mapper) (name : String) : Option Primitive :=
  let key := Text.lower name
  m.overrides.lookup key <|> sourceNames.lookup key

end Mapper

end Covenant.Typing
