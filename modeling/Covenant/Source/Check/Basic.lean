import Covenant.Source.Constant
import Covenant.Source.Expression
import Covenant.Source.Implement

/-!
# Operands and checking

An operand is what an expression stands for: a type, a built-in function, a constant, a variable or another value.
Constants, and a few values that are made of them, may have no type of their own yet; they take on the type that their
surroundings ask for.  Checking an expression finds its operand, and the first fault ends it.  Conditions on types and
the bodies of functions are noted and looked at later.
-/

namespace Covenant.Source

inductive Shape where
  | boolean | integer | unsigned | float | complex | string | rawPointer | nothing
  deriving DecidableEq

namespace Shape

def isInteger (s : Shape) : Bool := s == integer || s == unsigned

def isNumeric (s : Shape) : Bool := s.isInteger || s == float || s == complex

def isOrdered (s : Shape) : Bool := s.isInteger || s == float || s == string

def isConstant (s : Shape) : Bool := s.isNumeric || s == boolean || s == string

end Shape

def Basic.shape (b : Basic) : Shape :=
  if b.isUnsigned then .unsigned
  else if b.isInteger then .integer
  else if b.isFloat then .float
  else if b.isComplex then .complex
  else match b with
    | .bool => .boolean
    | .string => .string
    | _ => .rawPointer

inductive Untyped where
  | bool | int | rune | float | complex | string | nothing
  deriving DecidableEq

namespace Untyped

def name : Untyped → String
  | bool => "untyped bool" | int => "untyped int" | rune => "untyped rune" | float => "untyped float"
  | complex => "untyped complex" | string => "untyped string" | nothing => "untyped nil"

def ofLiteral : LiteralSort → Untyped
  | .int => int | .float => float | .imaginary => complex | .rune => rune | .string => string

def shape : Untyped → Shape
  | bool => .boolean | int | rune => .integer | float => .float | complex => .complex | string => .string
  | nothing => .nothing

def rank : Untyped → Nat
  | int => 0 | rune => 1 | float => 2 | complex => 3
  | bool | string | nothing => 0

def join? (a b : Untyped) : Option Untyped :=
  if a == b then some a
  else if a.shape.isNumeric && b.shape.isNumeric then some (if a.rank > b.rank then a else b)
  else none

def default? : Untyped → Option Basic
  | bool => some .bool | int => some .int | rune => some .rune | float => some .float64
  | complex => some .complex128 | string => some .string | nothing => none

end Untyped

inductive ValueType where
  | typed (type : SourceType)
  | untyped (sort : Untyped)
  | several (types : List (String × SourceType))
  | nothing

/-- A constant part of a value without type.  It is checked once the type is known; one that is shifted has to be an
integer then. -/
structure Leaf where
  expr : Expr
  sort : Untyped
  value : Option Constant
  isShifted : Bool

inductive Mode where
  | noValue
  | builtin (name : String)
  | type
  | constant (value : Constant)
  | place
  | mapIndex
  | value
  | commaOk
  deriving DecidableEq

namespace Mode

def text : Mode → String
  | noValue => "no value" | builtin _ => "built-in" | type => "type" | constant _ => "constant"
  | place => "variable" | mapIndex => "map index expression" | value => "value"
  | commaOk => "comma, ok expression"

def constant? : Mode → Option Constant
  | constant c => some c
  | _ => none

end Mode

structure Operand where
  expr : Expr
  mode : Mode
  type : ValueType
  leaves : List Leaf := []

namespace World

variable (w : World) (t : SourceType)

def compositeWord? : Option String :=
  match w.underlying t with
  | .pointer _ => some "pointer"
  | .slice _ => some "slice"
  | .array _ _ => some "array"
  | .map _ _ => some "map"
  | .channel _ _ => some "chan"
  | .function _ _ _ => some "func"
  | .record _ => some "struct"
  | .interface _ _ => some "interface"
  | _ => none

def buildWord : String :=
  match w.compositeWord? t, w.underlying t with
  | some word, _ => word
  | none, .basic b => b.name
  | none, _ => ""

def shape? : Option Shape :=
  match w.underlying t with
  | .basic b => some b.shape
  | _ => none

def hasNothing : Bool :=
  match w.underlying t with
  | .basic b => b == .unsafePointer
  | .slice _ | .pointer _ | .function _ _ _ | .map _ _ | .channel _ _ | .interface _ _ => true
  | _ => false

end World

namespace ValueType

def isTyped : ValueType → Bool
  | typed _ => true
  | _ => false

def typed? : ValueType → Option SourceType
  | typed t => some t
  | _ => none

def shape? (w : World) : ValueType → Option Shape
  | typed t => w.shape? t
  | untyped u => some u.shape
  | _ => none

def underlying? (w : World) : ValueType → Option SourceType
  | typed t => some (w.underlying t)
  | _ => none

def isInterface (w : World) : ValueType → Bool
  | typed t => w.isInterface t
  | _ => false

def hasNothing (w : World) : ValueType → Bool
  | typed t => w.hasNothing t
  | _ => false

def identical (w : World) : ValueType → ValueType → Bool
  | typed a, typed b => w.identical a b
  | untyped a, untyped b => a == b
  | _, _ => false

def text (w : World) (q : Qualifier) : ValueType → String
  | typed t => w.text q t
  | untyped u => u.name
  | several ts => "(" ++ Text.join ", " (SourceType.inputTexts q false ts) ++ ")"
  | nothing => "invalid type"

def is (w : World) (p : Shape → Bool) (t : ValueType) : Bool := (t.shape? w).any p

end ValueType

namespace Operand

def isNothing (x : Operand) : Bool := x.mode == .value && x.type matches .untyped .nothing

def constant? (x : Operand) : Option Constant := x.mode.constant?

def text (w : World) (q : Qualifier) (x : Operand) : String :=
  let known (c : Constant) : String := if c.text == x.expr.text then "" else " " ++ c.text
  let what := x.mode.text ++ x.constant?.elim "" known
  let sort := match x.type with
    | .untyped u => u.name ++ " "
    | _ => ""
  let type := match x.type with
    | .typed (.named name as) =>
      " of " ++ w.buildWord (.named name as) ++ " type " ++ w.text q (.named name as)
    | .typed t => " of type " ++ w.text q t
    | .several ts => " of type " ++ (ValueType.several ts).text w q
    | _ => ""
  if x.isNothing then "nil"
  else match x.mode with
    | .noValue | .builtin _ | .type => x.expr.text ++ " (" ++ what ++ ")"
    | _ => x.expr.text ++ " (" ++ sort ++ what ++ type ++ ")"

end Operand

end Covenant.Source

set_option autoImplicit false

namespace Covenant.Source

open Contract (Literal)

inductive Entity where
  | type (type : SourceType)
  | constant (type : ValueType) (value : Constant)
  | variable_ (number : Nat)
  | builtin (name : String)
  | nothing
  | iota

structure Variable where
  name : String
  pos : Nat
  type : SourceType
  isUsed : Bool
  function : Nat
  scope : Nat

structure Scope where
  number : Nat
  entries : List (String × Entity) := []

structure Result where
  name : String
  type : SourceType
  number : Nat

inductive Pending where
  | body (scopes : List Scope) (iota : Option Nat) (inputs outputs : List (Ident × SourceType)) (body : List Stmt)
      (close : Nat)
  | valueType (pos : Nat) (type : SourceType)
  | mapKey (pos : Nat) (type : SourceType)
  | arguments (pos : Nat) (name : TypeName) (arguments : List (Nat × SourceType))
  | embeddedField (pos : Nat) (type : SourceType)
  | interface (methods : List (Ident × SourceType)) (embedded : List (Nat × SourceType))
  | embeddedMethod (pos : Nat) (name : String) (type other : SourceType)
  | union (terms : List (Nat × Term))
  | definition (pos : Nat) (name : TypeName)

structure Setting where
  world : World
  here : Package
  text : String

structure Progress where
  scopes : List Scope := []
  iota : Option Nat := none
  results : Option (List Result) := none
  function : Nat := 0
  functionCount : Nat := 0
  scopeCount : Nat := 0
  variables_ : Array Variable := #[]
  types : List TypeSpec := []
  bounds : List SourceType := []
  alias_ : Option (TypeName × Nat) := none
  pending : Array Pending := #[]
  hasLabel : Bool := false
  hasCall : Bool := false
  endless : List Nat := []

abbrev Check := ReaderT Setting (StateT Progress (Except ExprFault))

def lineOf (text : String) (offset : Nat) : Nat := ((Text.toOctets text).take offset).count 10 + 1

def placeOf (text : String) (offset : Nat) : String :=
  let before := (Text.toOctets text).take offset
  let column := (before.reverse.takeWhile (· != 10)).length + 1
  "eval:" ++ toString (lineOf text offset) ++ ":" ++ toString column

namespace Check

def fail {α : Type} (pos : Nat) (message : String) : Check α := throw ⟨pos, message⟩

def world : Check World := do
  let p ← get
  return { (← read).world with locals := p.types, bounds := p.bounds }

def here : Check String := do return (← read).here.path

def later (p : Pending) : Check Unit := modify fun s => { s with pending := s.pending.push p }

def mark : Check Nat := do return (← get).pending.size

def typeText (t : SourceType) : Check String := do return (← world).text (seenFrom (← here)) t

def valueTypeText (t : ValueType) : Check String := do return t.text (← world) (seenFrom (← here))

def shown (x : Operand) : Check String := do return x.text (← world) (seenFrom (← here))

def failAt {α : Type} (x : Operand) (before after : String) : Check α := do
  fail x.expr.start (before ++ (← shown x) ++ after)

def underlying (t : SourceType) : Check SourceType := do return (← world).underlying t

def underlying? (x : Operand) : Check (Option SourceType) := do return x.type.underlying? (← world)

def is (p : Shape → Bool) (x : Operand) : Check Bool := do return x.type.is (← world) p

def identical (a b : SourceType) : Check Bool := do return (← world).identical a b

def isGeneric : SourceType → Check Bool
  | .named name [] => do return ((← world).spec? name).any fun spec => !spec.params.isEmpty
  | _ => return false

def builtins : List String :=
  ["append", "cap", "clear", "close", "complex", "copy", "delete", "imag", "len", "make", "max", "min", "new",
    "panic", "print", "println", "real", "recover"]

def fraction (digits : String) : Constant :=
  match digits.toList with
  | '-' :: cs => ((Constant.ofLiteral? .float (String.ofList cs)).getD (.int 0)).negated
  | _ => (Constant.ofLiteral? .float digits).getD (.int 0)

def constantOf : Literal → Constant
  | .int v => .int v
  | .string v => .string v
  | .bool v => .bool v
  | .float digits => fraction digits

def predeclared? (name : String) : Option Entity :=
  if name == "true" || name == "false" then some (.constant (.untyped .bool) (.bool (name == "true")))
  else if name == "nil" then some .nothing
  else if name == "iota" then some .iota
  else if builtins.contains name then some (.builtin name)
  else if predeclared.any (fun p => p.name == name) then some (.type (.named { home := none, name } []))
  else match Basic.ofName? name with
    | some .unsafePointer | none => none
    | some b => some (.type (.basic b))

def lookup? (name : String) : Check (Option Entity) := do
  let package := (← read).here
  match (← get).scopes.findSome? fun s => s.entries.lookup name with
  | some entity => return some entity
  | none =>
    match package.spec? name, package.constant? name with
    | some _, _ => return some (.type (.named { home := some package.path, name } []))
    | none, some c => return some (.constant (.typed c.type) (constantOf c.value))
    | none, none => return predeclared? name

def Entity.word : Entity → String
  | .type _ => "type"
  | .constant _ _ | .iota => "constant"
  | .variable_ _ => "variable"
  | .builtin _ => "built-in function"
  | .nothing => "untyped nil"

def variableAt? (number : Nat) : Check (Option Variable) := do return (← get).variables_[number]?

def setUsed (number : Nat) (isUsed : Bool) : Check Unit :=
  modify fun s => { s with variables_ := s.variables_.modify number fun v => { v with isUsed } }

def inScope {α : Type} (c : Check α) : Check α := do
  let outer := (← get).scopes
  modify fun s =>
    { s with scopes := { number := s.scopeCount } :: s.scopes, scopeCount := s.scopeCount + 1 }
  let a ← c
  modify fun s => { s with scopes := outer }
  return a

def declare (id : Ident) (entity : Entity) : Check Unit := do
  if id.text == "_" then return ()
  match (← get).scopes with
  | [] => return ()
  | scope :: outer =>
    if scope.entries.any fun (name, _) => name == id.text then
      fail id.pos (id.text ++ " redeclared in this block")
    modify fun s => { s with scopes := { scope with entries := (id.text, entity) :: scope.entries } :: outer }

def newVariable (id : Ident) (type : SourceType) (isUsed : Bool) : Check Nat := do
  let s ← get
  let v : Variable :=
    { name := id.text, pos := id.pos, type, isUsed, function := s.function
      scope := (s.scopes.head?.map (·.number)).getD 0 }
  set { s with variables_ := s.variables_.push v }
  return s.variables_.size

def declareVariable (id : Ident) (type : SourceType) (isUsed : Bool) : Check Unit := do
  if id.text == "_" then return ()
  declare id (.variable_ (← newVariable id type isUsed))

end Check

inductive ExprKind where
  | conversion | expression | statement
  deriving DecidableEq

structure Context where
  mayLeave : Bool := false
  mayContinue : Bool := false
  mayFall : Bool := false
  isFinalCase : Bool := false
  isTypeSwitch : Bool := false

/-- The rules that refer to each other.  They are built up by depth, so that checking always ends. -/
structure Semantics where
  /-- What an expression stands for; a composite without type takes it from where it stands, and a type may be let
  off its arguments. -/
  raw : Option SourceType → Bool → Expr → Check (Operand × ExprKind)
  type : Expr → Check SourceType
  statement : Context → Stmt → Check Unit
  settle : Nat → Check Unit

namespace Semantics

open Check

def bottom : Semantics where
  raw _ _ e := fail e.start "expression is nested too deeply"
  type e := fail e.start "expression is nested too deeply"
  statement _ s := fail s.start "statement is nested too deeply"
  settle _ := return ()

def needValue (x : Operand) : Check Unit :=
  match x.mode with
  | .noValue => failAt x "" " used as value"
  | .builtin _ => failAt x "" " must be called"
  | .type => failAt x "" " is not an expression"
  | _ => return ()

def needSingle (x : Operand) : Check Unit :=
  match x.mode, x.type with
  | .value, .several _ => failAt x "multiple-value " " in single-value context"
  | _, _ => return ()

variable (s : Semantics)

def value (e : Expr) : Check Operand := do
  let (x, _) ← s.raw none false e
  needValue x
  needSingle x
  return x

def valueFor (hint : SourceType) (e : Expr) : Check Operand := do
  let (x, _) ← s.raw (some hint) false e
  needValue x
  needSingle x
  return x

def valueOrType (mayLack : Bool) (e : Expr) : Check Operand := do
  let (x, _) ← s.raw none mayLack e
  if x.mode == .noValue then failAt x "" " used as value or type"
  needSingle x
  return x

/-- The values of an expression: those of a call one by one, and a flag if there may be one. -/
def values (e : Expr) (mayHaveFlag : Bool) : Check (List Operand) := do
  let (x, _) ← s.raw none false e
  needValue x
  match x.type with
  | .several ts => return ts.map fun (_, t) => { expr := e, mode := .value, type := .typed t }
  | _ =>
    if mayHaveFlag && (x.mode == .mapIndex || x.mode == .commaOk) then
      return [x, { expr := e, mode := .value, type := .untyped .bool }]
    else return [x]

def valueList : List Expr → Check (List Operand)
  | [e] => s.values e false
  | es => es.mapM s.value

def use (e : Expr) : Check Unit :=
  match e.bare with
  | .name id => do
    if id.text != "_" then
      let _ ← s.valueOrType true e.bare
  | .pair _ v => do let _ ← s.raw none true v
  | _ => do let _ ← s.raw none true e

def wholeType (e : Expr) : Check SourceType := do
  let t ← s.type e
  if ← isGeneric t then fail e.start ("cannot use generic type " ++ (← typeText t) ++ " without instantiation")
  return t

def valueType (s : Semantics) (e : Expr) : Check SourceType := do
  let t ← s.wholeType e
  later (.valueType e.start t)
  return t

end Semantics

end Covenant.Source
