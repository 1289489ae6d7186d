import Covenant.Source.Check.TypeExpr

/-!
# Composites, calls and built-in functions

A call is a conversion, the use of a built-in function, or a call of a function, whose arguments have to fit its
inputs.  A built-in function has rules of its own for its arguments.
-/

namespace Covenant.Source

namespace Semantics

open Check

variable (s : Semantics)

def keyedField (type : SourceType) (home : Option String) (fields : List (FieldHead × SourceType))
    (seen : List String) (e : Expr) : Check (List String) := do
  match e with
  | .pair key v =>
    let x ← s.value v
    match key with
    | .name id =>
      let here ← some <$> here
      match fields.find? fun (head, _) => visibleAs here id.text home head.name with
      | none =>
        let other := (fields.find? fun (head, _) => spelledLike id.text home head.name).map fun (head, t) =>
          ({ name := head.name, type := t, home, isField := true, isIndirect := false } : Found)
        fail id.pos (unknownFieldText here (← typeText type) id.text other)
      | some (_, t) =>
        let _ ← assign x (some t) "struct literal"
        if seen.contains id.text then
          fail e.start ("duplicate field name " ++ id.text ++ " in struct literal")
        return id.text :: seen
    | _ => fail e.start ("invalid field name " ++ key.text ++ " in struct literal")
  | _ => fail e.start "mixture of field:value and value elements in struct literal"

def plainFields (s : Semantics) (type : SourceType) (home : Option String) (close : Nat) :
    List (FieldHead × SourceType) → List Expr → Check Unit
  | [], [] => return ()
  | _ :: _, [] => do fail close ("too few values in struct literal of type " ++ (← typeText type))
  | fields, e :: es => do
    if e matches .pair _ _ then fail e.start "mixture of field:value and value elements in struct literal"
    let x ← s.value e
    match fields with
    | [] => fail e.start ("too many values in struct literal of type " ++ (← typeText type))
    | (head, t) :: rest =>
      if !isExported head.name && home != some (← here) then
        fail e.start ("implicit assignment to unexported field " ++ head.name ++ " in struct literal of type " ++
          (← typeText type))
      let _ ← assign x (some t) "struct literal"
      s.plainFields type home close rest es

def recordElements (type : SourceType) (elements : List Expr) (close : Nat)
    (fields : List (FieldHead × SourceType)) : Check Unit := do
  let home := ((← world).structure_ (some (← here)) type).1
  match elements with
  | [] => return ()
  | .pair _ _ :: _ =>
    let _ ← elements.foldlM (s.keyedField type home fields) []
  | _ => s.plainFields type home close fields elements

structure Filling where
  next : Nat := 0
  taken : List Nat := []
  extent : Nat := 0

def indexedElement (element : SourceType) (length : Option Nat) (f : Filling) (e : Expr) : Check Filling := do
  let (index, v) ← match e with
    | .pair key v => do
      match ← s.indexBelow length key with
      | some i => pure (i, v)
      | none => fail e.start ("index " ++ key.text ++ " must be integer constant")
    | _ =>
      match length with
      | some n =>
        if f.next ≥ n then
          fail e.start ("index " ++ toString f.next ++ " is out of bounds (>= " ++ toString n ++ ")")
        else pure (f.next, e)
      | none => pure (f.next, e)
  if f.taken.contains index then
    fail e.start ("duplicate index " ++ toString index ++ " in array or slice literal")
  let x ← s.valueFor element v
  let _ ← assign x (some element) "array or slice literal"
  return { next := index + 1, taken := index :: f.taken, extent := max f.extent (index + 1) }

def indexedElements (element : SourceType) (length : Option Nat) (elements : List Expr) : Check Nat := do
  return (← elements.foldlM (s.indexedElement element length) {}).extent

abbrev SeenKeys := List (Constant × SourceType)

def mapElement (key value : SourceType) (seen : SeenKeys) (e : Expr) : Check SeenKeys := do
  match e with
  | .pair k v =>
    let w ← world
    let x ← assign (← s.valueFor key k) (some key) "map literal"
    let type := x.type.typed?.getD key
    let seen ← match x.constant? with
      | some c =>
        let isSame (other : Constant × SourceType) : Bool :=
          c.isAlike other.1 && (!w.isInterface key || w.identical other.2 type)
        if seen.any isSame then
          fail x.expr.start ("duplicate key " ++ c.text ++ " in map literal")
        pure ((c, type) :: seen)
      | none => pure seen
    let _ ← assign (← s.valueFor value v) (some value) "map literal"
    return seen
  | _ => fail e.start "missing key in map literal"

/-- The type of a composite, and the one that its elements are laid out by; an array may leave its length open. -/
structure Layout where
  type : SourceType
  base : SourceType
  isOpen : Bool := false
  isElement : Bool := false

def layout (hint : Option SourceType) (e : Expr) (type : Option Expr) : Check Layout := do
  match type, hint with
  | some (.arrayType _ (some (.dots _ none)) element), _ =>
    let t ← s.valueType element
    return { type := .array 0 t, base := .array 0 t, isOpen := true }
  | some t, _ =>
    let t ← s.wholeType t
    return { type := t, base := t }
  | none, some t =>
    let base := match ← underlying t with
      | .pointer target => target
      | _ => t
    return { type := t, base, isElement := true }
  | none, none => fail e.start "missing type in composite literal"

def composite (s : Semantics) (hint : Option SourceType) (e : Expr) (type : Option Expr) (elements : List Expr)
    (close : Nat) : Check Operand := do
  let l ← s.layout hint e type
  let result (t : SourceType) : Operand := { expr := e, mode := .value, type := .typed t }
  match ← underlying l.base with
  | .record fields =>
    s.recordElements l.base elements close fields
    return result l.type
  | .array n element =>
    let extent ← s.indexedElements element (if l.isOpen then none else some n) elements
    return result (if l.isOpen then .array extent element else l.type)
  | .slice element =>
    let _ ← s.indexedElements element none elements
    return result l.type
  | .map key value =>
    let _ ← elements.foldlM (s.mapElement key value) []
    return result l.type
  | _ =>
    elements.forM s.use
    fail e.start ("invalid composite literal" ++ (if l.isElement then " element" else "") ++ " type " ++
      (← typeText l.type))

/-- A type in a list of types that were given or are wanted; numbers without type are just numbers. -/
def summaryText (t : ValueType) : Check String := do
  match t with
  | .untyped u => return if u.shape.isNumeric then "number" else String.ofList (u.name.toList.drop "untyped ".length)
  | _ => valueTypeText t

def givenText (ts : List ValueType) (isSpread : Bool) : Check String := do
  let texts ← ts.mapM summaryText
  return "(" ++ Text.join ", " texts ++ (if isSpread && !ts.isEmpty then "..." else "") ++ ")"

def wantedText (ts : List SourceType) (isVariadic : Bool) : Check String := do
  let texts ← ts.mapM typeText
  let texts ← match isVariadic, ts.getLast? with
    | true, some (.slice element) => do pure (texts.dropLast ++ ["..." ++ (← typeText element)])
    | true, some other => do pure (texts.dropLast ++ ["..." ++ (← typeText other)])
    | _, _ => pure texts
  return "(" ++ Text.join ", " texts ++ ")"

def arguments (function : Expr) (expressions : List Expr) (spread : Option Nat) (close : Nat)
    (inputs : List SourceType) (isVariadic : Bool) (args : List Operand) : Check Unit := do
  let given := args.length
  let mismatch (pos : Nat) (amount : String) : Check (List SourceType) := do
    fail pos (amount ++ " arguments in call to " ++ function.text ++ "\n\thave " ++
      (← givenText (args.map (·.type)) spread.isSome) ++ "\n\twant " ++ (← wantedText inputs isVariadic))
  let exactly (ts : List SourceType) : Check (List SourceType) :=
    match args.drop ts.length with
    | extra :: _ => mismatch extra.expr.start "too many"
    | [] => if given < ts.length then mismatch close "not enough" else return ts
  let expected ← match isVariadic, spread with
    | true, some pos =>
      match expressions with
      | [e] =>
        if given > 1 then fail pos ("cannot use ... with " ++ toString given ++ "-valued " ++ e.text)
        else exactly inputs
      | _ => exactly inputs
    | true, none =>
      let fixed := inputs.dropLast
      let element := match inputs.getLast? with
        | some (.slice t) => t
        | _ => anything
      if given < fixed.length then mismatch close "not enough"
      else pure (fixed ++ List.replicate (given - fixed.length) element)
    | false, some pos => fail pos ("cannot use ... in call to non-variadic " ++ function.text)
    | false, none => exactly inputs
  (args.zip expected).forM fun (a, t) => do
    let _ ← assign a (some t) ("argument to " ++ function.text)

def argumentValues (es : List Expr) : Check (List Operand) :=
  match es with
  | [e] => do
    let (x, _) ← s.raw none true e
    needValue x
    match x.type with
    | .several ts => return ts.map fun (_, t) => { expr := e, mode := .value, type := .typed t }
    | _ => return [x]
  | es => es.mapM fun e => do
    let (x, _) ← s.raw none true e
    needValue x
    needSingle x
    return x

def called (e function : Expr) (es : List Expr) (spread : Option Nat) (close : Nat) (x : Operand) :
    Check Operand := do
  match ← underlying? x with
  | some (.function inputs outputs isVariadic) =>
    let args ← s.argumentValues es
    arguments function es spread close (inputs.map (·.2)) isVariadic args
    modify fun p => { p with hasCall := true }
    match outputs with
    | [] => return { expr := e, mode := .noValue, type := .nothing }
    | [(_, t)] => return { expr := e, mode := .value, type := .typed t }
    | ts => return { expr := e, mode := .value, type := .several ts }
  | _ => failAt x (invalid ++ "cannot call non-function ") ""

def conversion (s : Semantics) (e : Expr) (es : List Expr) (spread : Option Nat) (close : Nat) (t : SourceType) :
    Check Operand := do
  let w ← world
  match es with
  | [] => fail close ("missing argument in conversion to " ++ (← typeText t))
  | [a] =>
    let x ← s.value a
    if w.isInterface t && !(w.typeSet (some (← here)) t).isMethodSet then
      fail e.start ("cannot use interface " ++ (← typeText t) ++
        " in conversion (contains specific type constraints or is comparable)")
    if spread.isSome then fail a.start ("invalid use of ... in conversion to " ++ (← typeText t))
    return { (← convert x t) with expr := e }
  | _ =>
    es.forM s.use
    fail ((es.getLast?.map Expr.start).getD close) ("too many arguments in conversion to " ++ (← typeText t))

end Semantics

structure BuiltinForm where
  count : Nat
  takesMore : Bool
  kind : ExprKind

def BuiltinForm.ofName : String → BuiltinForm
  | "append" => ⟨1, true, .expression⟩
  | "clear" | "close" | "panic" => ⟨1, false, .statement⟩
  | "complex" => ⟨2, false, .expression⟩
  | "copy" | "delete" => ⟨2, false, .statement⟩
  | "make" | "max" | "min" => ⟨1, true, .expression⟩
  | "print" | "println" => ⟨0, true, .statement⟩
  | "recover" => ⟨0, false, .statement⟩
  | _ => ⟨1, false, .expression⟩

structure BuiltinCall where
  expr : Expr
  name : String
  function : Expr
  arguments : List Expr
  spread : Option Nat
  close : Nat

namespace Semantics

open Check

variable (c : BuiltinCall)

def resultOf (t : SourceType) : Operand := { expr := c.expr, mode := .value, type := .typed t }

def noResult : Operand := { expr := c.expr, mode := .noValue, type := .nothing }

def countMismatch {α : Type} (c : BuiltinCall) (amount : String) (found : Nat) : Check α :=
  fail c.close (invalid ++ amount ++ " arguments for " ++ c.expr.text ++ " (expected " ++
    toString (BuiltinForm.ofName c.name).count ++ ", found " ++ toString found ++ ")")

def needCount (found : Nat) : Check Unit := do
  let form := BuiltinForm.ofName c.name
  if found < form.count then countMismatch c "not enough" found
  else if !form.takesMore && found > form.count then countMismatch c "too many" found
  else return ()

def sliceElement? (x : Operand) : Check (Except String SourceType) := do
  match ← underlying? x with
  | some (.slice element) => return .ok element
  | _ =>
    let text ← if x.isNothing then pure "untyped nil" else shown x
    return .error ("argument must be a slice; have " ++ text)

def isOctetsAndText (x y : Operand) : Check Bool := do
  return (← unassignable? x (.slice (.basic .byte))).isNone && (← is (· == .string) y)

def append (c : BuiltinCall) (args : List Operand) (x : Operand) : Check Operand := do
  let isSpecial ← match args, c.spread with
    | [_, y], some _ => isOctetsAndText x y
    | _, _ => pure false
  if !isSpecial then
    match ← sliceElement? x with
    | .error why => fail x.expr.start ("invalid append: " ++ why)
    | .ok element =>
      let first := x.type.typed?.getD (.slice element)
      arguments c.function c.arguments c.spread c.close [first, .slice element] true args
  return { x with expr := c.expr, mode := .value, leaves := [] }

def copy (c : BuiltinCall) (x y : Operand) : Check Operand := do
  if !(← isOctetsAndText x y) then
    match ← sliceElement? x with
    | .error why => fail x.expr.start ("invalid copy: " ++ why)
    | .ok goal =>
      let source ← match ← sliceElement? y with
        | .ok t => pure t
        | .error why => do
          if !(← is (· == .string) y) then fail y.expr.start ("invalid copy: " ++ why)
          pure (SourceType.basic .byte)
      if !(← identical goal source) then
        fail x.expr.start ("invalid copy: arguments " ++ (← shown x) ++ " and " ++ (← shown y) ++
          " have different element types " ++ (← typeText goal) ++ " and " ++ (← typeText source))
  return resultOf c (.basic .int)

def clear (c : BuiltinCall) (x : Operand) : Check Operand := do
  match ← underlying? x with
  | some (.map _ _) | some (.slice _) => return noResult c
  | _ => failAt x "invalid argument: clear " " must be a map or slice"

def delete (c : BuiltinCall) (x y : Operand) : Check Operand := do
  match ← underlying? x with
  | some (.map key _) =>
    let _ ← assign y (some key) "argument to delete"
    return noResult c
  | _ => failAt x "invalid argument: " " is not a map"

def close (c : BuiltinCall) (x : Operand) : Check Operand := do
  match ← underlying? x with
  | some (.channel direction _) =>
    if direction == .receive then failAt x (invalid ++ "cannot close receive-only channel ") ""
    return noResult c
  | _ => failAt x (invalid ++ "cannot close non-channel ") ""

/-- A length or a capacity; of an array it is constant if nothing has to be called for it. -/
def extent (hasCall : Bool) (x : Operand) : Check Operand := do
  let w ← world
  let isLength := c.name == "len"
  let int (mode : Mode) : Operand := { expr := c.expr, mode, type := .typed (.basic .int) }
  let target : Option SourceType := match x.type.underlying? w with
    | some (.pointer p) =>
      match w.underlying p with
      | .array n t => some (.array n t)
      | _ => some (.pointer p)
    | other => other
  match target with
  | some (.array n _) => return int (if hasCall then .value else .constant (.int n))
  | some (.slice _) | some (.channel _ _) => return int .value
  | some (.map _ _) => if isLength then return int .value else failAt x "invalid argument: " " for built-in cap"
  | _ =>
    if isLength && x.type.is w (· == .string) then
      match x.constant? with
      | some (.string text) => return int (.constant (.int (Text.toOctets text).length))
      | _ => return int .value
    else failAt x "invalid argument: " (" for built-in " ++ c.name)

def asFraction (x : Operand) : Check Operand := do
  match x.constant? with
  | some v =>
    if (← is Shape.isNumeric x) && v.imaginaryPart.isZero then return { x with type := .untyped .float } else return x
  | none => return x

def complex (c : BuiltinCall) (x y : Operand) : Check Operand := do
  let w ← world
  let double : ValueType := .typed (.basic .float64)
  let (x, y) ← match x.type.isTyped, y.type.isTyped with
    | true, true => pure (x, y)
    | false, true => do pure (← convertUntyped x y.type, y)
    | true, false => do pure (x, ← convertUntyped y x.type)
    | false, false =>
      if x.constant?.isSome && y.constant?.isSome then do pure (← asFraction x, ← asFraction y)
      else do pure (← convertUntyped x double, ← convertUntyped y double)
  if !x.type.identical w y.type then
    fail x.expr.start (invalid ++ c.expr.text ++ " (mismatched types " ++ (← valueTypeText x.type) ++ " and " ++
      (← valueTypeText y.type) ++ ")")
  let type : Option ValueType := match x.type with
    | .untyped .float => some (.untyped .complex)
    | .typed t =>
      match w.underlying t with
      | .basic .float32 => some (.typed (.basic .complex64))
      | .basic .float64 => some (.typed (.basic .complex128))
      | _ => none
    | _ => none
  match type with
  | none =>
    fail x.expr.start
      ("invalid argument: arguments have type " ++ (← valueTypeText x.type) ++ ", expected floating-point")
  | some type =>
    let mode : Mode := match x.constant?, y.constant? with
      | some a, some b => .constant (.complex a.realPart b.realPart)
      | _, _ => .value
    return { expr := c.expr, mode, type }

def part (x : Operand) : Check Operand := do
  let w ← world
  let x ← if x.type.isTyped then pure x
    else match x.constant? with
      | some _ => do
        if ← is Shape.isNumeric x then pure { x with type := ValueType.untyped .complex } else pure x
      | none => convertUntyped x (.typed (.basic .complex128))
  let type : Option ValueType := match x.type with
    | .untyped .complex => some (.untyped .float)
    | .typed t =>
      match w.underlying t with
      | .basic .complex64 => some (.typed (.basic .float32))
      | .basic .complex128 => some (.typed (.basic .float64))
      | _ => none
    | _ => none
  match type with
  | none =>
    fail x.expr.start
      ("invalid argument: argument has type " ++ (← valueTypeText x.type) ++ ", expected complex type")
  | some type =>
    let mode : Mode := match x.constant? with
      | some v => .constant (.number (if c.name == "real" then v.realPart else v.imaginaryPart))
      | none => .value
    return { expr := c.expr, mode, type }

def joinExtreme (x a : Operand) : Check Operand := do
  let w ← world
  if !(← is Shape.isOrdered a) then failAt a "invalid argument: " " cannot be ordered"
  let (x, a) ← match_ x a
  if !x.type.identical w a.type then
    fail a.expr.start ("invalid argument: mismatched types " ++ (← valueTypeText x.type) ++
      " (previous argument) and " ++ (← valueTypeText a.type) ++ " (type of " ++ a.expr.text ++ ")")
  match x.constant?, a.constant? with
  | some p, some q => return if q.compares (if c.name == "max" then ">" else "<") p then a else x
  | _, _ => return { x with mode := .value, leaves := x.parts ++ a.parts }

def extreme (args : List Operand) (x : Operand) : Check Operand := do
  if !(← is Shape.isOrdered x) then failAt x "invalid argument: " " cannot be ordered"
  let x ← (args.drop 1).foldlM (joinExtreme c) x
  match x.constant? with
  | some _ => return { x with expr := c.expr }
  | none =>
    let x ← assign { x with mode := .value } (some anything) ("argument to built-in " ++ c.name)
    return { x with expr := c.expr }

def make (s : Semantics) (c : BuiltinCall) : Check Operand := do
  let w ← world
  match c.arguments with
  | [] => countMismatch c "not enough" 0
  | type :: sizes =>
    let t ← s.valueType type
    let least ← match w.underlying t with
      | .slice _ => pure 2
      | .map _ _ | .channel _ _ => pure 1
      | _ =>
        fail type.start ("invalid argument: cannot make " ++ type.text ++ ": type must be slice, map, or channel")
    let found := sizes.length + 1
    if found < least || found > least + 1 then
      fail c.expr.start (invalid ++ c.expr.text ++ " expects " ++ toString least ++ " or " ++ toString (least + 1) ++
        " arguments; found " ++ toString found)
    let values ← sizes.mapM (s.indexBelow none)
    match values, sizes with
    | [some n, some m], size :: _ =>
      if n > m then fail size.start "invalid argument: length and capacity swapped"
    | _, _ => pure ()
    return resultOf c t

def new (s : Semantics) (c : BuiltinCall) : Check Operand := do
  match c.arguments with
  | [a] =>
    let x ← s.valueOrType false a
    if x.mode matches .builtin _ then failAt x "" " must be called"
    if x.mode == .type then later (.valueType a.start (x.type.typed?.getD anything))
    let x ← if x.mode == .type || x.type.isTyped then pure x else assign x none "argument to new"
    return resultOf c (.pointer (x.type.typed?.getD anything))
  | _ => countMismatch c "not enough" 0

def ofValues (hasCall : Bool) (args : List Operand) : Check Operand := do
  match c.name, args with
  | "append", x :: _ => append c args x
  | "cap", [x] | "len", [x] => extent c hasCall x
  | "clear", [x] => clear c x
  | "close", [x] => close c x
  | "complex", [x, y] => complex c x y
  | "copy", [x, y] => copy c x y
  | "delete", [x, y] => delete c x y
  | "imag", [x] | "real", [x] => part c x
  | "max", x :: _ | "min", x :: _ => extreme c args x
  | "panic", [x] =>
    if (← get).results.any fun rs => !rs.isEmpty then modify fun p => { p with endless := c.close :: p.endless }
    let _ ← assign x (some anything) "argument to panic"
    return noResult c
  | "print", _ | "println", _ =>
    args.forM fun a => do
      let _ ← assign a none ("argument to built-in " ++ c.name)
    return noResult c
  | _, _ => return resultOf c anything

def builtin (s : Semantics) (c : BuiltinCall) : Check (Operand × ExprKind) := do
  let form := BuiltinForm.ofName c.name
  if let some pos := c.spread then
    if c.name != "append" then fail pos (invalid ++ "invalid use of ... with built-in " ++ c.name)
  let before := (← get).hasCall
  let isExtent := c.name == "len" || c.name == "cap"
  if isExtent then modify fun p => { p with hasCall := false }
  let x ← if c.name == "make" || c.name == "new" then do
      needCount c c.arguments.length
      if c.name == "make" then s.make c else s.new c
    else do
      let args ← s.valueList c.arguments
      needCount c args.length
      ofValues c (← get).hasCall args
  if isExtent then modify fun p => { p with hasCall := before }
  if x.constant?.isNone then modify fun p => { p with hasCall := true }
  return (x, form.kind)

end Semantics

end Covenant.Source
