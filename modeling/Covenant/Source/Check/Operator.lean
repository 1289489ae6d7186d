import Covenant.Source.Check.Basic

/-!
# Conversions and operators

An operand without type takes on a type where one is asked for, if the type can hold it.  An operand with a type can
be assigned to another type under certain conditions, and converted to more types by naming them.  Operators on
constants give constants; those on numbers without type are exact but may not grow beyond a limit, all others have to
stay within their type.
-/

namespace Covenant.Source

inductive Misfit where
  | truncated | overflows | other

namespace Check

def represent (type : ValueType) (c : Constant) (b : Basic) : Check (Except Misfit Constant) := do
  let w ← world
  match c.held? b with
  | some v => return .ok v
  | none =>
    if type.is w Shape.isNumeric && b.shape.isNumeric then
      return .error (if !type.is w Shape.isInteger && b.isInteger then .truncated else .overflows)
    else return .error .other

def misfit {α : Type} (x : Operand) (target : String) (m : Misfit) : Check α :=
  match m with
  | .truncated => failAt x "" (" truncated to " ++ target)
  | .overflows => failAt x "" (" overflows " ++ target)
  | .other => failAt x "cannot convert " (" to type " ++ target)

def needRepresentable (x : Operand) (b : Basic) : Check Operand := do
  match x.constant? with
  | none => return x
  | some c =>
    match ← represent x.type c b with
    | .ok v => return { x with mode := .constant v }
    | .error m => misfit x b.name m

/-- The type that an operand without type takes on where another type is expected, and its value if it is a
constant. -/
def implicit (x : Operand) (target : ValueType) : Check (Except Misfit (ValueType × Option Constant)) := do
  match x.type with
  | .untyped sort =>
    let w ← world
    match target with
    | .untyped other =>
      return match sort.join? other with
        | some joint => .ok (.untyped joint, none)
        | none => .error .other
    | .typed t =>
      let keepNothing : Except Misfit (ValueType × Option Constant) :=
        if x.isNothing then .ok (x.type, none) else .error .other
      match w.underlying t with
      | .basic b =>
        match x.constant? with
        | some c => return (← represent x.type c b).map fun v => (target, some v)
        | none =>
          let fits := match sort with
            | .bool => b.shape == .boolean
            | .string => b.shape == .string
            | .nothing => b.shape == .rawPointer
            | _ => b.shape.isNumeric
          if !fits then return .error .other
          return .ok (if sort == .nothing then x.type else target, none)
      | .interface _ _ =>
        if x.isNothing then return keepNothing
        if !(w.typeSet (← here) t).isAll then return .error .other
        return .ok ((sort.default?.map fun b => ValueType.typed (.basic b)).getD x.type, none)
      | .pointer _ | .function _ _ _ | .slice _ | .map _ _ | .channel _ _ => return keepNothing
      | _ => return .error .other
    | _ => return .error .other
  | _ => return .ok (x.type, none)

def goalText (target : ValueType) : Check String := do
  match target with
  | .typed t => typeText (← underlying t)
  | _ => valueTypeText target

def settleLeaf (t : SourceType) (l : Leaf) : Check Unit := do
  if l.isShifted && !((← world).shape? t).any Shape.isInteger then
    fail l.expr.start
      ("invalid operation: shifted operand " ++ l.expr.text ++ " (type " ++ (← typeText t) ++ ") must be integer")
  match l.value with
  | none => return ()
  | some c =>
    let x : Operand := { expr := l.expr, mode := .constant c, type := .untyped l.sort }
    match ← implicit x (.typed t) with
    | .ok _ => return ()
    | .error m => misfit x (← goalText (.typed t)) m

end Check

namespace Operand

def parts (x : Operand) : List Leaf :=
  match x.type, x.mode with
  | .untyped sort, .constant c => [{ expr := x.expr, sort, value := some c, isShifted := false }]
  | .untyped _, _ => x.leaves
  | _, _ => []

end Operand

namespace Check

variable (w : World) (x : Operand)

def withType (type : ValueType) : Check Operand := do
  match type with
  | .typed t =>
    if x.type.isTyped then return { x with type }
    x.parts.forM (settleLeaf t)
    return { x with type, leaves := [] }
  | .untyped sort => return { x with type, leaves := x.leaves.map fun l => { l with sort } }
  | _ => return { x with type }

def taking (type : ValueType) (value : Option Constant) : Check Operand := do
  withType (value.elim x fun v => { x with mode := .constant v }) type

def convertUntyped (target : ValueType) : Check Operand := do
  match ← implicit x target with
  | .ok (type, value) => taking x type value
  | .error m => misfit x (← goalText target) m

def defaultType (t : ValueType) : ValueType :=
  match t with
  | .untyped sort => (sort.default?.map fun b => ValueType.typed (.basic b)).getD t
  | _ => t

def isNamed (t : SourceType) : Bool :=
  match w.unalias t with
  | .basic _ | .named _ _ | .parameter _ _ => true
  | _ => false

/-- Why an operand cannot be assigned to a type, if there is more to say than that; nothing if it can. -/
def unassignable? (t : SourceType) : Check (Option String) := do
  let w ← world
  match x.type with
  | .untyped _ =>
    match ← implicit x (.typed t) with
    | .ok _ => return none
    | .error _ => return some ""
  | .typed v =>
    if w.identical v t then return none
    let vu := w.underlying v
    let tu := w.underlying t
    let anyUnnamed := !isNamed w v || !isNamed w t
    if w.identical vu tu && anyUnnamed then return none
    let q := seenFrom (← here)
    let home ← some <$> here
    if w.isInterface t || w.isInterfacePointer t then return w.unmet? q home false v t
    if w.isInterface v && (w.unmet? q home false t v).isNone then return some "need type assertion"
    match vu, tu with
    | .channel .both a, .channel _ b =>
      if w.identical a b && anyUnnamed then return none else return some ""
    | _, _ => return some ""
  | _ => return some ""

def assign (target : Option SourceType) (context : String) : Check Operand := do
  Semantics.needSingle x
  let w ← world
  let x ← match x.type with
    | .untyped _ =>
      let isOpen := target.all w.isInterface
      if target.isNone && x.isNothing then fail x.expr.start ("use of untyped nil in " ++ context)
      let goal : ValueType := if isOpen then defaultType x.type else (target.map ValueType.typed).getD x.type
      match ← implicit x goal with
      | .ok (type, value) => taking x type value
      | .error m =>
        failAt x "cannot use " (" as " ++ (← valueTypeText goal) ++ " value in " ++ context ++
          match m with
          | .truncated => " (truncated)"
          | .overflows => " (overflows)"
          | .other => "")
    | _ => pure x
  match target with
  | none => return x
  | some t =>
    match ← unassignable? x t with
    | none => return x
    | some cause =>
      failAt x "cannot use " (" as " ++ (← typeText t) ++ " value in " ++ context ++
        if cause.isEmpty then "" else ": " ++ cause)

def isTextSlice (t : SourceType) : Bool :=
  match w.underlying t with
  | .slice element =>
    match w.underlying element with
    | .basic b => b.proper == .uint8 || b.proper == .int32
    | _ => false
  | _ => false

def isConvertible (v : ValueType) (t : SourceType) : Bool :=
  let number (s : Shape) : Bool := s.isInteger || s == .float
  let goal (p : Shape → Bool) : Bool := (w.shape? t).any p
  let isWord (u : SourceType) : Bool := w.underlying u matches .basic .uintptr
  let isPointer (u : SourceType) : Bool := w.underlying u matches .pointer _
  let byShape := (v.is w number && goal number) || (v.is w (· == .complex) && goal (· == .complex)) ||
    (v.is w Shape.isInteger && goal (· == .string)) || (v.is w (· == .string) && isTextSlice w t)
  byShape || match v with
    | .typed v =>
      w.identicalButTags (w.underlying v) (w.underlying t) ||
        (match w.unalias v, w.unalias t with
          | .pointer a, .pointer b => w.identicalButTags (w.underlying a) (w.underlying b)
          | _, _ => false) ||
        (isTextSlice w v && goal (· == .string)) ||
        ((isPointer v || isWord v) && goal (· == .rawPointer)) ||
        ((w.shape? v).any (· == .rawPointer) && (isPointer t || isWord t)) ||
        (match w.underlying v, w.underlying t with
          | .slice a, .array _ b => w.identical a b
          | .slice a, .pointer p =>
            match w.underlying p with
            | .array _ b => w.identical a b
            | _ => false
          | _, _ => false)
    | _ => false

def converted? (c : Constant) (b : Basic) : Option Constant :=
  match c.held? b with
  | some v => some v
  | none =>
    if x.type.is w Shape.isInteger && b.shape == .string then c.whole?.map Constant.character else none

def convert (x : Operand) (t : SourceType) : Check Operand := do
  let w ← world
  let refuse (cause : String) : Check Operand := do
    failAt x "cannot convert " (" to type " ++ (← typeText t) ++ if cause.isEmpty then "" else ": " ++ cause)
  let constant : Option (Constant × Basic) :=
    match x.constant?, w.underlying t with
    | some c, .basic b => if b.shape.isConstant then some (c, b) else none
    | _, _ => none
  match constant with
  | some (c, b) =>
    match converted? w x c b with
    | some v =>
      let keeps := x.type.is w Shape.isInteger && b.shape == .string
      let y : Operand := { x with mode := .constant v }
      let _ ← if keeps || x.type.isTyped then pure y else withType y (.typed t)
      return { y with type := .typed t }
    | none =>
      if x.type.is w Shape.isInteger && b.isInteger then
        fail x.expr.start ("constant " ++ c.text ++ " overflows " ++ (← typeText t))
      else refuse ""
  | none =>
    let refusal ← unassignable? x t
    match refusal with
    | some cause => if !isConvertible w x.type t then let _ ← refuse cause
    | none => pure ()
    let final : ValueType :=
      if w.isInterface t || x.constant?.isSome || x.isNothing then defaultType x.type else .typed t
    if !x.type.isTyped then
      let _ ← withType x final
    return { x with mode := .value, type := .typed t, leaves := [] }

def invalid : String := "invalid operation: "

def greatestBits : Nat := 512

def greatestShift : Nat := 1074

def growthName : Expr → String
  | .binary _ _ "+" _ => "addition "
  | .binary _ _ "-" _ => "subtraction "
  | .binary _ _ "*" _ => "multiplication "
  | .binary _ _ "^" _ => "bitwise XOR "
  | .binary _ _ "<<" _ => "shift "
  | .unary _ "^" _ => "bitwise complement "
  | _ => ""

/-- Keeps a constant within its type, or, without one, within the limit; `pos` is where the operator stands. -/
def bounded (x : Operand) (pos : Nat) : Check Operand := do
  match x.constant?, x.type with
  | some _, .typed t =>
    match ← underlying t with
    | .basic b => needRepresentable x b
    | _ => return x
  | some c, _ =>
    if c.bitLength > greatestBits then fail pos ("constant " ++ growthName x.expr ++ "overflow")
    else return x
  | none, _ => return x

variable (e : Expr) (op : String)

def isDefined (s : Shape) : Bool :=
  match op with
  | "+" => s.isNumeric || s == .string
  | "-" | "*" | "/" => s.isNumeric
  | "&&" | "||" | "!" => s == .boolean
  | _ => s.isInteger

def needDefined (isUnary : Bool) (x : Operand) : Check Unit := do
  let defined (s : Shape) : Bool := if isUnary && op == "+" then s.isNumeric else isDefined op s
  if !(← is defined x) then failAt x (invalid ++ "operator " ++ op ++ " not defined on ") ""

def channelElement (pos : Nat) (x : Operand) (isReceive : Bool) : Check SourceType := do
  let verb := if isReceive then "cannot receive from " else "cannot send to "
  let refuse (what : String) : Check SourceType := do
    fail pos (invalid ++ verb ++ what ++ (← valueTypeText x.type) ++ " " ++ (← shown x))
  match ← underlying? x with
  | some (.channel direction element) =>
    if isReceive && direction == .send then refuse "send-only channel "
    else if !isReceive && direction == .receive then refuse "receive-only channel "
    else return element
  | _ => refuse "non-channel "

def unaryConstant (bits : Option Nat) (c : Constant) : Constant :=
  match op, c with
  | "-", c => c.negated
  | "!", .bool b => .bool !b
  | "^", c =>
    match c.whole?, bits with
    | some n, some size => .int (Number.twoTo size - 1 - n)
    | some n, none => .int (Constant.bitNot n)
    | none, _ => c
  | _, c => c

def unary (x : Operand) : Check Operand := do
  match op with
  | "&" =>
    let isComposite := x.expr.bare matches .composite _ _ _ _
    if !isComposite && x.mode != .place then failAt x (invalid ++ "cannot take address of ") ""
    let type : ValueType := match x.type with
      | .typed t => .typed (.pointer t)
      | other => other
    return { expr := e, mode := .value, type }
  | "<-" =>
    let element ← channelElement x.expr.start x true
    modify fun s => { s with hasCall := true }
    return { expr := e, mode := .commaOk, type := .typed element }
  | "~" =>
    fail e.start ("cannot use ~ outside of interface or type constraint" ++
      if ← is Shape.isInteger x then " (use ^ for bitwise complement)" else "")
  | _ =>
    needDefined op true x
    match x.constant? with
    | some c =>
      let w ← world
      let bits := match x.type.underlying? w with
        | some (.basic b) => if b.isUnsigned then some b.bits else none
        | _ => none
      bounded { x with expr := e, mode := .constant (unaryConstant op bits c) } e.start
    | none => return { x with expr := e, mode := .value }

def mayConvert (x y : Operand) : Check Bool := do
  let w ← world
  if x.type.isTyped && y.type.isTyped then return false
  if x.type.isInterface w || y.type.isInterface w then return true
  let differ (s : Shape) : Bool := x.type.is w (· == s) != y.type.is w (· == s)
  if differ .boolean || differ .string then return false
  if x.isNothing then return y.type.hasNothing w
  if y.isNothing then return x.type.hasNothing w
  let isPointer (z : Operand) : Bool := z.type.underlying? w matches some (.pointer _)
  return !isPointer x && !isPointer y

def match_ (x y : Operand) : Check (Operand × Operand) := do
  if ← mayConvert x y then
    let x ← convertUntyped x y.type
    let y ← convertUntyped y x.type
    return (x, y)
  else return (x, y)

def isComparison : Bool := ["==", "!=", "<", "<=", ">", ">="].contains op

def incomparable (t : SourceType) : Check String := do
  let w ← world
  match w.underlying t with
  | .slice _ | .function _ _ _ | .map _ _ => return (w.compositeWord? t).getD "" ++ " can only be compared to nil"
  | .record fields =>
    match fields.find? fun (_, type) => !w.isComparable type with
    | some (_, type) => return "struct containing " ++ (← typeText type) ++ " cannot be compared"
    | none => return ""
  | .array _ _ => return (← typeText t) ++ " cannot be compared"
  | _ => return ""

def incomparable? (x y : Operand) (op : String) : Check (Option (Operand × String)) := do
  let w ← world
  let fits (x y : Operand) : Check Bool :=
    match y.type with
    | .typed t => do return (← unassignable? x t).isNone
    | .untyped _ => do
      if x.type.isTyped then return false
      return (← implicit x y.type).isOk
    | _ => return false
  if !(← fits x y) && !(← fits y x) then
    return some (y, "mismatched types " ++ (← valueTypeText x.type) ++ " and " ++ (← valueTypeText y.type))
  if op == "==" || op == "!=" then
    if x.isNothing || y.isNothing then
      return if (if x.isNothing then y else x).type.hasNothing w then none else some (y, "")
    let defect (z : Operand) : Check (Option (Operand × String)) :=
      match z.type with
      | .typed t => do if w.isComparable t then return none else return some (z, ← incomparable t)
      | _ => return none
    match ← defect x with
    | some d => return some d
    | none => defect y
  else if !(← is Shape.isOrdered x) then return some (x, "")
  else if !(← is Shape.isOrdered y) then return some (y, "")
  else return none

def comparisonCause (x : Operand) (cause : String) : Check String := do
  if !cause.isEmpty then return cause
  let w ← world
  let what ← match x.type with
    | .typed t =>
      match w.compositeWord? t with
      | some word => pure word
      | none => typeText t
    | other => valueTypeText other
  return "operator " ++ op ++ " not defined on " ++ what

def settleCompared (x y : Operand) : Check Unit := do
  if x.constant?.isSome && y.constant?.isSome then return ()
  let _ ← withType x (defaultType x.type)
  let _ ← withType y (defaultType y.type)

def comparison (x y : Operand) : Check Operand := do
  match ← incomparable? x y op with
  | some (z, cause) =>
    fail z.expr.start (invalid ++ x.expr.text ++ " " ++ op ++ " " ++ y.expr.text ++ " (" ++
      (← comparisonCause op z cause) ++ ")")
  | none =>
    settleCompared x y
    let mode : Mode := match x.constant?, y.constant? with
      | some a, some b => .constant (.bool (a.compares op b))
      | _, _ => .value
    return { expr := e, mode, type := .untyped .bool }

def shiftCount (y : Operand) : Check (Operand × Option Int) := do
  let whole := y.constant?.bind Constant.whole?
  if whole.any (· < 0) then failAt y (invalid ++ "negative shift count ") ""
  if y.constant?.isSome && !y.type.isTyped then
    let _ ← needRepresentable y .uint
  if ← is Shape.isInteger y then return (y, whole)
  else if !y.type.isTyped then
    let y ← convertUntyped y (.typed (.basic .uint))
    return (y, whole)
  else failAt y (invalid ++ "shift count ") " must be integer"

def shift (e : Expr) (op : String) (x y : Operand) : Check Operand := do
  let whole := x.constant?.bind Constant.whole?
  let refuse : Check Operand := failAt x (invalid ++ "shifted operand ") " must be integer"
  if !((← is Shape.isInteger x) || (!x.type.isTyped && whole.isSome)) then return ← refuse
  let (y, count) ← shiftCount y
  match x.constant?, whole, y.constant? with
  | some _, some n, some _ =>
    match count with
    | some k =>
      if k > greatestShift then failAt y (invalid ++ "invalid shift count ") ""
      else
        let type : ValueType := if ← is Shape.isInteger x then x.type else .untyped .int
        let pos := match e with
          | .binary _ pos _ _ => pos
          | _ => e.start
        bounded { expr := e, mode := .constant (.int (Constant.shifted op n k.toNat)), type } pos
    | none => failAt y (invalid ++ "invalid shift count ") ""
  | some c, _, none =>
    match x.type with
    | .untyped sort =>
      return { expr := e, mode := .value, type := x.type
               leaves := [{ expr := x.expr, sort, value := some c, isShifted := true }] }
    | _ => return { x with expr := e, mode := .value }
  | _, _, _ =>
    if ← is Shape.isInteger x then return { x with expr := e, mode := .value } else refuse

def operationText (isAssignment : Bool) : String :=
  match e with
  | .binary left _ op right => if isAssignment then left.text ++ " " ++ op ++ "= " ++ right.text else e.text
  | _ => e.text

def binary (pos : Nat) (isAssignment : Bool) (x y : Operand) : Check Operand := do
  let w ← world
  if op == "<<" || op == ">>" then return ← shift e op x y
  let (x, y) ← match_ x y
  if isComparison op then return ← comparison e op x y
  if !x.type.identical w y.type then
    fail x.expr.start (invalid ++ operationText e isAssignment ++ " (mismatched types " ++ (← valueTypeText x.type) ++
      " and " ++ (← valueTypeText y.type) ++ ")")
  needDefined op false x
  let isWhole ← is Shape.isInteger x
  if (op == "/" || op == "%") && (x.constant?.isSome || isWhole) && y.constant?.any Constant.isZero then
    fail y.expr.start (invalid ++ "division by zero")
  match x.constant?, y.constant? with
  | some a, some b => bounded { x with expr := e, mode := .constant (Constant.operation op isWhole a b) } pos
  | _, _ => return { x with expr := e, mode := .value, leaves := x.parts ++ y.parts }

end Check

end Covenant.Source
