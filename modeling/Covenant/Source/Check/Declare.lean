import Covenant.Source.Check.Builtin

/-!
# Expressions and declarations inside of functions

What an expression stands for, by its form.  A new variable takes on the type of its value if it has none.  A name
means what it is declared as from the end of its declaration on; that of a type already inside of it.
-/

namespace Covenant.Source

namespace Semantics

open Check

def longestNumber : Nat := 10000

def typeOperand (e : Expr) (t : SourceType) : Operand := { expr := e, mode := .type, type := .typed t }

def nameOperand (e : Expr) (id : Ident) : Check Operand := do
  match ← entity id with
  | .type t => return typeOperand e t
  | .constant type value => return { expr := e, mode := .constant value, type }
  | .variable_ number =>
    setUsed number true
    let type := ((← variableAt? number).map (·.type)).getD anything
    return { expr := e, mode := .place, type := .typed type }
  | .builtin name => return { expr := e, mode := .builtin name, type := .nothing }
  | .nothing => return { expr := e, mode := .value, type := .untyped .nothing }
  | .iota =>
    match (← get).iota with
    | some n => return { expr := e, mode := .constant (.int n), type := .untyped .int }
    | none => fail id.pos "cannot use iota outside constant declaration"

def literalOperand (e : Expr) (sort : LiteralSort) (text : String) : Check Operand := do
  let size := (Text.toOctets text).length
  if size > longestNumber && sort != .rune && sort != .string then
    fail e.start ("excessively long constant: " ++ String.ofList (text.toList.take 10) ++ "... (" ++ toString size ++
      " chars)")
  match Constant.ofLiteral? sort text with
  | some c => bounded { expr := e, mode := .constant c, type := .untyped (Untyped.ofLiteral sort) } e.start
  | none => fail e.start ("malformed constant: " ++ text)

def lambda (s : Semantics) (e type : Expr) (body : List Stmt) (close : Nat) : Check Operand := do
  match type with
  | .funcType _ inputs outputs =>
    let parts ← s.functionParts inputs outputs
    let p ← get
    later (.body p.scopes p.iota parts.inputs parts.outputs body close)
    return { expr := e, mode := .value, type := .typed parts.type }
  | _ => fail e.start (type.text ++ " is not a function type")

def needWhole (x : Operand) : Check Unit := do
  match x.mode, x.type with
  | .type, .typed t =>
    if ← isGeneric t then
      fail x.expr.start ("cannot use generic type " ++ x.expr.text ++ " without instantiation")
  | _, _ => return ()

def assertion (s : Semantics) (e owner : Expr) (type : Option Expr) : Check Operand := do
  let w ← world
  let x ← s.value owner
  match type with
  | none => fail e.start "use of .(type) outside type switch"
  | some type =>
    match x.type with
    | .typed v =>
      if !w.isInterface v then failAt x invalid " is not an interface"
      let t ← s.valueType type
      let w ← world
      if !w.isInterface t then
        if let some (m, defect) := w.methodFault? (some (← here)) false t v then
          fail e.start
            ("impossible type assertion: " ++ e.text ++ "\n\t" ++ (← typeText t) ++ " does not implement " ++
            (← typeText v) ++ " " ++ w.methodFaultText (seenFrom (← here)) t v m defect)
      return { expr := e, mode := .commaOk, type := .typed t }
    | _ => failAt x invalid " is not an interface"

def indirect (s : Semantics) (e inner : Expr) : Check Operand := do
  let x ← s.valueOrType false inner
  match x.mode, x.type with
  | .type, .typed t =>
    later (.valueType inner.start t)
    return typeOperand e (.pointer t)
  | _, _ =>
    match ← underlying? x with
    | some (.pointer target) => return { expr := e, mode := .place, type := .typed target }
    | _ => failAt x (invalid ++ "cannot indirect ") ""

def call (s : Semantics) (e function : Expr) (arguments : List Expr) (spread : Option Nat) (close : Nat) :
    Check (Operand × ExprKind) := do
  let x ← s.valueOrType true function
  match x.mode, x.type with
  | .type, .typed t =>
    needWhole x
    return (← s.conversion e arguments spread close t, .conversion)
  | .builtin name, _ =>
    s.builtin { expr := e, name, function, arguments, spread, close }
  | _, _ => return (← s.called e function arguments spread close x, .statement)

def operand (s : Semantics) (hint : Option SourceType) (e : Expr) : Check (Operand × ExprKind) := do
  match e with
  | .paren _ inner =>
    let (x, kind) ← s.raw none false inner
    return ({ x with expr := e }, kind)
  | .call function arguments spread close => s.call e function arguments spread close
  | .unary _ op inner =>
    let x ← unary e op (← s.value inner)
    return (x, if op == "<-" then .statement else .expression)
  | _ =>
    let x ← match e with
      | .name id => nameOperand e id
      | .literal _ sort text => literalOperand e sort text
      | .lambda type body close => s.lambda e type body close
      | .composite type _ elements close => s.composite hint e type elements close
      | .select owner member => do selected e (← s.valueOrType false owner) member
      | .index owner arguments => do
        let x ← s.valueOrType true owner
        if x.mode == .type then pure (typeOperand e (← s.valueType e)) else s.indexed e x arguments
      | .slice owner low high limit isFull => do s.sliced e (← s.value owner) low high limit isFull
      | .assertion owner type => s.assertion e owner type
      | .star _ inner => s.indirect e inner
      | .binary left pos op right => do
        let x ← s.value left
        let y ← s.value right
        binary e op pos false x y
      | .pair _ _ => fail e.start "invalid syntax tree: no key:value expected"
      | .dots pos _ => fail pos "invalid syntax tree: invalid use of ..."
      | _ => do pure (typeOperand e (← s.wholeType e))
    return (x, .expression)

def operandRule (s : Semantics) (hint : Option SourceType) (mayLack : Bool) (e : Expr) :
    Check (Operand × ExprKind) := do
  let (x, kind) ← s.operand hint e
  if !mayLack then needWhole x
  return (x, kind)

end Semantics

namespace Semantics

open Check

def isCall (e : Expr) : Bool := e.bare matches .call _ _ _ _

def giveTo (type : Option SourceType) (context : String) (x : Operand) : Check SourceType := do
  let t ← match type with
    | some t => pure t
    | none =>
      if x.isNothing then fail x.expr.start ("use of untyped nil in " ++ context)
      pure ((defaultType x.type).typed?.getD anything)
  let _ ← assign x (some t) context
  return t

def counted (n : Nat) (unit : String) : String := toString n ++ " " ++ unit ++ if n == 1 then "" else "s"

variable (s : Semantics) {α : Type}

def assignMismatch (values : List Expr) (wanted given : Nat) : Check α := do
  let pos := (values.head?.map Expr.start).getD 0
  let message := "assignment mismatch: " ++ counted wanted "variable" ++ " but "
  match values.map Expr.bare with
  | [.call function _ _ _] => fail pos (message ++ function.text ++ " returns " ++ counted given "value")
  | _ => fail pos (message ++ counted given "value")

def returnMismatch (pos : Nat) (wanted : List (Option SourceType)) (given : List Operand) : Check α := do
  let pos := match given[wanted.length]?, given.getLast? with
    | some extra, _ => extra.expr.start
    | none, some last => last.expr.start
    | none, none => pos
  fail pos ((if given.length > wanted.length then "too many" else "not enough") ++ " return values\n\thave " ++
    (← givenText (given.map (·.type)) false) ++ "\n\twant " ++ (← wantedText (wanted.filterMap id) false))

def giveAll (types : List (Option SourceType)) (values : List Expr) (return_ : Option Nat) :
    Check (List SourceType) := do
  let context := if return_.isSome then "return statement" else "assignment"
  let mismatch (given : Nat) : Check (List Operand) := assignMismatch values types.length given
  if types.length == values.length && !(values.length == 1 && values.any isCall) then
    (types.zip values).mapM fun (t, e) => do giveTo t context (← s.value e)
  else
    let given ← match values with
      | [e] => do
        let xs ← s.values e (types.length == 2 && return_.isNone)
        if xs.length != types.length then
          match return_ with
          | some pos => returnMismatch pos types xs
          | none => mismatch xs.length
        else pure xs
      | _ => do
        values.forM s.use
        match return_ with
        | some pos => returnMismatch pos types (← s.valueList values)
        | none => mismatch values.length
    (types.zip given).mapM fun (t, x) => giveTo t context x

def withoutUse (e : Expr) (c : Check α) : Check α := do
  match e.bare with
  | .name id =>
    match ← lookup? id.text with
    | some (.variable_ number) =>
      let isUsed := ((← variableAt? number).map (·.isUsed)).getD false
      let a ← c
      setUsed number isUsed
      return a
    | _ => c
  | _ => c

def goal (e : Expr) : Check (Option SourceType) := do
  let isBlank := match e.bare with
    | .name id => id.text == "_"
    | _ => false
  if isBlank then return none
  let x ← withoutUse e (s.value e)
  match x.mode with
  | .place | .mapIndex => return x.type.typed?
  | _ =>
    if let .select owner _ := x.expr then
      if (← s.value owner).mode == .mapIndex then
        fail e.start ("cannot assign to struct field " ++ e.text ++ " in map")
    fail e.start ("cannot assign to " ++ e.text ++ " (neither addressable nor a map index expression)")

def assignmentContext (goal : Option SourceType) (context : String) : String :=
  if goal.isNone && context == "assignment" then "assignment to _ identifier" else context

def assignTo (e : Expr) (x : Operand) (context : String) : Check Unit := do
  let t ← s.goal e
  let _ ← assign x t (assignmentContext t context)

def assignAll (left right : List Expr) : Check Unit := do
  if left.length == right.length && !(right.length == 1 && right.any isCall) then
    (left.zip right).forM fun (l, r) => do
      let t ← s.goal l
      let _ ← assign (← s.value r) t (assignmentContext t "assignment")
  else match right with
    | [e] =>
      let xs ← s.values e (left.length == 2)
      if xs.length != left.length then assignMismatch right left.length xs.length
      (left.zip xs).forM fun (l, x) => s.assignTo l x "assignment"
    | _ =>
      left.forM fun l => withoutUse l (s.use l)
      right.forM s.use
      assignMismatch right left.length right.length

inductive ShortVariable where
  | known (type : SourceType)
  | new (id : Ident)

def shortVariables (s : Semantics) : List String → List Expr → Check (List ShortVariable)
  | _, [] => return []
  | seen, e :: es => do
    match e with
    | .name id =>
      if id.text != "_" && seen.contains id.text then fail e.start (id.text ++ " repeated on left side of :=")
      let scope := (← get).scopes.headD { number := 0 }
      let v : ShortVariable ← match scope.entries.lookup id.text with
        | some (.variable_ number) => do pure (.known (((← variableAt? number).map (·.type)).getD anything))
        | some _ => fail e.start ("cannot assign to " ++ id.text)
        | none => pure (.new id)
      return v :: (← s.shortVariables (id.text :: seen) es)
    | _ =>
      withoutUse e (s.use e)
      fail e.start ("non-name " ++ e.text ++ " on left side of :=")

def shortDeclaration (pos : Nat) (left right : List Expr) : Check Unit := do
  let start ← mark
  let vars ← s.shortVariables [] left
  let types ← s.giveAll (vars.map fun
    | .known t => some t
    | .new _ => none) right none
  s.settle start
  let fresh := (vars.zip types).filterMap fun (v, t) =>
    match v with
    | .new id => if id.text == "_" then none else some (id, t)
    | .known _ => none
  if fresh.isEmpty then fail pos "no new variables on left side of :="
  fresh.forM fun (id, t) => declareVariable id t false

/-- The type and the values of the last declaration that had any; constants that lack them take them over. -/
structure Inherited where
  pos : Nat := 0
  type : Option Expr := none
  values : List Expr := []

def namesStart (names : List Ident) : Nat := (names.head?.map Ident.pos).getD 0

/-- Checks that there are as many values as names; one value may stand for several variables, and values may be taken
over from a declaration before. -/
def needEqual (names : List Ident) (values : List Expr) (isConstant : Bool) (source : Option Nat) : Check Unit := do
  if let some extra := values[names.length]? then
    match source with
    | some pos => fail (namesStart names) ("extra init expr at " ++ placeOf (← read).text pos)
    | none => fail extra.start ("extra init expr " ++ extra.text)
  if isConstant || values.length != 1 then
    if let some id := names[values.length]? then fail id.pos ("missing init expr for " ++ id.text)

def faultsAt (pos : Option Nat) (c : Check α) : Check α :=
  match pos with
  | none => c
  | some pos => tryCatch c fun fault => throw { fault with offset := pos }

def constantEntity (id : Ident) (type : Option Expr) (value : Expr) (isInherited : Bool) : Check Entity := do
  let w ← world
  let t ← match type with
    | none => pure none
    | some e => do
      let t ← s.wholeType e
      if !(w.shape? t).any Shape.isConstant then fail e.start ("invalid constant type " ++ (← typeText t))
      pure (some t)
  faultsAt (if isInherited then some id.pos else none) do
    let x ← s.value value
    if x.constant?.isNone then failAt x "" " is not constant"
    let x ← if t.isSome then assign x t "constant declaration" else pure x
    match t, x.constant? with
    | some t, some c => return .constant (.typed t) c
    | none, some c => return .constant x.type c
    | _, none => return .nothing

def declareConstants (number : Nat) (before : Inherited) (spec : Spec) : Check Inherited := do
  match spec with
  | .type _ _ _ _ => return before
  | .values names type values =>
    let isInherited := type.isNone && values.isEmpty
    let last : Inherited := if isInherited then before else { pos := namesStart names, type, values }
    needEqual names last.values true (if isInherited then some last.pos else none)
    let start ← mark
    let outer := (← get).iota
    modify fun p => { p with iota := some number }
    let entities ← (names.zip last.values).mapM fun (id, v) => do
      return (id, ← s.constantEntity id last.type v isInherited)
    modify fun p => { p with iota := outer }
    s.settle start
    entities.forM fun (id, e) => declare id e
    return last

def declareConstantGroup (s : Semantics) : Nat → Inherited → List Spec → Check Unit
  | _, _, [] => return ()
  | number, before, spec :: rest => do
    let last ← s.declareConstants number before spec
    s.declareConstantGroup (number + 1) last rest

def declareVariables (spec : Spec) : Check Unit := do
  match spec with
  | .type _ _ _ _ => return ()
  | .values names type values =>
    if type.isNone || !values.isEmpty then needEqual names values false none
    let start ← mark
    let typeOf : Check (Option SourceType) := type.mapM s.valueType
    let types : List SourceType ← match names, values with
      | [_], [v] => do
        let t ← typeOf
        pure [← giveTo t "variable declaration" (← s.value v)]
      | _, [v] => do
        let t ← typeOf
        s.giveAll (names.map fun _ => t) [v] none
      | _, [] => names.mapM fun _ => do return (← typeOf).getD anything
      | _, _ => (names.zip values).mapM fun (_, v) => do
        let t ← typeOf
        giveTo t "variable declaration" (← s.value v)
    s.settle start
    (names.zip types).forM fun (id, t) => declareVariable id t false

def setType (name : TypeName) (spec : TypeSpec) : Check Unit :=
  modify fun p => { p with types := p.types.set (name.serial - 1) spec }

def constraint (s : Semantics) (e : Expr) : Check SourceType := do
  let t ← match e with
    | .unary _ "~" _ | .binary _ _ "|" _ => s.embeddedType e
    | _ => s.wholeType e
  if (← world).isParameter t then fail e.start "cannot use a type parameter as constraint"
  return t

def declareTypeParam (id : Ident) : Check Unit := do
  let p ← get
  set { p with bounds := p.bounds ++ [anything] }
  declare id (.type (.parameter id.text (p.bounds.length + 1)))

def typeParams (name : TypeName) (unknown : TypeSpec) (params : List FieldExpr) : Check (List TypeParam) := do
  let first := (← get).bounds.length
  params.forM fun f => f.names.forM declareTypeParam
  let open_ := params.flatMap fun f => f.names.map fun id => ({ name := id.text, constraint := anything } : TypeParam)
  setType name { unknown with params := open_ }
  let groups ← params.mapM fun f => do
    let t ← s.constraint f.type
    return f.names.map fun id => ({ name := id.text, constraint := t } : TypeParam)
  let closed := groups.flatten
  modify fun p =>
    let behind := p.bounds.drop (first + closed.length)
    { p with bounds := p.bounds.take first ++ closed.map (·.constraint) ++ behind }
  return closed

def declareType (spec : Spec) : Check Unit := do
  match spec with
  | .values _ _ _ => return ()
  | .type id params isAlias definition =>
    let p ← get
    let name : TypeName := { home := some (← here), name := id.text, serial := p.types.length + 1 }
    let unknown : TypeSpec := { name := id.text, isAlias, definition := .record [] }
    set { p with types := p.types ++ [unknown] }
    declare id (.type (.named name []))
    if !isAlias then later (.definition id.pos name)
    let outer := p.alias_
    modify fun p => { p with alias_ := if isAlias then some (name, id.pos) else outer }
    inScope do
      let params ← s.typeParams name unknown params
      setType name { unknown with params }
      let t ← s.wholeType definition
      if (← world).isParameter t then
        fail definition.start (if isAlias then "cannot use type parameter declared in alias declaration as RHS"
          else "cannot use a type parameter as RHS in type declaration")
      if let .named other _ := (← world).unalias t then
        if other == name then fail id.pos ("invalid recursive type: " ++ id.text ++ " refers to itself")
      setType name { unknown with params, definition := t }
    modify fun p => { p with alias_ := outer }

end Semantics

end Covenant.Source
