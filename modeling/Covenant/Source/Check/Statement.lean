import Covenant.Source.Check.Declare

/-!
# Statements

Statements are looked at in order, each in the scope that the ones before it have left.  The body of a function with
results may not run off its end, and jumps go to labels that can be reached.
-/

namespace Covenant.Source

namespace Stmt

def isEmpty : Stmt → Bool
  | empty _ => true
  | _ => false

mutual
/-- Whether a statement leaves the one with a label, or, if that is asked, the nearest one that can be left. -/
def leaves (label : String) (isNearest : Bool) : Stmt → Bool
  | labeled _ s => leaves label isNearest s
  | branch _ .leave none => isNearest
  | branch _ .leave (some id) => id.text == label
  | block _ body _ => leavesList label isNearest body
  | cond _ _ _ body none => leavesList label isNearest body
  | cond _ _ _ body (some other) => leavesList label isNearest body || leaves label isNearest other
  | switch _ _ _ _ clauses | typeSwitch _ _ _ clauses | select _ clauses =>
    label != "" && leavesClauses label false clauses
  | loop _ _ _ _ body | range _ _ _ _ _ body => label != "" && leaves label false body
  | _ => false

def leavesList (label : String) (isNearest : Bool) : List Stmt → Bool
  | [] => false
  | s :: ss => leaves label isNearest s || leavesList label isNearest ss

def leavesClauses (label : String) (isNearest : Bool) : List Clause → Bool
  | [] => false
  | .mk _ _ _ _ body :: cs => leavesList label isNearest body || leavesClauses label isNearest cs
end

mutual
def isFinal (endless : List Nat) (label : String) : Stmt → Bool
  | labeled id s => isFinal endless id.text s
  | expression e =>
    match e.bare with
    | .call _ _ _ close => endless.contains close
    | _ => false
  | ret _ _ => true
  | branch _ word _ => word == .goto || word == .fall
  | block _ body _ => isFinalList endless "" body
  | cond _ _ _ body (some other) => isFinalList endless "" body && isFinal endless "" other
  | switch _ _ _ _ clauses | typeSwitch _ _ _ clauses =>
    clauses.any Clause.isDefault && areFinal endless label clauses
  | select _ clauses => areFinal endless label clauses
  | loop _ _ none _ body => !leaves label true body
  | _ => false

def isFinalList (endless : List Nat) (label : String) : List Stmt → Bool
  | [] => false
  | s :: ss => if ss.all isEmpty then isFinal endless label s else isFinalList endless label ss

def areFinal (endless : List Nat) (label : String) : List Clause → Bool
  | [] => true
  | .mk _ _ _ _ body :: cs =>
    isFinalList endless "" body && !leavesList label true body && areFinal endless label cs
end

def canLeave : Stmt → Bool
  | switch _ _ _ _ _ | typeSwitch _ _ _ _ | select _ _ | loop _ _ _ _ _ | range _ _ _ _ _ _ => true
  | _ => false

def canContinue : Stmt → Bool
  | loop _ _ _ _ _ | range _ _ _ _ _ _ => true
  | _ => false

end Stmt

structure LabelBlock where
  labels : List String := []
  around : Option (String × Stmt) := none
  ahead : List Ident := []
  barred : List Ident := []
  barrier : Nat := 0

structure LabelState where
  all : List (Ident × Bool) := []
  blocks : List LabelBlock := []
  line : Nat → Nat

abbrev Labels := StateT LabelState (Except ExprFault)

namespace Labels

def fail {α : Type} (pos : Nat) (message : String) : Labels α := throw ⟨pos, message⟩

def block : Labels LabelBlock := do return (← get).blocks.headD {}

def modifyBlock (f : LabelBlock → LabelBlock) : Labels Unit :=
  modify fun s =>
    match s.blocks with
    | b :: bs => { s with blocks := f b :: bs }
    | [] => s

def use (name : String) : Labels Unit :=
  modify fun s => { s with all := s.all.map fun (id, isUsed) => (id, isUsed || id.text == name) }

def bar (pos : Nat) : Labels Unit := modifyBlock fun b => { b with barred := b.ahead, barrier := pos }

def declare (id : Ident) (s : Stmt) : Labels Unit := do
  if id.text == "_" then return ()
  if (← get).all.any fun (other, _) => other.text == id.text then
    fail id.pos ("label " ++ id.text ++ " already declared")
  modify fun st => { st with all := st.all ++ [(id, false)] }
  let b ← block
  let (arrived, ahead) := b.ahead.partition fun j => j.text == id.text
  if !arrived.isEmpty then use id.text
  if let some j := arrived.find? fun j => b.barred.any fun o => o.pos == j.pos then
    fail j.pos ("goto " ++ id.text ++ " jumps over variable declaration at line " ++
      toString ((← get).line b.barrier))
  modifyBlock fun b => { b with labels := id.text :: b.labels, ahead, around := some (id.text, s) }

def enclosing? (name : String) : Labels (Option Stmt) := do
  return (← get).blocks.findSome? fun b => (b.around.filter fun (n, _) => n == name).map (·.2)

def jump (word : Branch) (id : Ident) : Labels Unit := do
  match word with
  | .leave =>
    if !((← enclosing? id.text).any Stmt.canLeave) then fail id.pos ("invalid break label " ++ id.text)
    use id.text
  | .again =>
    if !((← enclosing? id.text).any Stmt.canContinue) then fail id.pos ("invalid continue label " ++ id.text)
    use id.text
  | _ =>
    if (← get).blocks.any fun b => b.labels.contains id.text then use id.text
    else modifyBlock fun b => { b with ahead := b.ahead ++ [id] }

def nested (around : Option (String × Stmt)) (inner : Labels Unit) : Labels Unit := do
  modify fun s => { s with blocks := { around } :: s.blocks }
  inner
  let b ← block
  modify fun s => { s with blocks := s.blocks.drop 1 }
  modifyBlock fun outer => { outer with ahead := outer.ahead ++ b.ahead }

mutual
def ofStmt : Stmt → Labels Unit
  | .vars pos _ => bar pos
  | .labeled id s => do
    declare id s
    ofStmt s
  | .branch _ word (some id) => jump word id
  | .assign left pos ":=" _ => bar ((left.head?.map Expr.start).getD pos)
  | .block _ body _ => do nested (← block).around (ofList body)
  | .cond _ _ _ body none => do nested (← block).around (ofList body)
  | .cond _ _ _ body (some other) => do
    nested (← block).around (ofList body)
    ofStmt other
  | .switch _ _ _ _ clauses | .typeSwitch _ _ _ clauses | .select _ clauses => do
    nested (← block).around (ofClauses clauses)
  | .loop _ _ _ _ body | .range _ _ _ _ _ body => ofStmt body
  | _ => return ()

def ofList : List Stmt → Labels Unit
  | [] => return ()
  | s :: ss => do
    ofStmt s
    ofList ss

def ofClauses : List Clause → Labels Unit
  | [] => return ()
  | .mk _ _ _ _ body :: cs => do
    nested none (ofList body)
    ofClauses cs
end

def ofBody (body : List Stmt) : Labels Unit := do
  modify fun s => { s with blocks := [{}] }
  ofList body
  let ahead := (← block).ahead
  let all := (← get).all
  if let some j := ahead.head? then
    if all.any fun (id, _) => id.text == j.text then fail j.pos ("goto " ++ j.text ++ " jumps into block")
    else fail j.pos ("label " ++ j.text ++ " not declared")
  if let some (id, _) := all.find? fun (_, isUsed) => !isUsed then
    fail id.pos ("label " ++ id.text ++ " declared and not used")

end Labels

def Context.inner (c : Context) : Context :=
  { c with mayFall := false, isFinalCase := false, isTypeSwitch := false }

namespace Semantics

open Check

variable (s : Semantics) (c : Context)

def statements (body : List Stmt) : Check Unit := do
  let body := (body.reverse.dropWhile Stmt.isEmpty).reverse
  body.dropLast.forM (s.statement { c with mayFall := false })
  body.getLast?.forM (s.statement c)

def headStatement (st : Option Stmt) : Check Unit := st.forM (s.statement {})

def expressionStatement (e : Expr) : Check Unit := do
  let (x, kind) ← s.raw none false e
  match x.mode with
  | .builtin _ => failAt x "" " must be called"
  | .type => failAt x "" " is not an expression"
  | _ => if kind != .statement then failAt x "" " is not used"

def assignWith (left : Expr) (pos : Nat) (op : String) (right : Expr) (context : String) : Check Unit := do
  let x ← s.value left
  let y ← s.value right
  let z ← binary (.binary left pos op right) op pos true x y
  s.assignTo left z context

def step (e : Expr) (pos : Nat) (op : String) : Check Unit := do
  let x ← s.value e
  if !(← is Shape.isNumeric x) then
    fail e.start (invalid ++ e.text ++ op ++ " (non-numeric type " ++ (← valueTypeText x.type) ++ ")")
  s.assignWith e pos (String.ofList (op.toList.take 1)) (.literal e.start .int "1") "assignment"

def suspended (keyword : String) (e : Expr) : Check Unit := do
  let (x, kind) ← s.raw none false e
  match kind with
  | .conversion => failAt x (keyword ++ " requires function call, not conversion ") ""
  | .expression => failAt x (keyword ++ " discards result of ") ""
  | .statement => return ()

def returning (pos : Nat) (values : List Expr) : Check Unit := do
  let results := ((← get).results).getD []
  let isNamed := results.head?.any fun r => !r.name.isEmpty
  if values.isEmpty && isNamed then
    results.forM fun r => do
      match ← lookup? r.name with
      | some (.variable_ number) =>
        if number != r.number then fail pos ("result parameter " ++ r.name ++ " not in scope at return")
      | some _ => if r.name != "_" then fail pos ("result parameter " ++ r.name ++ " not in scope at return")
      | none => return ()
  else
    let _ ← s.giveAll (results.map fun r => some r.type) values (some pos)

def branching (pos : Nat) (word : Branch) (label : Option Ident) : Check Unit := do
  if label.isSome then modify fun p => { p with hasLabel := true }
  else match word with
    | .leave => if !c.mayLeave then fail pos "break not in for, switch, or select statement"
    | .again => if !c.mayContinue then fail pos "continue not in for statement"
    | .fall =>
      if !c.mayFall then
        fail pos (if c.isFinalCase then "cannot fallthrough final case in switch"
          else if c.isTypeSwitch then "cannot fallthrough in type switch"
          else "fallthrough statement out of place")
    | .goto => fail pos "invalid syntax tree: branch statement: goto"

def condition (s : Semantics) (e : Expr) (what : String) : Check Unit := do
  let x ← s.value e
  if !(← is (· == .boolean) x) then fail e.start ("non-boolean condition in " ++ what ++ " statement")

def needSingleDefault (clauses : List Clause) : Check Unit := do
  match clauses.filter Clause.isDefault with
  | first :: second :: _ =>
    fail second.pos ("multiple defaults (first at " ++ placeOf (← read).text first.pos ++ ")")
  | _ => return ()

/-- Constants that a case may hold only once: numbers but complex ones, and texts. -/
def isCaseKey : Constant → Bool
  | .number _ | .string _ => true
  | _ => false

def caseValues (s : Semantics) (x : Operand) : SeenKeys → List Expr → Check SeenKeys
  | seen, [] => return seen
  | seen, e :: es => do
    let w ← world
    let (v, x) ← match_ (← s.value e) x
    if let some (z, cause) ← incomparable? v x "==" then
      fail v.expr.start ("invalid case " ++ v.expr.text ++ " in switch on " ++ x.expr.text ++ " (" ++
        (← comparisonCause "==" z cause) ++ ")")
    settleCompared v x
    let seen ← match v.constant?, v.type with
      | some c, .typed t => do
        if isCaseKey c && seen.any fun (other, u) => c.isAlike other && w.identical t u then
          failAt v "duplicate case " " in expression switch"
        pure ((c, t) :: seen)
      | _, _ => pure seen
    s.caseValues x seen es

def cases (s : Semantics) (c : Context) (x : Operand) : SeenKeys → List Clause → Check Unit
  | _, [] => return ()
  | seen, clause :: rest => do
    let seen ← s.caseValues x seen clause.values
    let isFinal := rest.isEmpty
    inScope (s.statements { c with mayFall := !isFinal, isFinalCase := isFinal } clause.body)
    s.cases c x seen rest

def switch (s : Semantics) (c : Context) (start : Option Stmt) (tag : Option Expr) (brace : Nat)
    (clauses : List Clause) : Check Unit := inScope do
  s.headStatement start
  let x : Operand ← match tag with
    | some e => do
      let x ← assign (← s.value e) none "switch expression"
      let w ← world
      let fits := match x.type with
        | .typed t => w.isComparable t || w.hasNothing t
        | _ => true
      if !fits then failAt x "cannot switch on " ""
      pure x
    | none =>
      pure { expr := .name ⟨brace, "true"⟩, mode := .constant (.bool true), type := .typed (.basic .bool) }
  needSingleDefault clauses
  s.cases { c.inner with mayLeave := true } x [] clauses

def isNothing (e : Expr) : Check Bool := do
  match e.bare with
  | .name id => return ((← lookup? id.text) matches some .nothing)
  | _ => return false

/-- Looks at the types of a case; nothing counts as one of them.  Gives the types so far and the last one. -/
def caseTypes (s : Semantics) (x : Operand) (v : SourceType) :
    List (Option SourceType) → Option SourceType → List Expr → Check (List (Option SourceType) × Option SourceType)
  | seen, last, [] => return (seen, last)
  | seen, _, e :: es => do
    let t ← if ← isNothing e then pure none else some <$> s.valueType e
    let w ← world
    let isSeen := seen.any fun
      | none => t.isNone
      | some u => t.any (w.identical u)
    let name ← match t with
      | some t => typeText t
      | none => pure "nil"
    if isSeen then fail e.start ("duplicate case " ++ name ++ " in type switch")
    if let some t := t then
      if !w.isInterface t then
        if let some (m, defect) := w.methodFault? (some (← here)) false t v then
          fail e.start ("impossible type switch case: " ++ e.text ++ "\n\t" ++ (← shown x) ++
            " cannot have dynamic type " ++ name ++ " " ++ w.methodFaultText (seenFrom (← here)) t v m defect)
    s.caseTypes x v (seen ++ [t]) t es

/-- The cases of a type switch.  Gives the variables that stand for the value, one for each case. -/
def typeCases (s : Semantics) (c : Context) (x : Operand) (v : SourceType) (id : Option Ident) :
    List (Option SourceType) → List Clause → Check (List Nat)
  | _, [] => return []
  | seen, clause :: rest => do
    let (seen, last) ← s.caseTypes x v seen none clause.values
    let type := if clause.values.length == 1 then last.getD v else v
    let number ← inScope do
      let number ← id.mapM fun id => do
        let number ← newVariable id type false
        declare id (.variable_ number)
        return number
      s.statements { c with isFinalCase := false } clause.body
      return number
    return number.toList ++ (← s.typeCases c x v id seen rest)

def typeSwitch (pos : Nat) (start : Option Stmt) (guard : Stmt) (clauses : List Clause) : Check Unit := inScope do
  s.headStatement start
  let (id, owner) : Option Ident × Expr ← match guard with
    | .expression (.assertion owner none) => pure (none, owner)
    | .assign [.name id] _ ":=" [.assertion owner none] => do
      if id.text == "_" then fail id.pos "no new variable on left side of :="
      pure (some id, owner)
    | _ => fail pos "invalid syntax tree: incorrect form of type switch guard"
  let x ← s.value owner
  let w ← world
  match x.type with
  | .typed v =>
    if !w.isInterface v then failAt x "" " is not an interface"
    needSingleDefault clauses
    let numbers ← s.typeCases { c.inner with mayLeave := true, isTypeSwitch := true } x v id [] clauses
    if let some id := id then
      let isUsed ← numbers.anyM fun n => do return ((← variableAt? n).map (·.isUsed)).getD true
      numbers.forM (setUsed · true)
      if !isUsed then fail id.pos ("declared and not used: " ++ id.text)
  | _ => failAt x "" " is not an interface"

def isCommunication : Stmt → Bool
  | .send _ _ _ => true
  | .assign _ _ _ [e] | .expression e => (e.bare matches .unary _ "<-" _)
  | _ => false

def select (s : Semantics) (c : Context) (clauses : List Clause) : Check Unit := do
  needSingleDefault clauses
  let inner := { c.inner with mayLeave := true }
  clauses.forM fun clause => do
    if let some st := clause.communication then
      if !isCommunication st then fail st.start "select case must be receive, send or assign recv"
    inScope do
      clause.communication.forM (s.statement inner)
      s.statements inner clause.body

def loop (start : Option Stmt) (test : Option Expr) (post : Option Stmt) (body : Stmt) : Check Unit := inScope do
  s.headStatement start
  test.forM fun e => s.condition e "for"
  s.headStatement post
  if let some (.assign left pos ":=" _) := post then
    fail ((left.head?.map Expr.start).getD pos) "cannot declare in post statement"
  s.statement { c.inner with mayLeave := true, mayContinue := true } body

/-- The types of the key and the value that a loop goes through, or why it cannot. -/
def rangeTypes (w : World) (x : Operand) : Except String (Option ValueType × Option SourceType) :=
  let typed (t : SourceType) : Option ValueType := some (.typed t)
  let yields (why : String) : Except String (Option ValueType × Option SourceType) :=
    .error ("func must be func(yield func(...) bool): " ++ why)
  let element (t : SourceType) : Except String (Option ValueType × Option SourceType) :=
    .ok (typed (.basic .int), some t)
  if x.type.is w (· == .string) then element (.basic .rune)
  else if x.type.is w Shape.isInteger then .ok (some x.type, none)
  else match x.type.underlying? w with
    | some (.array _ t) | some (.slice t) => element t
    | some (.pointer p) =>
      match w.underlying p with
      | .array _ t => element t
      | _ => .error ""
    | some (.map key value) => .ok (typed key, some value)
    | some (.channel .send _) => .error "receive from send-only channel"
    | some (.channel _ t) => .ok (typed t, none)
    | some (.function inputs outputs _) =>
      match inputs, outputs with
      | [(_, yield)], [] =>
        match w.underlying yield with
        | .function [] [(_, r)] _ | .function [_] [(_, r)] _ | .function [_, _] [(_, r)] _ =>
          if w.identical r (.basic .bool) then
            match w.underlying yield with
            | .function [(_, k)] _ _ => .ok (typed k, none)
            | .function [(_, k), (_, v)] _ _ => .ok (typed k, some v)
            | _ => .ok (none, none)
          else if w.shape? r == some .boolean then yields "yield func returns user-defined boolean, not bool"
          else yields "yield func does not return bool"
        | .function is _ _ =>
          if is.length > 2 then yields "yield func has too many parameters"
          else yields "yield func does not return bool"
        | _ => yields "argument is not func"
      | [_], _ => yields "unexpected results"
      | _, _ => yields "wrong argument count"
    | _ => .error ""

def rangeNew (x : Operand) (isNumber : Bool) (e : Expr) (type : Option ValueType) :
    Check (Option (Ident × SourceType)) := do
  match e with
  | .name id =>
    match type with
    | none => return none
    | some type =>
      let t ← if isNumber then giveTo none "range clause" x
        else giveTo none "assignment" { expr := e, mode := .value, type }
      return if id.text == "_" then none else some (id, t)
  | _ => fail e.start ("invalid syntax tree: cannot declare " ++ e.text)

def rangeOld (x : Operand) (isNumber : Bool) (e : Expr) (type : Option ValueType) : Check Unit := do
  match type with
  | none => return ()
  | some type =>
    if isNumber then
      let y ← assign x (← s.goal e) "range"
      if !(← is Shape.isInteger y) then
        fail e.start ("cannot use iteration variable of type " ++ (← valueTypeText y.type))
    else s.assignTo e { expr := e, mode := .value, type } "assignment"

def range (s : Semantics) (c : Context) (key value : Option Expr) (define : Option Nat) (domain : Expr)
    (body : Stmt) :
    Check Unit := do
  let x ← s.value domain
  let w ← world
  let (k, v) ← match rangeTypes w x with
    | .error why => failAt x "cannot range over " (if why.isEmpty then "" else ": " ++ why)
    | .ok types => pure types
  if let some e := key then
    if k.isNone then fail e.start ("range over " ++ (← shown x) ++ " permits no iteration variables")
  if let some e := value then
    if v.isNone then fail e.start ("range over " ++ (← shown x) ++ " permits only one iteration variable")
  let isNumber ← is Shape.isInteger x
  let sides := [(key, k), (value, v.map ValueType.typed)].filterMap fun (e, t) => e.map (·, t)
  inScope do
    match define with
    | some pos =>
      let vars ← sides.mapM fun (e, t) => rangeNew x isNumber e t
      let fresh := vars.filterMap fun v => v
      if fresh.isEmpty then fail pos "no new variables on left side of :="
      fresh.forM fun (id, t) => declareVariable id t false
    | none =>
      if sides.isEmpty then
        if isNumber then
          let _ ← assign x none "range clause"
      else sides.forM fun (e, t) => s.rangeOld x isNumber e t
    s.statement { c.inner with mayLeave := true, mayContinue := true } body

def assignment (s : Semantics) (left : List Expr) (pos : Nat) (op : String) (right : List Expr) : Check Unit := do
  match op with
  | ":=" => s.shortDeclaration ((left.head?.map Expr.start).getD pos) left right
  | "=" => s.assignAll left right
  | _ =>
    match left, right with
    | [l], [r] => s.assignWith l pos (String.ofList op.toList.dropLast) r "assignment operation"
    | _, _ => fail pos ("assignment operation " ++ op ++ " requires single-valued expressions")

def statementOf (st : Stmt) : Check Unit := do
  match st with
  | .bad _ | .empty _ => return ()
  | .constants _ specs => s.declareConstantGroup 0 {} specs
  | .vars _ specs => specs.forM s.declareVariables
  | .types _ specs => specs.forM s.declareType
  | .labeled _ inner =>
    modify fun p => { p with hasLabel := true }
    s.statement c inner
  | .expression e => s.expressionStatement e
  | .send channel _ value =>
    let ch ← s.value channel
    let v ← s.value value
    let _ ← assign v (some (← channelElement channel.start ch false)) "send"
  | .step e pos op => s.step e pos op
  | .assign left pos op right => s.assignment left pos op right
  | .go _ e => s.suspended "go" e
  | .defer _ e => s.suspended "defer" e
  | .ret pos values => s.returning pos values
  | .branch pos word label => branching c pos word label
  | .block _ body _ => inScope (s.statements c.inner body)
  | .cond pos start test body other =>
    inScope do
      s.headStatement start
      s.condition test "if"
      s.statement c.inner (.block pos body pos)
      other.forM (s.statement c.inner)
  | .switch _ start tag brace clauses => s.switch c start tag brace clauses
  | .typeSwitch pos start guard clauses => s.typeSwitch c pos start guard clauses
  | .select _ clauses => s.select c clauses
  | .loop _ start test post body => s.loop c start test post body
  | .range _ key value define domain body => s.range c key value define domain body

def statementRule (st : Stmt) : Check Unit := do
  let start ← mark
  s.statementOf c st
  s.settle start

end Semantics

end Covenant.Source
