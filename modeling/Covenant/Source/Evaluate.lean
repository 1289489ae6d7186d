import Covenant.Source.Check.Statement
import Covenant.Source.Reader.Statement

/-!
# What expressions mean

The body of a function is looked at once the statement around it has been, and so are the conditions on types.
`Semantics.ofDepth` has all rules, for texts that are nested less deeply than its depth.  `World.evaluate` finds out
whether an expression in a package is a type, a built-in function, a constant or another value.
-/

namespace Covenant.Source

namespace Semantics

open Check

def declareParameter (id : Ident) (t : SourceType) : Check Nat := do
  let number ← newVariable id t true
  if !id.text.isEmpty then declare id (.variable_ number)
  return number

/-- Every variable of a function is used; the first one that is not is reported, those of outer scopes first. -/
def needUses (function : Nat) : Check Unit := do
  let unused := (← get).variables_.toList.filter fun v => v.function == function && !v.isUsed
  let before (a b : Variable) : Bool := a.scope < b.scope || (a.scope == b.scope && a.pos ≤ b.pos)
  if let some v := (Text.sortBy before unused).head? then fail v.pos ("declared and not used: " ++ v.name)

def needLabels (body : List Stmt) : Check Unit := do
  let text := (← read).text
  match (Labels.ofBody body).run { line := lineOf text } with
  | .ok _ => return ()
  | .error fault => throw fault

def functionBody (s : Semantics) (scopes : List Scope) (iota : Option Nat)
    (inputs outputs : List (Ident × SourceType)) (body : List Stmt) (close : Nat) : Check Unit := do
  let outer ← get
  let function := outer.functionCount + 1
  set { outer with scopes, iota, function, functionCount := function, hasLabel := false, hasCall := false }
  inScope do
    inputs.forM fun (id, t) => do
      let _ ← declareParameter id t
    let results ← outputs.mapM fun (id, t) => do
      return ({ name := id.text, type := t, number := ← declareParameter id t } : Result)
    modify fun p => { p with results := some results }
    s.statements {} body
    if (← get).hasLabel then needLabels body
    if !outputs.isEmpty && !Stmt.isFinalList (← get).endless "" body then fail close "missing return"
    needUses function
  modify fun p =>
    { p with scopes := outer.scopes, iota := outer.iota, results := outer.results, function := outer.function
             hasLabel := outer.hasLabel, hasCall := outer.hasCall }

def settleOne (s : Semantics) : Pending → Check Unit
  | .body scopes iota inputs outputs body close => s.functionBody scopes iota inputs outputs body close
  | .valueType pos t => needValues pos t
  | .mapKey pos t => do
    let w ← world
    if !w.isComparable t then
      fail pos ("invalid map key type " ++ (← typeText t) ++
        if w.isParameter t then " (missing comparable constraint)" else "")
  | .arguments pos name arguments => needArguments pos name arguments
  | .embeddedField pos t => needEmbeddable pos t
  | .interface methods embedded => needMethods methods embedded
  | .embeddedMethod pos name t other => do
    if !(← identical t other) then fail pos ("duplicate method " ++ name)
  | .union terms => needTerms [] terms
  | .definition pos name => needFinite pos name

def settleFrom (s : Semantics) : Nat → Nat → Check Unit
  | 0, _ => return ()
  | count + 1, i => do
    match (← get).pending[i]? with
    | none => return ()
    | some p =>
      s.settleOne p
      s.settleFrom count (i + 1)

def settleRule (s : Semantics) (start : Nat) : Check Unit := do
  let size := (← read).text.length + 16
  s.settleFrom (size * size) start
  modify fun p => { p with pending := p.pending.take start }

def next (s : Semantics) : Semantics where
  raw := s.operandRule
  type := s.typeRule
  statement := s.statementRule
  settle := s.settleRule

def ofDepth (depth : Nat) : Semantics := Nat.repeat next depth bottom

end Semantics

def depthFor (text : String) : Nat := 4 * text.length + 64

def Setting.operand (s : Setting) (e : Expr) : Except ExprFault Operand :=
  let rules := Semantics.ofDepth (depthFor s.text)
  let check : Check Operand := do
    let (x, _) ← rules.raw none true e
    rules.settle 0
    return x
  ((check.run s).run {}).map (·.1)

/-- The type that an expression in a package stands for: none if it stands for something else, and a message if it
stands for nothing. -/
def World.evaluate (w : World) (here : Package) (text : String) : Except String (Option SourceType) :=
  let report (fault : ExprFault) : String := placeOf text fault.offset ++ ": " ++ fault.message
  match Expr.parse text with
  | .error failure =>
    .error (report failure.first ++
      if failure.others == 0 then "" else " (and " ++ toString failure.others ++ " more errors)")
  | .ok e =>
    match ({ world := w, here, text } : Setting).operand e with
    | .error fault => .error (report fault)
    | .ok x => .ok (if x.mode == .type then x.type.typed? else none)

end Covenant.Source
