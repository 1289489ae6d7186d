import Covenant.Source.Reader.Expression

/-!
# Reading statements

Statements and declarations, and `Expr.parse`, which reads a whole text as one expression.
-/

namespace Covenant.Source

namespace Grammar

open Reader

variable (g : Grammar)

def expressions (isRight : Bool) : Reader (List Expr) := onRight isRight (sequence g.expression)

def assignments : List String := [":=", "=", "+=", "-=", "*=", "/=", "%=", "&=", "|=", "^=", "<<=", ">>=", "&^="]

inductive Extra where
  | nothing | label | range
  deriving DecidableEq

/-- A statement without keyword; for the head of a loop also the expression it ranges through. -/
def simple (extra : Extra) : Reader (Stmt × Option Expr) := do
  let left ← g.expressions false
  let first := left.headD (.bad 0)
  let p ← current
  let single : Reader Unit := if left.length > 1 then expected first.start "1 expression" else pure ()
  match p.lexeme with
  | .mark m =>
    if assignments.contains m then
      next
      if extra == .range && (← isKeyword "range") && (m == ":=" || m == "=") then
        next
        return (.assign left p.offset m [], some (← g.right))
      return (.assign left p.offset m (← g.expressions true), none)
    single
    match m with
    | ":" =>
      next
      match extra, first with
      | .label, .name id => return (.labeled id (← g.statement), none)
      | _, _ =>
        report p.offset "illegal label declaration"
        return (.bad first.start, none)
    | "<-" =>
      next
      return (.send first p.offset (← g.right), none)
    | "++" | "--" =>
      next
      return (.step first p.offset m, none)
    | _ => return (.expression first, none)
  | _ =>
    single
    return (.expression first, none)

def plain : Reader Stmt := do return (← g.simple .nothing).1

def suspended (word : String) (make : Nat → Expr → Stmt) : Reader Stmt := do
  let pos ← keyword word
  let e ← g.right
  if isParen e then report e.start ("expression in " ++ word ++ " must not be parenthesized")
  let call : Option Expr ← match e.bare with
    | .call f as spread close => pure (some (.call f as spread close))
    | .bad _ => pure none
    | _ =>
      report (← get).behind ("expression in " ++ word ++ " must be function call")
      pure none
  separator
  return call.elim (.bad pos) (make pos)

def expressionOf (want : String) : Stmt → Reader Expr
  | .expression e => return e
  | s => do
    let found := match s with
      | .assign _ _ _ _ => "assignment"
      | _ => "simple statement"
    report s.start ("expected " ++ want ++ ", found " ++ found ++ " (missing parentheses around composite literal?)")
    return .bad s.start

def block (g : Grammar) : Reader Stmt := do
  let (brace, body, close) ← g.braced
  return .block brace body close

def conditionHead : Reader (Option Stmt × Expr) := do
  let p ← current
  if p.lexeme == .mark "\x7b" then
    report p.offset "missing condition in if statement"
    return (none, .bad p.offset)
  inHead do
    let start ← if ← isSeparator then pure none else
        if ← isKeyword "var" then
          next
          report (← offset) "var declaration not allowed in if initializer"
        some <$> g.plain
    if ← isMark "\x7b" then
      match start with
      | some s => return (none, ← expressionOf "boolean expression" s)
      | none => return (none, .bad (← offset))
    let q ← current
    let isLine := q.lexeme == .newline
    if ← isSeparator then next else let _ ← mark ";"
    if ← isMark "\x7b" then
      if isLine then report q.offset "unexpected newline, expecting \x7b after if clause"
      else if q.lexeme == .mark ";" then report q.offset "missing condition in if statement"
      return (start, .bad (← offset))
    return (start, ← expressionOf "boolean expression" (← g.plain))

def condition : Reader Stmt := do
  let pos ← keyword "if"
  let (start, test) ← g.conditionHead
  let (_, body, _) ← g.braced
  if ← isKeyword "else" then
    next
    match ← lexeme with
    | .keyword "if" => return .cond pos start test body (some (← g.statement))
    | .mark "\x7b" =>
      let other ← g.block
      separator
      return .cond pos start test body (some other)
    | _ =>
      let at_ ← offset
      expected at_ "if statement or block"
      return .cond pos start test body (some (.bad at_))
  else
    separator
    return .cond pos start test body none

def caseBody : Reader (List Stmt) :=
  repeated do
    match ← lexeme with
    | .keyword "case" | .keyword "default" | .mark "\x7d" | .stop => return ([], false)
    | _ => return ([← g.statement], true)

def clauses (values : Reader (List Expr × Option Stmt)) : Reader (List Clause) := do
  let found ← repeated do
    let p ← current
    match p.lexeme with
    | .keyword "case" =>
      next
      let (values, communication) ← values
      let _ ← mark ":"
      return ([.mk p.offset values communication false (← g.caseBody)], true)
    | .keyword "default" =>
      next
      let _ ← mark ":"
      return ([.mk p.offset [] none true (← g.caseBody)], true)
    | _ => return ([], false)
  let _ ← mark "\x7d"
  separator
  return found

def asksType : Stmt → Reader Bool
  | .expression (.assertion _ none) => return true
  | .assign [_] pos op [.assertion _ none] => do
    if op == "=" then report pos "expected ':=', found '='"
    return op == "=" || op == ":="
  | _ => return false

def switch (g : Grammar) : Reader Stmt := do
  let pos ← keyword "switch"
  let (start, subject) ←
    if ← isMark "\x7b" then pure (none, none)
    else inHead do
      let first ← if ← isSeparator then pure none else some <$> g.plain
      if ← isSeparator then
        next
        let second ← if ← isMark "\x7b" then pure none else some <$> g.plain
        pure (first, second)
      else pure (none, first)
  let isTyped ← match subject with
    | some s => asksType s
    | none => pure false
  let brace ← mark "\x7b"
  let clauses ← g.clauses do return (← g.expressions true, none)
  match subject with
  | none => return .switch pos start none brace clauses
  | some s =>
    if isTyped then return .typeSwitch pos start s clauses
    else return .switch pos start (some (← expressionOf "switch expression" s)) brace clauses

def communication : Reader Stmt := do
  let left ← g.expressions false
  let first := left.headD (.bad 0)
  let p ← current
  match p.lexeme with
  | .mark "<-" =>
    if left.length > 1 then expected first.start "1 expression"
    next
    return .send first p.offset (← g.right)
  | .mark op =>
    if op == "=" || op == ":=" then
      if left.length > 2 then expected first.start "1 or 2 expressions"
      next
      return .assign (left.take 2) p.offset op [← g.right]
    if left.length > 1 then expected first.start "1 expression"
    return .expression first
  | _ =>
    if left.length > 1 then expected first.start "1 expression"
    return .expression first

def select (g : Grammar) : Reader Stmt := do
  let pos ← keyword "select"
  let _ ← mark "\x7b"
  return .select pos (← g.clauses do return ([], some (← g.communication)))

structure LoopHead where
  start : Option Stmt := none
  test : Option Stmt := none
  post : Option Stmt := none
  domain : Option Expr := none

def loopHead : Reader LoopHead := do
  if ← isMark "\x7b" then return {}
  inHead do
    let first : LoopHead ←
      if ← isSeparator then pure {}
      else if ← isKeyword "range" then
        next
        let domain ← g.right
        pure { test := some (.assign [] 0 "" []), domain := some domain }
      else
        let (s, domain) ← g.simple .range
        pure { test := some s, domain }
    if first.domain.isSome || !(← isSeparator) then return first
    next
    let test ← if ← isSeparator then pure none
      else if ← isMark "\x7b" then
        expected (← offset) "for loop condition"
        pure none
      else some <$> g.plain
    separator
    let post ← if ← isMark "\x7b" then pure none else some <$> g.plain
    return { start := first.test, test, post }

def loop (g : Grammar) : Reader Stmt := do
  let pos ← keyword "for"
  let head ← g.loopHead
  let body ← g.block
  separator
  match head.domain, head.test with
  | some domain, some (.assign left place op _) =>
    let define := if op == ":=" then some place else none
    match left with
    | [] => return .range pos none none none domain body
    | [key] => return .range pos (some key) none define domain body
    | [key, value] => return .range pos (some key) (some value) define domain body
    | _ =>
      expected ((left.getLast?.map Expr.start).getD 0) "at most 2 expressions"
      return .bad pos
  | _, none => return .loop pos head.start none head.post body
  | _, some s => return .loop pos head.start (some (← expressionOf "boolean or range expression" s)) head.post body

def group (word : String) (spec : Reader Spec) : Reader (Nat × List Spec) := do
  let pos ← keyword word
  if ← isMark "(" then
    next
    let specs ← repeated do
      match ← lexeme with
      | .mark ")" | .stop => return ([], false)
      | _ => return ([← spec], true)
    let _ ← mark ")"
    separator
    return (pos, specs)
  else return (pos, [← spec])

def valueSpec (isConstant : Bool) : Reader Spec := do
  let names ← sequence identifier
  let values : Reader (List Expr) := do
    if ← isMark "=" then
      next
      g.expressions true
    else return []
  let (type, values) ←
    if isConstant then
      if (← isSeparator) || (← isMark ")") || (← lexeme) == .stop then pure (none, [])
      else do
        let type ← g.type?
        pure (type, ← values)
    else do
      let type ← if ← isMark "=" then pure none else some <$> g.requiredType
      pure (type, ← values)
  separator
  return .values names type values

def isTypeElement : Expr → Bool
  | .arrayType _ _ _ | .structType _ _ | .funcType _ _ _ | .interfaceType _ _ | .mapType _ _ _ | .chanType _ _ _ _ =>
    true
  | .binary left _ _ right => isTypeElement left || isTypeElement right
  | .unary _ op _ => op == "~"
  | .paren _ inner => isTypeElement inner
  | _ => false

/-- The name and constraint of a type parameter in what was read as an expression.  `force` takes a product for one
even if it could be a length. -/
def paramIn (force : Bool) : Expr → Option (Ident × Option Expr)
  | .name id => some (id, none)
  | .binary (.name id) pos "*" right =>
    if force || isTypeElement right then some (id, some (.star pos right)) else none
  | .binary left pos "|" right =>
    match paramIn (force || isTypeElement right) left with
    | some (id, some inner) => some (id, some (.binary inner pos "|" right))
    | _ => none
  | .call (.name id) [argument] none _ =>
    if force || isTypeElement argument then some (id, some (.paren argument.start argument)) else none
  | _ => none

def typeSpec : Reader Spec := do
  let name ← identifier
  let definition : Reader (Bool × Expr) := do
    let isAlias ← isMark "="
    if isAlias then next
    return (isAlias, ← g.requiredType)
  let spec ←
    if ← isMark "[" then
      let pos ← offset
      next
      if ← isName then
        let id ← identifier
        let e ← if ← isMark "[" then pure (.name id)
          else inside do g.operators 1 (← g.suffixes (.name id))
        let isClosed ← isMark "]"
        match paramIn (← isMark ",") e with
        | some (id, type) =>
          if type.isSome || !isClosed then
            let params ← g.paramList (some (id, type)) "]" false
            let _ ← mark "]"
            let (isAlias, type) ← definition
            pure (.type name params isAlias type)
          else pure (.type name [] false (← g.arrayRest pos (some e)))
        | none => pure (.type name [] false (← g.arrayRest pos (some e)))
      else pure (.type name [] false (← g.arrayRest pos none))
    else
      let (isAlias, type) ← definition
      pure (.type name [] isAlias type)
  separator
  return spec

def branch (word : Branch) (text : String) : Reader Stmt := do
  let pos ← keyword text
  let takesLabel ← match word with
    | .goto => pure true
    | .fall => pure false
    | _ => isName
  let label ← if takesLabel then some <$> identifier else pure none
  separator
  return .branch pos word label

def returning : Reader Stmt := do
  let pos ← keyword "return"
  let results ← if (← isSeparator) || (← isMark "\x7d") then pure [] else g.expressions true
  separator
  return .ret pos results

def startsSimple : Lexeme → Bool
  | .name _ | .literal _ _ => true
  | .keyword k => ["func", "struct", "map", "chan", "interface"].contains k
  | .mark m => ["(", "[", "+", "-", "*", "&", "^", "<-", "!"].contains m
  | _ => false

def statementRule : Reader Stmt := do
  let p ← current
  match p.lexeme with
  | .keyword "const" =>
    let (pos, specs) ← group "const" (g.valueSpec true)
    return .constants pos specs
  | .keyword "var" =>
    let (pos, specs) ← group "var" (g.valueSpec false)
    return .vars pos specs
  | .keyword "type" =>
    let (pos, specs) ← group "type" g.typeSpec
    return .types pos specs
  | .keyword "go" => g.suspended "go" .go
  | .keyword "defer" => g.suspended "defer" .defer
  | .keyword "return" => g.returning
  | .keyword "break" => branch .leave "break"
  | .keyword "continue" => branch .again "continue"
  | .keyword "goto" => branch .goto "goto"
  | .keyword "fallthrough" => branch .fall "fallthrough"
  | .keyword "if" => g.condition
  | .keyword "switch" => g.switch
  | .keyword "select" => g.select
  | .keyword "for" => g.loop
  | .mark "\x7b" =>
    let s ← g.block
    separator
    return s
  | .mark ";" | .newline =>
    next
    return .empty p.offset
  | .mark "\x7d" => return .empty p.offset
  | l =>
    if startsSimple l then
      let (s, _) ← g.simple .label
      match s with
      | .labeled _ _ => pure ()
      | _ => separator
      return s
    else
      expected p.offset "statement"
      resume startsStatement
      return .bad p.offset

def ofDepth : Nat → Grammar
  | 0 => bottom
  | depth + 1 =>
    let g := ofDepth depth
    { binary := g.binaryRule, unary := g.unaryRule, type? := g.typeRule, statement := g.statementRule }

end Grammar

structure ParseFailure where
  first : ExprFault
  others : Nat

def ExprFault.before (a b : ExprFault) : Bool :=
  a.offset < b.offset || (a.offset == b.offset && Text.before a.message b.message)

def Expr.parse (text : String) : Except ParseFailure Expr :=
  let start := Reading.ofText text
  let whole : Reader Expr := do
    let e ← (Grammar.ofDepth (4 * start.ahead.length + 16)).right
    if ← Reader.isNewline then Reader.next
    let _ ← Reader.expect .stop "EOF"
    return e
  let (e, r) := whole.run start
  match Text.sortBy ExprFault.before r.faults with
  | [] => .ok e
  | first :: others => .error ⟨first, others.length⟩

end Covenant.Source
