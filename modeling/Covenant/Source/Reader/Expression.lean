import Covenant.Source.Reader.Type

/-!
# Reading operands and operators

An operand is followed by members, arguments, indices or elements; prefixes and operators join operands.  An arrow
before a channel type belongs to the type.
-/

namespace Covenant.Source.Grammar

open Reader

def precedence : Lexeme → Nat
  | .mark m =>
    if m == "||" then 1
    else if m == "&&" then 2
    else if ["==", "!=", "<", "<=", ">", ">="].contains m then 3
    else if ["+", "-", "|", "^"].contains m then 4
    else if ["*", "/", "%", "<<", ">>", "&", "&^"].contains m then 5
    else 0
  | _ => 0

variable (g : Grammar)

def braced : Reader (Nat × List Stmt × Nat) := do
  let brace ← mark "\x7b"
  let body ← repeated do
    match ← lexeme with
    | .keyword "case" | .keyword "default" | .mark "\x7d" | .stop => return ([], false)
    | _ => return ([← g.statement], true)
  return (brace, body, ← mark "\x7d")

def functionOrType : Reader Expr := do
  let type ← g.functionType
  if ← isMark "\x7b" then
    let (_, body, close) ← inside g.braced
    return .lambda type body close
  else return type

def operand (g : Grammar) : Reader Expr := do
  let p ← current
  match p.lexeme with
  | .name _ => return .name (← identifier)
  | .literal sort text =>
    next
    return .literal p.offset sort text
  | .mark "(" =>
    next
    let inner ← inside g.right
    let _ ← mark ")"
    return .paren p.offset inner
  | .keyword "func" => g.functionOrType
  | _ =>
    match ← g.type? with
    | some type => return type
    | none =>
      expected p.offset "operand"
      resume startsStatement
      return .bad p.offset

def composite (type : Option Expr) (value : Reader Expr) : Reader Expr := do
  let brace ← mark "\x7b"
  let element : Reader Expr := do
    let e ← value
    if ← isMark ":" then
      next
      return .pair e (← value)
    else return e
  let elements ← inside (list element "composite literal" "\x7d")
  let close ← closing "\x7d" "composite literal"
  return .composite type brace elements close

def elementBy (g : Grammar) : Nat → Reader Expr
  | 0 => g.expression
  | depth + 1 => do
    if ← isMark "\x7b" then composite none (g.elementBy depth) else g.expression

def bracketed (owner : Expr) : Reader Expr := do
  let _ ← mark "["
  let p ← current
  if p.lexeme == .mark "]" then
    expected p.offset "operand"
    next
    return .index owner [.bad p.offset]
  let bound : Reader (Nat × Option Expr) := do
    let pos ← mark ":"
    match ← lexeme with
    | .mark ":" | .mark "]" | .stop => return (pos, none)
    | _ => return (pos, some (← g.right))
  let (first, bounds, more) ← inside do
    let first ← if p.lexeme == .mark ":" then pure none else some <$> g.right
    match ← lexeme with
    | .mark ":" =>
      let second ← bound
      let third ← if ← isMark ":" then (do return [← bound]) else pure []
      pure (first, second :: third, [])
    | .mark "," =>
      let more ← repeated do
        if ← isMark "," then
          next
          match ← lexeme with
          | .mark "]" | .stop => return ([], true)
          | _ => return ([← g.requiredType], true)
        else return ([], false)
      pure (first, [], more)
    | _ => pure (first, [], [])
  let _ ← mark "]"
  match bounds with
  | [] => return .index owner (first.toList ++ more)
  | [(_, high)] => return .slice owner first high none false
  | (one, high) :: (two, limit) :: _ =>
    if high.isNone then report one "middle index required in 3-index slice"
    if limit.isNone then report two "final index required in 3-index slice"
    return .slice owner first high limit true

def callOf (function : Expr) : Reader Expr := do
  let _ ← mark "("
  let arguments : List (Expr × Option Nat) ← inside <| repeated do
    match ← lexeme with
    | .mark ")" | .stop => return ([], false)
    | _ =>
      let e ← g.right
      let p ← current
      let dots := p.lexeme == .mark "..."
      if dots then next
      let found := [(e, if dots then some p.offset else none)]
      if ← comma "argument list" ")" then
        next
        return (found, !dots)
      else return (found, false)
  let close ← closing ")" "argument list"
  return .call function (arguments.map (·.1)) (arguments.findSome? (·.2)) close

def mayHaveElements (level : Int) : Expr → Bool
  | .bad _ | .name _ | .select _ _ | .index _ _ => level ≥ 0
  | .arrayType _ _ _ | .structType _ _ | .mapType _ _ _ => true
  | _ => false

def isParen : Expr → Bool
  | .paren _ _ => true
  | _ => false

def suffixesBy (g : Grammar) : Nat → Expr → Reader Expr
  | 0, e => return e
  | fuel + 1, e => do
    match ← lexeme with
    | .mark "." =>
      next
      let q ← current
      match q.lexeme with
      | .name _ => g.suffixesBy fuel (.select e (← identifier))
      | .mark "(" =>
        next
        let type ← if ← isKeyword "type" then (do next; return none) else some <$> g.requiredType
        let _ ← mark ")"
        g.suffixesBy fuel (.assertion e type)
      | l =>
        expected q.offset "selector or type assertion"
        if l != .mark "\x7d" then next
        g.suffixesBy fuel (.select e ⟨q.offset, "_"⟩)
    | .mark "[" => do g.suffixesBy fuel (← g.bracketed e)
    | .mark "(" => do g.suffixesBy fuel (← g.callOf e)
    | .mark "\x7b" =>
      if mayHaveElements (← get).level e.bare then
        if isParen e then report e.bare.start "cannot parenthesize type in composite literal"
        g.suffixesBy fuel (← composite (some e) (g.elementBy (← rounds)))
      else return e
    | _ => return e

def suffixes (e : Expr) : Reader Expr := do g.suffixesBy (← rounds) e

/-- Gives the arrow before a channel type to that type, and the arrow of each type to the one inside.  The last one
has to have a place. -/
def attachArrow (arrow : Nat) : Expr → Reader Expr
  | .chanType _ _ .both element => return .chanType arrow arrow .receive element
  | .chanType _ inner .send element => do return .chanType arrow arrow .receive (← attachArrow inner element)
  | .chanType pos inner .receive element => do
    expected inner "'chan'"
    return .chanType pos inner .receive element
  | e => do
    expected arrow "channel type"
    return e

def unaryRule : Reader Expr := do
  let p ← current
  match p.lexeme with
  | .mark "*" =>
    next
    return .star p.offset (← g.unary)
  | .mark "<-" =>
    next
    match ← g.unary with
    | .chanType pos arrow direction element => attachArrow p.offset (.chanType pos arrow direction element)
    | inner => return .unary p.offset "<-" inner
  | .mark op =>
    if ["+", "-", "!", "^", "&", "~"].contains op then
      next
      return .unary p.offset op (← g.unary)
    else g.suffixes (← g.operand)
  | _ => g.suffixes (← g.operand)

def operatorsBy (g : Grammar) (least : Nat) : Nat → Expr → Reader Expr
  | 0, left => return left
  | fuel + 1, left => do
    let p ← current
    let op := if (← get).isRight && p.lexeme == .mark "=" then "==" else match p.lexeme with
      | .mark m => m
      | _ => ""
    let binding := precedence (.mark op)
    if binding < least || binding == 0 then return left
    let pos ← mark op
    let right ← g.binary (binding + 1)
    g.operatorsBy least fuel (.binary left pos op right)

def operators (least : Nat) (left : Expr) : Reader Expr := do g.operatorsBy least (← rounds) left

def binaryRule (least : Nat) : Reader Expr := do g.operators least (← g.unary)

end Covenant.Source.Grammar
