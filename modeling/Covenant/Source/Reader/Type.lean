import Covenant.Source.Expression

/-!
# Reading types

Reading goes through the lexemes of a text once and never stops early: after a fault it goes on at the next lexeme
that can follow.  Of the faults of grammar only the first of a line is kept, and none on a line whose last fault is
one of spelling; faults of spelling are all kept.  Whether a name in a list of parameters is one or stands for a type
is settled when the list has been read.
-/

namespace Covenant.Source

structure Reading where
  ahead : List Placed
  faults : List ExprFault
  breaks : List Nat
  /-- The depth of brackets; negative in the head of a statement, where a brace opens its body. -/
  level : Int := 0
  isRight : Bool := false
  /-- Where reading was last taken up after a fault, and how often there. -/
  resumed : Option (Nat × Nat) := none
  behind : Nat := 0

abbrev Reader := StateM Reading

namespace Reading

def line (r : Reading) (offset : Nat) : Nat := (r.breaks.filter (· < offset)).length

def report (r : Reading) (fault : ExprFault) : Reading :=
  match r.faults.getLast? with
  | some last => if r.line last.offset == r.line fault.offset then r else { r with faults := r.faults ++ [fault] }
  | none => { r with faults := [fault] }

def step (r : Reading) : Reading :=
  match r.ahead with
  | p :: q :: rest => { r with ahead := q :: rest, faults := r.faults ++ q.faults, behind := p.stop }
  | _ => r

def ofText (text : String) : Reading :=
  let ahead := lexemes text
  let octets := Text.toOctets text
  { ahead
    faults := (ahead.head?.map Placed.faults).getD []
    breaks := (List.range octets.length).filter fun i => octets.getD i 0 == 10 }

end Reading

namespace Reader

def current : Reader Placed := do return (← get).ahead.headD ⟨0, .stop, 0, []⟩

def lexeme : Reader Lexeme := do return (← current).lexeme

def offset : Reader Nat := do return (← current).offset

def next : Reader Unit := modify Reading.step

def rounds : Reader Nat := do return 2 * (← get).ahead.length + 16

def report (offset : Nat) (message : String) : Reader Unit := modify (·.report ⟨offset, message⟩)

def expected (offset : Nat) (what : String) : Reader Unit := do
  let p ← current
  report offset ("expected " ++ what ++ if p.offset == offset then ", found " ++ p.lexeme.found else "")

def isMark (m : String) : Reader Bool := do return (← lexeme) == .mark m

def isKeyword (k : String) : Reader Bool := do return (← lexeme) == .keyword k

def isNewline : Reader Bool := do return (← lexeme) == .newline

def isSeparator : Reader Bool := do return (← isNewline) || (← isMark ";")

def isName : Reader Bool := do return (← lexeme) matches .name _

def expect (l : Lexeme) (what : String) : Reader Nat := do
  let p ← current
  if p.lexeme != l then expected p.offset ("'" ++ what ++ "'")
  next
  return p.offset

def mark (m : String) : Reader Nat := expect (.mark m) m

def keyword (k : String) : Reader Nat := expect (.keyword k) k

def identifier : Reader Ident := do
  let p ← current
  match p.lexeme with
  | .name text =>
    next
    return ⟨p.offset, text⟩
  | _ =>
    expected p.offset "'IDENT'"
    next
    return ⟨p.offset, "_"⟩

def closing (m context : String) : Reader Nat := do
  if ← isNewline then
    report (← offset) ("missing ',' before newline in " ++ context)
    next
  mark m

/-- Whether a list goes on.  Anything but a comma or the mark that follows the list counts as a missing comma. -/
def comma (context follow : String) : Reader Bool := do
  let p ← current
  if p.lexeme == .mark "," then return true
  else if p.lexeme == .mark follow then return false
  else
    report p.offset ("missing ','" ++ (if p.lexeme == .newline then " before newline" else "") ++ " in " ++ context)
    return true

def endsExpression : Lexeme → Bool
  | .mark m => [",", ":", ")", "]", "\x7d"].contains m
  | _ => false

def startsStatement : Lexeme → Bool
  | .keyword k =>
    ["break", "const", "continue", "defer", "fallthrough", "for", "go", "goto", "if", "return", "select", "switch",
      "type", "var"].contains k
  | _ => false

def resumeBy (stops : Lexeme → Bool) : Nat → Reader Unit
  | 0 => return ()
  | fuel + 1 => do
    let p ← current
    if p.lexeme == .stop then return ()
    let resumed := (← get).resumed
    let again := resumed.filter fun (pos, count) => p.offset == pos && count < 10
    if stops p.lexeme && (again.isSome || resumed.all fun (pos, _) => p.offset > pos) then
      modify fun r => { r with resumed := some (p.offset, again.elim 0 fun (_, count) => count + 1) }
    else
      next
      resumeBy stops fuel

/-- Passes over lexemes up to one at which reading can go on.  At one place that happens ten times at most. -/
def resume (stops : Lexeme → Bool) : Reader Unit := do resumeBy stops (← get).ahead.length

def separator : Reader Unit := do
  let p ← current
  match p.lexeme with
  | .mark ")" | .mark "\x7d" => return ()
  | .mark ";" | .newline => next
  | .mark "," =>
    expected p.offset "';'"
    next
  | _ =>
    expected p.offset "';'"
    resume startsStatement

def repeatedBy {α : Type} (step : Reader (List α × Bool)) : Nat → Reader (List α)
  | 0 => return []
  | fuel + 1 => do
    let (found, isMore) ← step
    if isMore then return found ++ (← repeatedBy step fuel) else return found

def repeated {α : Type} (step : Reader (List α × Bool)) : Reader (List α) := do repeatedBy step (← rounds)

def list {α : Type} (item : Reader α) (context follow : String) : Reader (List α) :=
  repeated do
    if (← isMark follow) || (← lexeme) == .stop then return ([], false)
    let a ← item
    if ← comma context follow then
      next
      return ([a], true)
    else return ([a], false)

def sequence {α : Type} (item : Reader α) : Reader (List α) := do
  let first ← item
  let more ← repeated do
    if ← isMark "," then
      next
      return ([← item], true)
    else return ([], false)
  return first :: more

def inside {α : Type} (r : Reader α) : Reader α := do
  modify fun s => { s with level := s.level + 1 }
  let a ← r
  modify fun s => { s with level := s.level - 1 }
  return a

def inHead {α : Type} (r : Reader α) : Reader α := do
  let level := (← get).level
  modify fun s => { s with level := -1 }
  let a ← r
  modify fun s => { s with level }
  return a

def onRight {α : Type} (isRight : Bool) (r : Reader α) : Reader α := do
  let before := (← get).isRight
  modify fun s => { s with isRight }
  let a ← r
  modify fun s => { s with isRight := before }
  return a

end Reader

/-- The rules that refer to each other.  They are built up by depth, so that reading ends on every text. -/
structure Grammar where
  binary : Nat → Reader Expr
  unary : Reader Expr
  type? : Reader (Option Expr)
  statement : Reader Stmt

namespace Grammar

def expression (g : Grammar) : Reader Expr := g.binary 1

def right (g : Grammar) : Reader Expr := Reader.onRight true g.expression

def bottom : Grammar where
  binary _ := do return .bad (← Reader.offset)
  unary := do return .bad (← Reader.offset)
  type? := return none
  statement := do return .bad (← Reader.offset)

end Grammar

end Covenant.Source

namespace Covenant.Source.Grammar

open Reader

variable (g : Grammar)

def requiredType : Reader Expr := do
  match ← g.type? with
  | some type => return type
  | none =>
    let pos ← offset
    expected pos "type"
    resume endsExpression
    return .bad pos

def typeName (first : Option Ident) : Reader Expr := do
  let id ← match first with
    | some id => pure id
    | none => identifier
  if ← isMark "." then
    next
    return .select (.name id) (← identifier)
  else return .name id

def typeInstance (owner : Expr) : Reader Expr := do
  let _ ← mark "["
  let arguments ← inside (list g.requiredType "type argument list" "]")
  let close ← closing "]" "type argument list"
  if arguments.isEmpty then
    expected close "type argument list"
    return .index owner [.bad close]
  else return .index owner arguments

def qualifiedName (first : Option Ident) : Reader Expr := do
  let name ← typeName first
  if ← isMark "[" then g.typeInstance name else return name

/-- The rest of an array or slice type, behind its opening bracket at `pos` and its length, if that has been read. -/
def arrayRest (pos : Nat) (length : Option Expr) : Reader Expr := do
  let length ← match length with
    | some e => pure (some e)
    | none => inside do
      let p ← current
      match p.lexeme with
      | .mark "..." =>
        next
        return some (.dots p.offset none)
      | .mark "]" => return none
      | _ => return some (← g.right)
  if ← isMark "," then
    report (← offset) "unexpected comma; expecting ]"
    next
  let _ ← mark "]"
  return .arrayType pos length (← g.requiredType)

/-- What follows a name and is in brackets: the array type of a field of that name, or the arguments of a type. -/
def arrayFieldOrInstance (name : Ident) : Reader (Option Ident × Expr) := do
  let pos ← mark "["
  let (arguments, trailing) ←
    if ← isMark "]" then pure ([], none)
    else inside do
      let first ← g.right
      let more ← repeated do
        let p ← current
        if p.lexeme == .mark "," then
          next
          if ← isMark "]" then return ([(none, p.offset)], false)
          return ([(some (← g.right), p.offset)], true)
        else return ([], false)
      pure (first :: more.filterMap (·.1), (more.find? (·.1.isNone)).map (·.2))
  let _ ← mark "]"
  match arguments with
  | [] => return (some name, .arrayType pos none (← g.requiredType))
  | [length] =>
    match ← g.type? with
    | some element =>
      if let some comma := trailing then report comma "unexpected comma; expecting ]"
      return (some name, .arrayType pos (some length) element)
    | none => return (none, .index (.name name) [length])
  | _ => return (none, .index (.name name) arguments)

/-- An embedded type in parentheses is complained about and read. -/
def parenthesized (inner : Reader Expr) : Reader Expr := do
  report (← offset) "cannot parenthesize embedded type"
  next
  let type ← inner
  if ← isMark ")" then next
  return type

def field (g : Grammar) : Reader FieldExpr := do
  let pointer (inner : Reader Expr) : Reader Expr := do
    let pos ← offset
    next
    return .star pos (← inner)
  let (names, type) : List Ident × Expr ← do
    let p ← current
    match p.lexeme with
    | .name _ =>
      let name ← identifier
      match (← lexeme) with
      | .mark "." => pure ([], ← g.qualifiedName (some name))
      | .literal .string _ | .mark ";" | .newline | .mark "\x7d" => pure ([], .name name)
      | _ =>
        let more ← repeated do
          if ← isMark "," then
            next
            return ([← identifier], true)
          else return ([], false)
        if more.isEmpty && (← isMark "[") then
          let (name, type) ← g.arrayFieldOrInstance name
          pure (name.toList, type)
        else pure (name :: more, ← g.requiredType)
    | .mark "*" =>
      let type ← pointer do
        if ← isMark "(" then parenthesized (g.qualifiedName none) else g.qualifiedName none
      pure ([], type)
    | .mark "(" =>
      let type ← parenthesized do
        if ← isMark "*" then pointer (g.qualifiedName none) else g.qualifiedName none
      pure ([], type)
    | _ =>
      expected p.offset "field name or embedded type"
      resume endsExpression
      pure ([], .bad p.offset)
  let tag ← match ← lexeme with
    | .literal .string text => do
      next
      pure (some text)
    | _ => pure none
  separator
  return .mk names type tag

def structType (g : Grammar) : Reader Expr := do
  let pos ← keyword "struct"
  let _ ← mark "\x7b"
  let fields ← repeated do
    match ← lexeme with
    | .name _ | .mark "*" | .mark "(" => return ([← g.field], true)
    | _ => return ([], false)
  let _ ← mark "\x7d"
  return .structType pos fields

def term (g : Grammar) : Reader Expr := do
  let p ← current
  if p.lexeme == .mark "~" then
    next
    return .unary p.offset "~" (← g.requiredType)
  match ← g.type? with
  | some type => return type
  | none =>
    expected p.offset "~ term or type"
    resume endsExpression
    return .bad p.offset

def unionBy (g : Grammar) : Nat → Expr → Reader Expr
  | 0, e => return e
  | fuel + 1, e => do
    let p ← current
    if p.lexeme == .mark "|" then
      next
      g.unionBy fuel (.binary e p.offset "|" (← g.term))
    else return e

def union (first : Expr) : Reader Expr := do g.unionBy (← rounds) first

structure ParamText where
  name : Option Ident := none
  type : Option Expr := none

def dotsType : Reader Expr := do
  let pos ← mark "..."
  return .dots pos (some (← g.requiredType))

def namedParam (isTypeList : Bool) (name : Ident) : Reader ParamText := do
  let joined (p : ParamText) : Reader ParamText := do
    match p.type with
    | some type => if isTypeList && (← isMark "|") then return { p with type := some (← g.union type) } else return p
    | none => return p
  match ← lexeme with
  | .name _ | .keyword "func" | .keyword "chan" | .keyword "map" | .keyword "struct" | .keyword "interface"
  | .mark "*" | .mark "<-" | .mark "(" => joined { name, type := some (← g.requiredType) }
  | .mark "[" =>
    let (name, type) ← g.arrayFieldOrInstance name
    joined { name, type }
  | .mark "..." => return { name, type := some (← g.dotsType) }
  | .mark "." => joined { type := some (← g.qualifiedName (some name)) }
  | .mark "~" => if isTypeList then return { name, type := some (← g.union (← g.term)) } else return { name }
  | .mark "|" => if isTypeList then return { type := some (← g.union (.name name)) } else return { name }
  | _ => return { name }

def param (isTypeList : Bool) : Reader ParamText := do
  let p ← current
  match p.lexeme with
  | .name _ => g.namedParam isTypeList (← identifier)
  | .mark "..." => return { type := some (← g.dotsType) }
  | .keyword "func" | .keyword "chan" | .keyword "map" | .keyword "struct" | .keyword "interface"
  | .mark "*" | .mark "<-" | .mark "[" | .mark "(" =>
    let type ← g.requiredType
    return { type := some (← if isTypeList && (← isMark "|") then g.union type else pure type) }
  | l =>
    if isTypeList && l == .mark "~" then return { type := some (← g.union (← g.term)) }
    expected p.offset "')'"
    resume endsExpression
    return {}

def grouped : List Ident → List ParamText → List FieldExpr
  | _, [] => []
  | names, p :: ps =>
    let names := names ++ p.name.toList
    match p.type with
    | some type => .mk names type none :: grouped [] ps
    | none => grouped names ps

def dotsOf (p : ParamText) : Option Nat :=
  match p.type with
  | some (.dots pos _) => some pos
  | _ => none

/-- The parameters up to a closing mark, as fields.  Either all have names or none; type parameters have to. -/
def settled (start : Nat) (isTypeList mayEndInDots : Bool) (params : List ParamText) : Reader (List FieldExpr) := do
  let named := (params.filter fun p => p.name.isSome && p.type.isSome).length
  let typed := (params.filter (·.type.isSome)).length
  let stop ← offset
  let missing (pos : Nat) : Reader Unit :=
    if named == typed then report stop (if isTypeList then "missing type constraint" else "missing parameter type")
    else if isTypeList then
      report pos ("missing type parameter name" ++ if params.length == 1 then " or invalid array length" else "")
    else report pos "missing parameter name"
  if named == 0 then
    if isTypeList then missing start
  else if named != params.length then
    -- A parameter is at fault if it has no name, or no type from there to the end.
    let tail := params.reverse.takeWhile (·.type.isNone)
    let nameless := params.filterMap fun p => if p.name.isNone then p.type.map Expr.start else none
    match nameless ++ tail.filterMap (fun p => p.name.map Ident.pos) with
    | [] => pure ()
    | pos :: more => missing (more.foldl min pos)
  let dotted := (params.take (params.length - if mayEndInDots then 1 else 0)).filterMap dotsOf
  -- A name before the last one shares its dots.
  let shared := if mayEndInDots && named != 0 then
      match params.reverse with
      | last :: p :: _ => if p.type.isNone then (dotsOf last).toList else []
      | _ => []
    else []
  if let pos :: _ := dotted ++ shared then
    report pos (if mayEndInDots then "can only use ... with final parameter" else "invalid use of ...")
  if named == 0 then
    return params.filterMap fun p =>
      match p.type, p.name with
      | some type, _ => some (.mk [] type none)
      | none, some name => some (.mk [] (.name name) none)
      | none, none => none
  else return grouped [] params

def paramList (first : Option (Ident × Option Expr)) (close : String) (mayEndInDots : Bool) :
    Reader (List FieldExpr) := do
  let isTypeList := close == "]"
  let start ← match first with
    | some (name, _) => pure name.pos
    | none => offset
  let keep (p : ParamText) : List ParamText := if p.name.isSome || p.type.isSome then [p] else []
  let after : Reader Bool := do
    if ← comma "parameter list" close then
      next
      return true
    else return false
  let rest : Reader (List ParamText) := repeated do
    if (← isMark close) || (← lexeme) == .stop then return ([], false)
    let p ← g.param isTypeList
    return (keep p, ← after)
  let params ← match first with
    | some (name, type) =>
      let p ← match type with
        | some type => do pure { name := some name, type := some (← g.union type) }
        | none => g.namedParam isTypeList name
      if ← after then pure (keep p ++ (← rest)) else pure (keep p)
    | none => rest
  if params.isEmpty then return [] else settled start isTypeList mayEndInDots params

def inputs : Reader (List FieldExpr) := do
  let _ ← mark "("
  let params ← g.paramList none ")" true
  let _ ← mark ")"
  return params

def outputs : Reader (List FieldExpr) := do
  if ← isMark "(" then
    next
    let params ← g.paramList none ")" false
    let _ ← mark ")"
    return params
  else match ← g.type? with
    | some type => return [.mk [] type none]
    | none => return []

def typeParams : Reader (Option Nat) := do
  let pos ← mark "["
  let params ← if ← isMark "]" then pure [] else g.paramList none "]" false
  let close ← mark "]"
  if params.isEmpty then
    report close "empty type parameter list"
    return none
  else return some pos

def functionType : Reader Expr := do
  let pos ← keyword "func"
  if ← isMark "[" then
    if let some bracket ← g.typeParams then report bracket "function type must have no type parameters"
  let inputs ← g.inputs
  return .funcType pos inputs (← g.outputs)

def methodOrType : Reader FieldExpr := do
  let name ← typeName none
  let method (id : Ident) : Reader FieldExpr := do
    let inputs ← g.inputs
    return .mk [id] (.funcType id.pos inputs (← g.outputs)) none
  match name with
  | .name id =>
    match ← lexeme with
    | .mark "[" =>
      let bracket ← offset
      next
      let first ← inside g.expression
      let isParams ← match first with
        | .name _ => do pure (!((← isMark ",") || (← isMark "]")))
        | _ => pure false
      match isParams, first with
      | true, .name param =>
        let _ ← g.paramList (some (param, none)) "]" false
        let _ ← mark "]"
        report bracket "interface method must have no type parameters"
        method id
      | _, _ =>
        let more ← if ← comma "type argument list" "]" then
            inside do
              next
              list g.requiredType "type argument list" "]"
          else pure []
        let _ ← closing "]" "type argument list"
        return .mk [] (.index name (first :: more)) none
    | .mark "(" => method id
    | _ => return .mk [] name none
  | _ => return .mk [] (← if ← isMark "[" then g.typeInstance name else pure name) none

def interfaceType (g : Grammar) : Reader Expr := do
  let pos ← keyword "interface"
  let _ ← mark "\x7b"
  let elements ← repeated do
    match ← lexeme with
    | .name _ =>
      let element ← g.methodOrType
      let element ← match element with
        | .mk [] type tag => do pure (.mk [] (← g.union type) tag)
        | _ => pure element
      separator
      return ([element], true)
    | .mark "~" =>
      let type ← g.union (← g.term)
      separator
      return ([.mk [] type none], true)
    | _ =>
      match ← g.type? with
      | some type =>
        let type ← g.union type
        separator
        return ([.mk [] type none], true)
      | none => return ([], false)
  let _ ← mark "\x7d"
  return .interfaceType pos elements

def mapType (g : Grammar) : Reader Expr := do
  let pos ← keyword "map"
  let _ ← mark "["
  let key ← g.requiredType
  let _ ← mark "]"
  return .mapType pos key (← g.requiredType)

def chanType (g : Grammar) : Reader Expr := do
  let pos ← offset
  if ← isKeyword "chan" then
    next
    let arrow ← offset
    if ← isMark "<-" then
      next
      return .chanType pos arrow .send (← g.requiredType)
    else return .chanType pos pos .both (← g.requiredType)
  else
    let arrow ← mark "<-"
    let _ ← keyword "chan"
    return .chanType pos arrow .receive (← g.requiredType)

def typeRule : Reader (Option Expr) := do
  let p ← current
  match p.lexeme with
  | .name _ => return some (← g.qualifiedName none)
  | .mark "[" =>
    next
    return some (← g.arrayRest p.offset none)
  | .keyword "struct" => return some (← g.structType)
  | .mark "*" =>
    next
    return some (.star p.offset (← g.requiredType))
  | .keyword "func" => return some (← g.functionType)
  | .keyword "interface" => return some (← g.interfaceType)
  | .keyword "map" => return some (← g.mapType)
  | .keyword "chan" | .mark "<-" => return some (← g.chanType)
  | .mark "(" =>
    next
    let type ← g.requiredType
    let _ ← mark ")"
    return some (.paren p.offset type)
  | _ => return none

end Covenant.Source.Grammar
