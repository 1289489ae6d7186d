import Covenant.Source.Check.Operator

/-!
# Elements and types as expressions

Parts of values (an element at an index, a slice between indices, a member by its name), and the types that
expressions stand for.
-/

namespace Covenant.Source

namespace Semantics

open Check

variable (e : Expr) (pos : Nat) (x : Operand)

def needIndex : Check (Option Nat) := do
  let x ← convertUntyped x (.typed (.basic .int))
  if !(← is Shape.isInteger x) then failAt x "invalid argument: index " " must be integer"
  match x.constant? with
  | none => return none
  | some c =>
    if c.isNegative then failAt x "invalid argument: index " " must not be negative"
    match (c.held? .int).bind Constant.whole? with
    | some n => return some n.toNat
    | none => failAt x "invalid argument: index " " overflows int"

variable (s : Semantics)

def indexBelow (bound : Option Nat) (e : Expr) : Check (Option Nat) := do
  let x ← s.value e
  match ← needIndex x, bound with
  | some n, some limit =>
    if n ≥ limit then
      fail e.start ("invalid argument: index " ++ toString n ++ " out of bounds [0:" ++ toString limit ++ "]")
    return some n
  | n, _ => return n

def knownLength (t : SourceType) : Option Nat :=
  match t, x.constant? with
  | .array n _, _ => some n
  | _, some (.string text) => some (Text.toOctets text).length
  | _, _ => none

def singleIndex : List Expr → Check Expr
  | [e] => return e
  | _ :: second :: _ => fail second.start (invalid ++ "more than one index")
  | [] => fail 0 (invalid ++ "missing index")

def indexed (indices : List Expr) : Check Operand := do
  let w ← world
  let refuse : Check Operand := do
    let message := "cannot index " ++ (← shown x)
    fail x.expr.start message
  let element (mode : Mode) (length : Option Nat) (t : SourceType) : Check Operand := do
    let _ ← s.indexBelow length (← singleIndex indices)
    return { expr := e, mode, type := .typed t }
  let isText := x.mode != .type && x.type.is w (· == .string)
  match x.type.underlying? w with
  | some (.array n t) => element (if x.mode == .place then .place else .value) (some n) t
  | some (.pointer p) =>
    match w.underlying p with
    | .array n t => element .place (some n) t
    | _ => refuse
  | some (.slice t) => element .place none t
  | some (.map key t) =>
    let k ← s.value (← singleIndex indices)
    let _ ← assign k (some key) "map index"
    return { expr := e, mode := .mapIndex, type := .typed t }
  | some t => if isText then element .value (knownLength x t) (.basic .byte) else refuse
  | none => if isText then element .value (knownLength x (.basic .string)) (.basic .byte) else refuse

def swapped? : List (Option Expr × Option Nat) → Option (Expr × Nat × Nat)
  | [] => none
  | (_, some n) :: rest =>
    match rest.find? fun (_, m) => m.any (· < n) with
    | some (some e, some m) => some (e, m, n)
    | _ => swapped? rest
  | _ :: rest => swapped? rest

def sliced (low high limit : Option Expr) (isFull : Bool) : Check Operand := do
  let w ← world
  let refuse : Check (ValueType × Option Nat) := failAt x "cannot slice " ""
  let ofText : Check (ValueType × Option Nat) := do
    if isFull then fail (limit.elim e.start Expr.start) (invalid ++ "3-index slice of string")
    return (.typed (x.type.typed?.getD (.basic .string)), knownLength x (.basic .string))
  let (type, length) ← match x.type.underlying? w with
    | some (.array n t) => do
      if x.mode != .place then failAt x "cannot slice unaddressable value " ""
      pure (ValueType.typed (.slice t), some n)
    | some (.pointer p) =>
      match w.underlying p with
      | .array n t => pure (ValueType.typed (.slice t), some n)
      | _ => refuse
    | some (.slice _) => pure (x.type, none)
    | _ => if x.type.is w (· == .string) then ofText else refuse
  let bound (b : Option Expr) (default : Option Nat) : Check (Option Expr × Option Nat) :=
    match b with
    | some b => do return (some b, ← s.indexBelow (length.map (· + 1)) b)
    | none => return (none, default)
  let bounds := [← bound low (some 0), ← bound high length, ← bound limit length]
  if let some (b, m, n) := swapped? bounds then
    fail b.start ("invalid slice indices: " ++ toString m ++ " < " ++ toString n)
  return { expr := e, mode := .value, type }

def selected (id : Ident) : Check Operand := do
  let w ← world
  let home ← some <$> here
  if x.mode matches .builtin _ then failAt x "invalid use of " " in selector expression"
  let typeName ← valueTypeText x.type
  let undefined_ (why : String) : Check Operand :=
    fail id.pos (x.expr.text ++ "." ++ id.text ++ " undefined (" ++ why ++ ")")
  match x.type with
  | .typed t =>
    match w.memberOfValue home (visibleAs home id.text) t with
    | .ambiguous => fail id.pos ("ambiguous selector " ++ x.expr.text ++ "." ++ id.text)
    | .missing =>
      if w.isInterfacePointer t then undefined_ (w.interfacePointerText (seenFrom (← here)) t)
      else undefined_ (missingText home typeName id.text (w.memberOfValue home (spelledLike id.text) t).found?)
    | .found f =>
      if x.mode == .type then
        match f.isField, f.type with
        | false, .function inputs outputs isVariadic =>
          let isNamed := inputs.head?.any fun (name, _) => !name.isEmpty
          let receiver := (if isNamed then "_" else "", t)
          return { expr := e, mode := .value, type := .typed (.function (receiver :: inputs) outputs isVariadic) }
        | _, _ =>
          fail x.expr.start ("operand for field selector " ++ id.text ++ " must be value of type " ++ typeName)
      else
        let hasAddress := f.isField && (x.mode == .place || f.isIndirect)
        return { expr := e, mode := if hasAddress then .place else .value, type := .typed f.type }
  | _ => undefined_ (missingText home typeName id.text none)

def entity (id : Ident) : Check Entity := do
  match ← lookup? id.text with
  | some e => return e
  | none =>
    if id.text == "_" then fail id.pos "cannot use _ as value or type" else fail id.pos ("undefined: " ++ id.text)

def namedType (id : Ident) : Check SourceType := do
  match ← entity id with
  | .type t =>
    if let (.named name [], some (open_, pos)) := (t, (← get).alias_) then
      if name == open_ then fail pos ("invalid recursive type: " ++ name.name ++ " refers to itself")
    return t
  | other =>
    if let .variable_ number := other then setUsed number true
    fail id.pos (id.text ++ " (" ++ Entity.word other ++ ") is not a type")

def arrayLength : Check Nat := do
  if let .name id := e then
    match ← lookup? id.text with
    | none => fail id.pos ("undefined array length " ++ id.text ++ " or missing type constraint")
    | some (.constant _ _) | some .iota => pure ()
    | some _ => fail id.pos ("invalid array length " ++ id.text)
  let x ← s.value e
  let isWhole ← is Shape.isInteger x
  match x.constant? with
  | none => failAt x "array length " " must be constant"
  | some c =>
    let length := if isWhole || !x.type.isTyped then (c.whole?.bind fun n => (Constant.int n).held? .int) else none
    match length.bind Constant.whole? with
    | some n =>
      if n ≥ 0 then return n.toNat
      else if isWhole then failAt x "invalid array length " ""
      else failAt x "array length " " must be integer"
    | none => if isWhole then failAt x "invalid array length " "" else failAt x "array length " " must be integer"

def instance_ (e owner : Expr) (arguments : List Expr) : Check SourceType := do
  let t ← s.type owner
  match t, ← isGeneric t with
  | .named name _, true =>
    let ts ← arguments.mapM fun a => do return (a.start, ← s.valueType a)
    later (.arguments e.start name ts)
    return .named name (ts.map (·.2))
  | _, _ => fail e.start (invalid ++ e.text ++ " (" ++ (← typeText t) ++ " is not a generic type)")

def embeddedName? : Expr → Option Ident
  | .name id => some id
  | .star _ (.star _ _) => none
  | .star _ inner => embeddedName? inner
  | .select _ member => some member
  | .index owner _ => embeddedName? owner
  | _ => none

def addFields (before : List (FieldHead × SourceType)) (f : FieldExpr) : Check (List (FieldHead × SourceType)) := do
  let t ← s.valueType f.type
  let tag := (f.tag.bind Constant.textOf).getD ""
  let add (isEmbedded : Bool) (before : List (FieldHead × SourceType)) (id : Ident) :
      Check (List (FieldHead × SourceType)) := do
    if id.text != "_" && before.any fun (head, _) => head.name == id.text then fail id.pos (id.text ++ " redeclared")
    return before ++ [({ name := id.text, tag, isEmbedded }, t)]
  match f.names with
  | [] =>
    match embeddedName? f.type with
    | none => fail f.type.start ("invalid embedded field type " ++ f.type.text)
    | some id =>
      let fields ← add true before id
      later (.embeddedField f.type.start t)
      return fields
  | names => names.foldlM (add false) before

def parameters (f : FieldExpr) : Check (List (Ident × SourceType)) := do
  let t ← match f.type with
    | .dots _ (some element) => do pure (SourceType.slice (← s.valueType element))
    | e => s.valueType e
  match f.names with
  | [] => return [(⟨f.type.start, ""⟩, t)]
  | names => return names.map (·, t)

structure FunctionParts where
  inputs : List (Ident × SourceType)
  outputs : List (Ident × SourceType)
  isVariadic : Bool

def FunctionParts.type (p : FunctionParts) : SourceType :=
  .function (p.inputs.map fun (id, t) => (id.text, t)) (p.outputs.map fun (id, t) => (id.text, t)) p.isVariadic

def needDistinct : List String → List Ident → Check Unit
  | _, [] => return ()
  | seen, id :: rest => do
    if id.text != "" && id.text != "_" && seen.contains id.text then
      fail id.pos (id.text ++ " redeclared in this block")
    needDistinct (id.text :: seen) rest

def functionParts (inputs outputs : List FieldExpr) : Check FunctionParts := do
  let isVariadic := match inputs.getLast? with
    | some f => (f.type matches .dots _ _)
    | none => false
  let is ← inputs.mapM s.parameters
  let os ← outputs.mapM s.parameters
  let parts : FunctionParts := { inputs := is.flatten, outputs := os.flatten, isVariadic }
  needDistinct [] ((parts.inputs ++ parts.outputs).map (·.1))
  return parts

def unionTerms : Expr → List Expr
  | .binary left _ "|" right => unionTerms left ++ [right]
  | e => [e]

def greatestTerms : Nat := 100

def term (s : Semantics) (e : Expr) : Check Term := do
  match e with
  | .unary _ "~" inner =>
    let t ← s.wholeType inner
    if (← world).isParameter t then fail inner.start ("type in term " ++ e.text ++ " cannot be a type parameter")
    return (true, t)
  | _ =>
    let t ← s.wholeType e
    if (← world).isParameter t then fail e.start "term cannot represent type parameter"
    return (false, t)

def embeddedType : Check SourceType := do
  let es := unionTerms e
  let terms ← es.mapM fun e => do return (e.start, ← s.term e)
  if let some extra := es[greatestTerms]? then
    fail extra.start ("cannot handle more than " ++ toString greatestTerms ++
      " union terms (implementation limitation)")
  match terms with
  | [(_, (false, t))] => return t
  | _ =>
    later (.union terms)
    return .union (terms.map (·.2))

def interfaceParts (elements : List FieldExpr) : Check (List (Ident × SourceType) × List (Nat × SourceType)) := do
  let parts ← elements.mapM fun f => do
    match f.names with
    | [] => return Sum.inr (f.type.start, ← s.embeddedType f.type)
    | id :: _ =>
      if id.text == "_" then fail id.pos "methods must have a unique non-blank name"
      return Sum.inl (id, ← s.wholeType f.type)
  return (parts.filterMap Sum.getLeft?, parts.filterMap Sum.getRight?)

def typeRule : Check SourceType := do
  match e with
  | .name id => namedType id
  | .select owner id =>
    let x ← s.valueOrType false owner
    if x.mode matches .builtin _ then failAt x "invalid use of " " in selector expression"
    fail id.pos (e.text ++ " is not a type")
  | .index owner arguments => s.instance_ e owner arguments
  | .paren _ inner => s.wholeType inner
  | .arrayType _ none element => return .slice (← s.valueType element)
  | .arrayType _ (some (.dots pos _)) _ => fail pos "invalid use of [...] array (outside a composite literal)"
  | .arrayType _ (some length) element =>
    let n ← s.arrayLength length
    return .array n (← s.valueType element)
  | .dots pos _ => fail pos "invalid use of ..."
  | .star _ inner => return .pointer (← s.valueType inner)
  | .mapType _ key value =>
    let k ← s.valueType key
    let v ← s.valueType value
    later (.mapKey key.start k)
    return .map k v
  | .chanType _ _ direction element => return .channel direction (← s.valueType element)
  | .structType _ fields => return .record (← fields.foldlM s.addFields [])
  | .funcType _ inputs outputs => return (← s.functionParts inputs outputs).type
  | .interfaceType _ elements =>
    let (methods, embedded) ← s.interfaceParts elements
    if !elements.isEmpty then later (.interface methods embedded)
    return .interfaceOf (methods.map fun (id, t) => (id.text, t)) (embedded.map (·.2))
  | _ => fail e.start (e.text ++ " is not a type")

def needMethods (methods : List (Ident × SourceType)) (embedded : List (Nat × SourceType)) : Check Unit := do
  let w ← world
  let home ← some <$> here
  let ordered := Text.sortBy (fun a b => SourceType.methodBefore a.1.text b.1.text) methods
  let own ← ordered.foldlM (fun (seen : List (String × SourceType)) (id, t) => do
    if seen.any fun (name, _) => name == id.text then fail id.pos ("duplicate method " ++ id.text)
    return (id.text, t) :: seen) []
  let _ ← embedded.foldlM (fun (seen : List (String × SourceType)) (pos, t) => do
    let isSet := w.isInterface t
    (if isSet then (w.typeSet home t).methods else []).foldlM (fun seen m => do
      match seen.lookup m.name with
      | some other =>
        later (.embeddedMethod pos m.name m.type other)
        return seen
      | none => return (m.name, m.type) :: seen) seen) own

def termText (w : World) (t : Term) : String := (if t.1 then "~" else "") ++ w.text fullPath t.2

/-- A term of a union fits: its structure is its own, an interface asks for types only, and it has no type in common
with a term before it. -/
def needTerm (before : List Term) (pos : Nat) (t : Term) : Check Unit := do
  let w ← world
  let isInterface := w.isInterface t.2
  let name ← typeText t.2
  if t.1 then
    if isInterface then fail pos ("invalid use of ~ (" ++ name ++ " is an interface)")
    if !w.identical (w.underlying t.2) t.2 then
      fail pos ("invalid use of ~ (underlying type of " ++ name ++ " is " ++ (← typeText (w.underlying t.2)) ++ ")")
  if isInterface then
    let set := w.typeSet (some (← here)) t.2
    let text := termText w t
    if !set.methods.isEmpty then fail pos ("cannot use " ++ text ++ " in union (" ++ text ++ " contains methods)")
    if t.2 matches .named { home := none, name := "comparable", serial := 0 } [] then
      fail pos "cannot use comparable in union"
    if set.isComparable then fail pos ("cannot use " ++ text ++ " in union (" ++ text ++ " embeds comparable)")
  else if let some other := before.find? fun o => !w.isInterface o.2 && !w.disjoint w.identical o t then
    fail pos ("overlapping terms " ++ termText w t ++ " and " ++ termText w other)

def needTerms : List Term → List (Nat × Term) → Check Unit
  | _, [] => return ()
  | before, (pos, t) :: rest => do
    needTerm before pos t
    needTerms (before ++ [t]) rest

def needArguments (name : TypeName) (arguments : List (Nat × SourceType)) : Check Unit := do
  let w ← world
  match w.spec? name with
  | none => return ()
  | some spec =>
    let given := arguments.length
    let want := spec.params.length
    if given != want then
      fail pos ((if given < want then "not enough" else "too many") ++ " type arguments for type " ++ spec.name ++
        ": have " ++ toString given ++ ", want " ++ toString want)
    let binding := (spec.params.map (·.name)).zip (arguments.map (·.2))
    (spec.params.zip arguments).forM fun (p, (at_, t)) => do
      match w.unmet? (seenFrom (← here)) (some (← here)) true t (p.constraint.substitute binding) with
      | some why => fail at_ why
      | none => return ()

def needEmbeddable (t : SourceType) : Check Unit := do
  let w ← world
  let (target, isPointer) := w.deref t
  if w.isParameter target then fail pos "embedded field type cannot be a type parameter"
  match w.underlying target with
  | .basic .unsafePointer => fail pos "embedded field type cannot be unsafe.Pointer"
  | .pointer _ => fail pos "embedded field type cannot be a pointer"
  | .interface _ _ => if isPointer then fail pos "embedded field type cannot be a pointer to an interface"
  | _ => return ()

def needValues (t : SourceType) : Check Unit := do
  let w ← world
  if w.isInterface t && !w.isParameter t then
    let set := w.typeSet (some (← here)) t
    let why := if set.isComparable then "is (or embeds) comparable" else "contains type constraints"
    if !set.isMethodSet then
      fail pos ("cannot use type " ++ (← typeText t) ++ " outside a type constraint: interface " ++ why)

/-- How values of a type hold values of a named type, if they do: directly, or as part of another named type.  The
first way in the order of the definition counts. -/
def holding? (w : World) (name : TypeName) : Nat → Bool → SourceType → Option Bool
  | 0, _, _ => none
  | fuel + 1, isDirect, t =>
    match w.unalias t with
    | .named n arguments =>
      if n == name then some isDirect
      else (w.spec? n).bind fun spec => holding? w name fuel false (spec.definitionAt arguments)
    | .array _ element => holding? w name fuel isDirect element
    | .record fields => fields.findSome? fun (_, t) => holding? w name fuel isDirect t
    | .interface _ embedded => embedded.findSome? (holding? w name fuel isDirect)
    | .union terms => terms.findSome? fun (_, t) => holding? w name fuel isDirect t
    | _ => none

def needFinite (name : TypeName) : Check Unit := do
  let w ← world
  match w.spec? name with
  | none => return ()
  | some spec =>
    if !spec.isAlias then
      match holding? w name (w.depth spec.definition) true spec.definition with
      | some true => fail pos ("invalid recursive type: " ++ name.name ++ " refers to itself")
      | some false => fail pos ("invalid recursive type " ++ name.name)
      | none => return ()

end Semantics

end Covenant.Source
