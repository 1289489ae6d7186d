import Covenant.Source.Member

/-!
# Meeting an interface

A type implements an interface if it has its methods and is in its type set; a type argument satisfies a constraint in
much the same way.  If not, this module tells why.
-/

namespace Covenant.Source

mutual
def SourceType.unnamed : SourceType → SourceType
  | .basic b => .basic b
  | .pointer t => .pointer (unnamed t)
  | .slice t => .slice (unnamed t)
  | .array n t => .array n (unnamed t)
  | .map k v => .map (unnamed k) (unnamed v)
  | .channel d t => .channel d (unnamed t)
  | .function is os v => .function (unnamedInputs is) (unnamedInputs os) v
  | .record fs => .record (unnamedFields fs)
  | .interface ms es => .interface (unnamedMethods ms) (unnamedAll es)
  | .union ts => .union (unnamedTerms ts)
  | .parameter name serial => .parameter name serial
  | .named name as => .named name (unnamedAll as)

def SourceType.unnamedAll : List SourceType → List SourceType
  | [] => []
  | t :: ts => unnamed t :: unnamedAll ts

def SourceType.unnamedInputs : List (String × SourceType) → List (String × SourceType)
  | [] => []
  | (_, t) :: ts => ("", unnamed t) :: unnamedInputs ts

def SourceType.unnamedMethods : List (String × SourceType) → List (String × SourceType)
  | [] => []
  | (name, t) :: ts => (name, unnamed t) :: unnamedMethods ts

def SourceType.unnamedFields : List (FieldHead × SourceType) → List (FieldHead × SourceType)
  | [] => []
  | (head, t) :: ts => (head, unnamed t) :: unnamedFields ts

def SourceType.unnamedTerms : List Term → List Term
  | [] => []
  | (isOpen, t) :: ts => (isOpen, unnamed t) :: unnamedTerms ts
end

inductive MethodDefect where
  | missing
  | otherName (have_ : Found)
  | unexported
  | otherType (have_ : Found)
  | ambiguous
  | isField

namespace World

variable (w : World) (q : Qualifier)

def isInterfacePointer (t : SourceType) : Bool :=
  match w.underlying t with
  | .pointer target => w.isInterface target
  | _ => false

def interfacePointerText (t : SourceType) : String :=
  "type " ++ w.text q t ++ " is pointer to interface, not interface"

/-- What is wrong with one method of an interface in a type; what an interface may hold at run time counts if it need
not have the method itself. -/
def methodDefect? (here : Option String) (isStatic : Bool) (t : SourceType) (m : Method) : Option MethodDefect :=
  let fits (f : Found) : Option MethodDefect := if w.identical f.type m.type then none else some (.otherType f)
  if w.isInterface t then
    match (w.typeSet here t).methods.find? fun n => visibleAs m.home m.name n.home n.name with
    | some n => fits { name := n.name, type := n.type, home := n.home, isField := false, isIndirect := false }
    | none => if isStatic then some .missing else none
  else match w.member here (visibleAs m.home m.name) t with
    | .found f => if f.isField then some .isField else fits f
    | .ambiguous => some .ambiguous
    | .missing =>
      match (w.member here (spelledLike m.name) t).found? with
      | some f =>
        if f.isField then some .missing else if f.name == m.name then some .unexported else some (.otherName f)
      | none => some .missing

def methodFault? (here : Option String) (isStatic : Bool) (t target : SourceType) : Option (Method × MethodDefect) :=
  (w.typeSet here target).methods.findSome? fun m => (w.methodDefect? here isStatic t m).map (m, ·)

def methodText (name : String) (t : SourceType) : String :=
  match t.unnamed with
  | .function is os v =>
    name ++ SourceType.signature (SourceType.inputTexts q v is) (SourceType.inputTexts q false os)
      (SourceType.isBare os)
  | other => name ++ " " ++ other.text q

def methodFaultText (t target : SourceType) (m : Method) (defect : MethodDefect) : String :=
  let both (q : Qualifier) (f : Found) : String × String := (methodText q f.name f.type, methodText q m.name m.type)
  let listing (what : String) (have_ want : String) : String :=
    "(" ++ what ++ " method " ++ m.name ++ ")\n\t\thave " ++ have_ ++ "\n\t\twant " ++ want
  match defect with
  | .missing =>
    if w.isInterfacePointer t then "(" ++ w.interfacePointerText q t ++ ")"
    else if w.isInterfacePointer target then "(" ++ w.interfacePointerText q target ++ ")"
    else "(missing method " ++ m.name ++ ")"
  | .otherName f => let (have_, want) := both q f; listing "missing" have_ want
  | .unexported => "(unexported method " ++ m.name ++ ")"
  | .otherType f =>
    let (have_, want) := both q f
    let (have_, want) := if have_ == want then both fullPath f else (have_, want)
    if have_ == want then "(wrong type for method " ++ m.name ++ ")" else listing "wrong type for" have_ want
  | .ambiguous => "(ambiguous selector " ++ w.text q t ++ "." ++ m.name ++ ")"
  | .isField => "(type " ++ w.text q t ++ " has no method " ++ m.name ++ ", but does have field " ++ m.name ++ ")"

def mentionsBy (w : World) (t : SourceType) : Nat → SourceType → Bool
  | 0, _ => false
  | fuel + 1, interface =>
    w.identical interface t ||
      match interface with
      | .interface _ embedded => embedded.any (w.mentionsBy t fuel)
      | .union terms => terms.any fun (_, u) => w.mentionsBy t fuel u
      | _ => false

/-- Why a type does not implement an interface, or does not satisfy it as a constraint; nothing if it does.  As a
constraint any other type stands for an interface with the type as its only term. -/
def unmet? (here : Option String) (isConstraint : Bool) (t target : SourceType) : Option String :=
  let verb := if isConstraint then "satisfy" else "implement"
  let goal := w.text q target
  let refusal := w.text q t ++ " does not " ++ verb ++ " " ++ goal
  let target := if isConstraint && !w.isInterface target then .interface [] [target] else target
  if !w.isInterface target then
    some (refusal ++ " (" ++
      (if w.isInterfacePointer target then w.interfacePointerText q target
        else w.text q target ++ " is not an interface") ++ ")")
  else
    let wanted := w.typeSet here target
    let own := w.typeSet here t
    let isInterface := w.isInterface t
    if wanted.isAll || (isInterface && own.isEmpty) then none
    else if wanted.isEmpty then some ("cannot " ++ verb ++ " " ++ goal ++ " (empty type set)")
    else match w.methodFault? here true t target with
      | some (m, defect) => some (refusal ++ " " ++ w.methodFaultText q t target m defect)
      | none =>
        let comparison : Option String :=
          if !(wanted.isComparable || wanted.terms.any fun ts => ts.all fun x => w.isStrictlyComparable x.2) then none
          else if w.isStrictlyComparable t || (isConstraint && w.isComparable t) then none
          else some (w.text q t ++ " does not " ++ verb ++ " comparable")
        match wanted.terms with
        | none => comparison
        | some terms =>
          if isInterface then
            if w.areWithin w.identical own.terms wanted.terms then comparison else some refusal
          else if terms.any (w.isOf t) then comparison
          else
            let near := terms.find? fun x =>
              !x.1 && w.identical x.2 (w.underlying x.2) && w.isOf t (true, x.2)
            let detail := match near with
              | some x => "possibly missing ~ for " ++ w.text q x.2 ++ " in " ++ goal
              | none =>
                let text := w.text q t
                if w.mentionsBy t (w.depth target) (w.underlying target) then
                  goal ++ " mentions " ++ text ++ ", but " ++ text ++ " is not in the type set of " ++ goal
                else text ++ " missing in " ++ Text.join " | " (SourceType.termTexts fullPath terms)
            some (refusal ++ " (" ++ detail ++ ")")

end World

end Covenant.Source
