import Covenant.Contract.Program
import Covenant.Source.Type
import Covenant.Text.Quoted

/-!
# Source packages

A package declares types, in groups that share a comment, and constants.  A `World` is what a package can refer to:
itself, what it imports, the predeclared types, and types that are declared inside of functions.  Following the
definition of a name may never end, because a type can be defined through itself; functions that do so take the number
of definitions to follow.
-/

namespace Covenant.Source

open Contract (Literal)

structure TypeParam where
  name : String
  constraint : SourceType

structure TypeSpec where
  name : String
  doc : Option (List String) := none
  isAlias : Bool := false
  params : List TypeParam := []
  definition : SourceType

structure TypeGroup where
  doc : Option (List String) := none
  specs : List TypeSpec := []

structure ConstSpec where
  name : String
  type : SourceType
  value : Literal

structure Package where
  path : String
  groups : List TypeGroup := []
  constants : List ConstSpec := []

namespace Package

def specs (p : Package) : List TypeSpec := p.groups.flatMap (·.specs)

def spec? (p : Package) (name : String) : Option TypeSpec := p.specs.find? fun s => s.name == name

def constant? (p : Package) (name : String) : Option ConstSpec := p.constants.find? fun c => c.name == name

def orderedSpecs (p : Package) : List TypeSpec := (Text.sortedSet (p.specs.map (·.name))).filterMap p.spec?

def orderedConstants (p : Package) : List ConstSpec :=
  (Text.sortedSet (p.constants.map (·.name))).filterMap p.constant?

end Package

def anything : SourceType := .interface [] []

def predeclared : List TypeSpec :=
  [{ name := "error", definition := .interface [("Error", .function [] [("", .basic .string)] false)] [] },
    { name := "comparable", definition := .interface [] [.named { home := none, name := "comparable" } []] },
    { name := "any", isAlias := true, definition := anything }]

def comparableName : TypeName := { home := none, name := "comparable" }

structure World where
  packages : List Package
  /-- Types that are declared inside of functions, in the order of their serial numbers. -/
  locals : List TypeSpec := []
  /-- The constraints of type parameters that are declared inside of functions, by serial number. -/
  bounds : List SourceType := []

namespace World

def package? (w : World) (path : String) : Option Package := w.packages.find? fun p => p.path == path

def spec? (w : World) (name : TypeName) : Option TypeSpec :=
  match name.home with
  | none => predeclared.find? fun s => s.name == name.name
  | some path =>
    if name.serial == 0 then (w.package? path).bind fun p => p.spec? name.name else w.locals[name.serial - 1]?

def extent (w : World) : Nat :=
  let size (specs : List TypeSpec) : Nat := Text.total (specs.map fun s => s.definition.size + 1)
  Text.total (w.packages.map fun p => size p.specs) + size w.locals + Text.total (w.bounds.map fun t => t.size + 1) +
    size predeclared

def bound? (w : World) (serial : Nat) : Option SourceType := if serial == 0 then none else w.bounds[serial - 1]?

/-- How many definitions and parts are followed in a type before it counts as endless. -/
def depth (w : World) (t : SourceType) : Nat := (w.extent + 1) * (t.size + 1)

end World

def TypeSpec.definitionAt (s : TypeSpec) (arguments : List SourceType) : SourceType :=
  s.definition.substitute ((s.params.map (·.name)).zip arguments)

namespace World

def unaliasBy (w : World) : Nat → SourceType → SourceType
  | fuel + 1, .named name arguments =>
    match w.spec? name with
    | some s => if s.isAlias then w.unaliasBy fuel (s.definitionAt arguments) else .named name arguments
    | none => .named name arguments
  | _, t => t

variable (w : World)

def unalias : SourceType → SourceType
  | .named name arguments =>
    match w.spec? name with
    | some s => if s.isAlias then w.unaliasBy w.extent (s.definitionAt arguments) else .named name arguments
    | none => .named name arguments
  | t => t

def asked : SourceType → SourceType → SourceType
  | .interface methods embedded, _ => .interface methods embedded
  | _, constraint => .interface [] [constraint]

def underlyingBy (w : World) : Nat → SourceType → SourceType
  | fuel + 1, .named name arguments =>
    match w.spec? name with
    | some s => w.underlyingBy fuel (s.definitionAt arguments)
    | none => .named name arguments
  | fuel + 1, .parameter name serial =>
    match w.bound? serial with
    | some t => asked (w.underlyingBy fuel t) t
    | none => .parameter name serial
  | _, t => t

/-- The type at the end of a chain of names; a type parameter is built like its constraint. -/
def underlying (t : SourceType) : SourceType := w.underlyingBy (w.extent + 1) t

def isInteger (w : World) (t : SourceType) : Bool :=
  match w.underlying t with
  | .basic b => b.isInteger
  | _ => false

def isParameter (t : SourceType) : Bool := w.unalias t matches .parameter _ _

def isInterface (t : SourceType) : Bool :=
  match w.underlying t with
  | .interface _ _ => true
  | _ => false

def admitsAllBy (w : World) : Nat → SourceType → Bool
  | 0, _ => false
  | fuel + 1, t =>
    match w.unalias t with
    | .named name arguments =>
      name != comparableName &&
        match w.spec? name with
        | some s => w.admitsAllBy fuel (s.definitionAt arguments)
        | none => false
    | .interface methods embedded => methods.isEmpty && embedded.all (w.admitsAllBy fuel)
    | _ => false

/-- Whether a constraint is met by every type: it asks for no method, no comparison and no particular type. -/
def admitsAll (t : SourceType) : Bool := w.admitsAllBy (w.depth t) t

structure Member where
  name : String
  value : Literal
  deriving DecidableEq

def memberName (constant type : String) : String :=
  let rest := Text.trimStart type constant
  if rest != constant && isExported rest then rest else constant

def intOf : Literal → Int
  | .int v => v
  | _ => 0

def memberBefore (a b : Member) : Bool :=
  intOf a.value < intOf b.value || (intOf a.value == intOf b.value && Text.before a.name b.name)

def members (name : TypeName) (arguments : List SourceType) : List Member :=
  let own := (name.home.bind w.package?).elim [] Package.orderedConstants
  let typed := own.filter fun c => isExported c.name && (w.unalias c.type).same (.named name arguments)
  Text.sortBy memberBefore (typed.map fun c => { name := memberName c.name name.name, value := c.value })

def isEnum (name : TypeName) (arguments : List SourceType) : Bool :=
  w.isInteger (.named name arguments) && !(w.members name arguments).isEmpty

end World

abbrev Qualifier := String → String

def fullPath : Qualifier := fun path => path ++ "."

def seenFrom (here : String) : Qualifier := fun path =>
  if path == here then "" else ((Text.split '/' path).getLast?.getD "") ++ "."

def TypeName.text (q : Qualifier) (n : TypeName) : String :=
  match n.home with
  | none => n.name
  | some path => q path ++ n.name

def isPredeclared (name : String) : Bool :=
  (Basic.ofName? name).isSome || predeclared.any (fun s => s.name == name) ||
    ["true", "false", "iota", "nil", "append", "cap", "clear", "close", "complex", "copy", "delete", "imag", "len",
      "make", "max", "min", "new", "panic", "print", "println", "real", "recover"].contains name

namespace SourceType

def isBare : List (String × SourceType) → Bool
  | [(name, _)] => name.isEmpty
  | _ => false

def signature (inputs outputs : List String) (bare : Bool) : String :=
  "(" ++ Text.join ", " inputs ++ ")" ++
    if outputs.isEmpty then ""
    else if bare then " " ++ Text.join ", " outputs
    else " (" ++ Text.join ", " outputs ++ ")"

mutual
def text (q : Qualifier) : SourceType → String
  | basic b => b.name
  | pointer t => "*" ++ text q t
  | slice t => "[]" ++ text q t
  | array n t => "[" ++ toString n ++ "]" ++ text q t
  | map k v => "map[" ++ text q k ++ "]" ++ text q v
  | channel .both (channel .receive t) => "chan (<-chan " ++ text q t ++ ")"
  | channel .both t => "chan " ++ text q t
  | channel .send t => "chan<- " ++ text q t
  | channel .receive t => "<-chan " ++ text q t
  | function is os v => "func" ++ signature (inputTexts q v is) (inputTexts q false os) (isBare os)
  | record fs => "struct\x7b" ++ Text.join "; " (fieldTexts q fs) ++ "\x7d"
  | interface ms es => "interface\x7b" ++ Text.join "; " (methodTexts q ms ++ texts q es) ++ "\x7d"
  | union ts => Text.join " | " (termTexts q ts)
  | parameter name _ => if isPredeclared name then name ++ " /* type parameter */" else name
  | named name as => name.text q ++ if as.isEmpty then "" else "[" ++ Text.join ", " (texts q as) ++ "]"

def texts (q : Qualifier) : List SourceType → List String
  | [] => []
  | t :: ts => text q t :: texts q ts

def termTexts (q : Qualifier) : List (Bool × SourceType) → List String
  | [] => []
  | (isOpen, t) :: ts => ((if isOpen then "~" else "") ++ text q t) :: termTexts q ts

def fieldTexts (q : Qualifier) : List (FieldHead × SourceType) → List String
  | [] => []
  | (head, t) :: fs =>
    ((if head.isEmbedded then "" else head.name ++ " ") ++ text q t ++
      if head.tag.isEmpty then "" else " " ++ Text.quoted head.tag) :: fieldTexts q fs

def inputTexts (q : Qualifier) (isVariadic : Bool) : List (String × SourceType) → List String
  | [] => []
  | [(name, slice t)] =>
    [(if name.isEmpty then "" else name ++ " ") ++ (if isVariadic then "..." else "[]") ++ text q t]
  | (name, t) :: ts => ((if name.isEmpty then "" else name ++ " ") ++ text q t) :: inputTexts q isVariadic ts

def methodTexts (q : Qualifier) : List (String × SourceType) → List String
  | [] => []
  | (name, function is os v) :: ms =>
    (name ++ signature (inputTexts q v is) (inputTexts q false os) (isBare os)) :: methodTexts q ms
  | (name, t) :: ms => (name ++ " " ++ text q t) :: methodTexts q ms
end

end SourceType

/-- Type parameters between brackets.  Neighbours with one constraint share it. -/
def paramTexts (q : Qualifier) : List TypeParam → List String
  | [] => []
  | [p] => [p.name ++ " " ++ p.constraint.text q]
  | p :: r :: ps =>
    (if p.constraint.same r.constraint then p.name else p.name ++ " " ++ p.constraint.text q) ::
      paramTexts q (r :: ps)

/-- A type in a message; a name without the arguments it needs is shown with its parameters. -/
def World.text (w : World) (q : Qualifier) : SourceType → String
  | .named name [] =>
    name.text q ++ match (w.spec? name).elim [] (·.params) with
      | [] => ""
      | ps => "[" ++ Text.join ", " (paramTexts q ps) ++ "]"
  | t => t.text q

end Covenant.Source
