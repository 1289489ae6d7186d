import Covenant.Text.Basic

/-!
# Failures and their classes

Every fatal condition is a `Failure`: an innermost text, the contexts it passed through on its way out, its hints and
its origin.  Conditions raised while compiling a program belong to one of seven classes, by which callers tell them
apart.
-/

namespace Covenant

inductive FailureClass where
  | unresolvedReference
  /-- Two declarations share a fully qualified name. -/
  | manglingExhausted
  | nameCollision
  | duplicateDeclaration
  | malformedContract
  | invalidConfig
  | unsupportedSchema
  deriving DecidableEq, Repr

namespace FailureClass

def all : List FailureClass :=
  [unresolvedReference, manglingExhausted, nameCollision, duplicateDeclaration, malformedContract, invalidConfig,
    unsupportedSchema]

def text : FailureClass → String
  | unresolvedReference => "unresolved type reference"
  | manglingExhausted => "name mangling exhausted"
  | nameCollision => "emitted name collision"
  | duplicateDeclaration => "duplicate declaration"
  | malformedContract => "malformed contract"
  | invalidConfig => "invalid configuration"
  | unsupportedSchema => "unsupported IR schema version"

def isNaming : FailureClass → Bool
  | manglingExhausted | nameCollision | duplicateDeclaration => true
  | _ => false

end FailureClass

inductive Origin where
  | classified (cls : FailureClass)
  | assertion
  | usage
  | other
  deriving DecidableEq

structure Failure where
  origin : Origin
  text : String
  contexts : List String := []
  hints : List String := []
  deriving DecidableEq

namespace Failure

def reportHint : String :=
  "You have encountered an unexpected error.\n\nPlease check the public issue tracker to check whether this " ++
  "problem is\nalready tracked. If you cannot find it there, please report the error\nwith details by creating a " ++
  "new issue.\n\nIf you would rather not post publicly, please contact us directly\nusing the support form.\n\nWe " ++
  "appreciate your feedback.\n"

def ofClass (cls : FailureClass) (text : String) : Failure := { origin := .classified cls, text }

def malformed (text : String) : Failure := ofClass .malformedContract text

def badConfig (text : String) : Failure := ofClass .invalidConfig text

def unresolved (ref text : String) : Failure :=
  { ofClass .unresolvedReference text with
    hints := ["check that the extractor emitted a declaration for " ++ ref] }

def impossible (text : String) : Failure := { origin := .assertion, text, hints := [reportHint] }

def plain (text : String) : Failure := { origin := .other, text }

variable (f : Failure)

def within (context : String) : Failure := { f with contexts := f.contexts ++ [context] }

def withHint (hint : String) : Failure := { f with hints := f.hints ++ [hint] }

def mark (cls : FailureClass) : Failure := { f with origin := .classified cls }

/-- The full text: every context that is not empty, a colon, and what it surrounds. -/
def message : String :=
  f.contexts.foldl (fun inner context => if context.isEmpty then inner else context ++ ": " ++ inner) f.text

/-- Whether a failure counts as one of a class.  The bare text of a class stands for that class. -/
def belongsTo (cls : FailureClass) : Bool := f.origin == .classified cls || f.text == cls.text

def cls? : Option FailureClass := FailureClass.all.find? f.belongsTo

def isNaming (f : Failure) : Bool := FailureClass.all.any fun cls => cls.isNaming && f.belongsTo cls

/-- A text without empty lines: line breaks at its ends are dropped and runs of them become one. -/
def dense (s : String) : String := Text.join "\n" ((Text.split '\n' s).filter (!·.isEmpty))

/-- The text for a reader: contexts and text that are not empty, joined by colons.  What is said about the use of the
command line stands as it is. -/
def display : String :=
  if f.origin = .usage then f.message
  else Text.join ": " (((f.text :: f.contexts).reverse.map dense).filter (!·.isEmpty))

def report : String :=
  (if f.isNaming then "Naming error: " else "Error: ") ++ f.display ++ "\n" ++
    String.join (f.hints.map fun hint => "  hint: " ++ hint ++ "\n")

end Failure

end Covenant
