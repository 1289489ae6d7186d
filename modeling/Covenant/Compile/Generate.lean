import Covenant.Contract.Validate
import Covenant.Emit.Dart
import Covenant.Emit.TypeScript

/-!
# Compiling a program

`Options.check` accepts the options that can be used and gives the languages to emit.  `generate` checks them,
validates the program, drops what is excluded and emits every selected language.  It gives all files or none: the
first failure ends it.
-/

namespace Covenant.Emit

open Binding (Binder)
open Contract (Program)

inductive Language where
  | dart
  | typescript
  deriving DecidableEq, Repr

namespace Language

def all : List Language := [dart, typescript]

def name : Language → String
  | dart => "dart"
  | typescript => "typescript"

def ofName? (s : String) : Option Language :=
  let key := Text.lower (Text.trim s)
  all.find? (·.name == key)

def policy : Language → Naming.Policy
  | dart => Dart.policy
  | typescript => TypeScript.policy

def targets : Language → Typing.Targets
  | dart => Dart.targets
  | typescript => TypeScript.targets

def emit : Language → Binder → Settings → Program → Except Failure (List OutputFile)
  | dart => Dart.emit
  | typescript => TypeScript.emit

end Language

end Covenant.Emit

namespace Covenant.Compile

open Contract (ExcludeRules)
open Emit (Language)

def defaultErrorCodesName : String := "ErrorCodes"

structure Options where
  languages : List String := []
  errorCodesName : String := ""
  preambles : List (String × String) := []
  exclude : ExcludeRules := {}
  typeOverrides : List (String × String) := []
  unmangled : List String := []
  deriving DecidableEq

inductive OptionDefect where
  | unknownLanguage (name : String)
  | repeatedLanguage (name : String)
  | errorCodesName (name : String)
  | preamble (defect : OptionDefect)
  | emptyNamespace
  | unmangledName (name : String)
  deriving DecidableEq, Repr

def OptionDefect.toFailure : OptionDefect → Failure
  | unknownLanguage name =>
    (Failure.badConfig ("unknown target language " ++ Text.quoted name)).withHint
      ("supported languages: " ++ Text.join ", " (Language.all.map (·.name)))
  | repeatedLanguage name => .badConfig ("target language " ++ Text.quoted name ++ " listed twice")
  | errorCodesName name =>
    .badConfig ("error code container name " ++ Text.quoted name ++ " is not an identifier")
  | preamble defect => defect.toFailure.within "preamble"
  | emptyNamespace => .badConfig "empty namespace in exclusion rules"
  | unmangledName name => .badConfig ("unmangled name " ++ Text.quoted name ++ " is not an identifier")

def readLanguages (seen : List Language) : List String → Except OptionDefect (List Language)
  | [] => .ok []
  | name :: rest =>
    match Language.ofName? name with
    | none => .error (.unknownLanguage (Text.lower (Text.trim name)))
    | some l =>
      if seen.contains l then .error (.repeatedLanguage l.name)
      else return l :: (← readLanguages (l :: seen) rest)

namespace Options

def containerName (o : Options) : String :=
  if o.errorCodesName.isEmpty then defaultErrorCodesName else o.errorCodesName

def selected (o : Options) : Except OptionDefect (List Language) :=
  if o.languages.isEmpty then .ok Language.all else readLanguages [] o.languages

def check (o : Options) : Except OptionDefect (List Language) := do
  let languages ← o.selected
  if !Text.isIdentifier o.containerName then throw (.errorCodesName o.errorCodesName)
  for (name, _) in o.preambles do
    let _ ← (readLanguages [] [name]).mapError .preamble
  if o.exclude.namespaces.any fun ns => (Text.trim ns).isEmpty then throw .emptyNamespace
  if let some name := o.unmangled.find? (!Text.isIdentifier ·) then throw (.unmangledName name)
  return languages

def preambleOf (o : Options) (l : Language) : String := (o.preambles.lookup l.name).getD ""

end Options

open Binding (Binder)
open Contract (Program)
open Emit (OutputFile Settings)
open Naming (Entry Table)

structure Emitted where
  language : Language
  files : List OutputFile
  table : Table
  /-- The declarations whose short names mean primitive types. -/
  shadowed : List Entry

structure Output where
  program : String
  emitted : List Emitted
  excluded : List String

namespace Output

def files (o : Output) : List OutputFile := o.emitted.flatMap (·.files)

def filesFor (o : Output) (language : String) : List OutputFile := o.files.filter (·.language == language)

def file? (o : Output) (name : String) : Option OutputFile := o.files.find? (·.name == name)

end Output

def emitLanguage (o : Options) (settings : Settings) (p : Program) (l : Language) : Except Failure Emitted := do
  let b ← Binder.build l.targets o.typeOverrides (l.policy.extend o.unmangled) p
  let files ← l.emit b settings p
  return {
    language := l
    files := files.map fun f => { f with language := l.name, content := o.preambleOf l ++ f.content }
    table := b.table
    shadowed := b.table.entries.filter fun e => (b.types.category? e.decl.name).isSome }

def generate (p : Program) (o : Options) : Except Failure Output := do
  let languages ← o.check.mapError (·.toFailure)
  p.validate.mapError fun d => d.toFailure.within ("program " ++ p.name)
  let (kept, excluded) := p.exclude o.exclude
  let settings : Settings := { programName := p.name, errorCodesName := o.containerName }
  let emitted ← languages.mapM fun l =>
    (emitLanguage o settings kept l).mapError (·.within (l.name ++ " generator"))
  return { program := p.name, emitted, excluded }

end Covenant.Compile
