import Covenant.Failure
import Covenant.Number.Numeral

/-!
# Commands

Flags and arguments may stand in any order; two hyphens end the flags.  The first argument that belongs to no flag
names the command.
-/

namespace Covenant.Cli

inductive FlagKind where
  | text
  | texts
  | switch
  | count

structure Flag where
  name : String
  letter : Option Char := none
  kind : FlagKind := .text

inductive FlagValue where
  | text (value : String)
  | texts (values : List String)
  | switch (value : Bool)
  | count (value : Int)
  deriving DecidableEq

abbrev Given := List (String × FlagValue)

namespace Given

def text (g : Given) (name : String) : String :=
  match g.lookup name with
  | some (.text value) => value
  | _ => ""

def texts (g : Given) (name : String) : List String :=
  match g.lookup name with
  | some (.texts values) => values
  | _ => []

def switch (g : Given) (name : String) : Bool := g.lookup name == some (.switch true)

def count (g : Given) (name : String) : Int :=
  match g.lookup name with
  | some (.count value) => value
  | _ => 0

end Given

inductive FlagFault where
  | shape (argument : String)
  | unknown (name : String)
  | unknownLetter (letter : Char) (cluster : String)
  | noArgument (name : String)
  | noLetterArgument (letter : Char) (cluster : String)
  | value (flag : Flag) (argument : String) (cause : String)

namespace Flag

def label (f : Flag) : String :=
  match f.letter with
  | some letter => "-" ++ String.singleton letter ++ ", --" ++ f.name
  | none => "--" ++ f.name

def bare? (f : Flag) : Option String :=
  match f.kind with
  | .text | .texts => none
  | .switch => some "true"
  | .count => some "+1"

end Flag

namespace FlagFault

def message : FlagFault → String
  | shape argument => "bad flag syntax: " ++ argument
  | unknown name => "unknown flag: --" ++ name
  | unknownLetter letter cluster =>
    "unknown shorthand flag: " ++ Text.quotedRune letter ++ " in -" ++ cluster
  | noArgument name => "flag needs an argument: --" ++ name
  | noLetterArgument letter cluster =>
    "flag needs an argument: " ++ Text.quotedRune letter ++ " in -" ++ cluster
  | value flag argument cause =>
    "invalid argument " ++ Text.quoted argument ++ " for " ++ Text.quoted flag.label ++ " flag: " ++ cause

end FlagFault

def readSwitch? (s : String) : Option Bool :=
  if ["1", "t", "T", "TRUE", "true", "True"].contains s then some true
  else if ["0", "f", "F", "FALSE", "false", "False"].contains s then some false
  else none

def Flag.use (f : Flag) (g : Given) (argument : String) : Except String FlagValue :=
  match f.kind with
  | .text => .ok (.text argument)
  | .texts =>
    match Text.recordValues argument with
    | .ok values => .ok (.texts (g.texts f.name ++ values))
    | .error fault => .error fault.message
  | .switch =>
    match readSwitch? argument with
    | some value => .ok (.switch value)
    | none => .error ("strconv.ParseBool: parsing " ++ Text.quoted argument ++ ": invalid syntax")
  | .count =>
    if argument == "+1" then .ok (.count (g.count f.name + 1))
    else match Number.integer64 argument.toList with
      | .ok value => .ok (.count value)
      | .error fault =>
        .error ("strconv.ParseInt: parsing " ++ Text.quoted argument ++ ": " ++ fault.text)

def Given.set (g : Given) (f : Flag) (argument : String) : Except FlagFault Given :=
  match f.use g argument with
  | .ok value => .ok ((f.name, value) :: g.filter (·.1 != f.name))
  | .error cause => .error (.value f argument cause)

inductive Reading where
  | positional
  | stop
  | done (given : Given)
  /-- A flag that takes the next argument; the fault is for when there is none. -/
  | open_ (given : Given) (flag : Flag) (fault : FlagFault)

def readLetters (flags : List Flag) (g : Given) : List Char → Except FlagFault Reading
  | [] => .ok (.done g)
  | c :: cs =>
    let cluster := String.ofList (c :: cs)
    match flags.find? (·.letter == some c) with
    | none => .error (.unknownLetter (Char.ofNat ((Text.toOctets cluster).headD 0).toNat) cluster)
    | some f =>
      match cs with
      | '=' :: v :: vs => (g.set f (String.ofList (v :: vs))).map .done
      | _ =>
        match f.bare? with
        | some bare => do readLetters flags (← g.set f bare) cs
        | none =>
          if cs.isEmpty then .ok (.open_ g f (.noLetterArgument c cluster))
          else (g.set f (String.ofList cs)).map .done

def readLong (flags : List Flag) (g : Given) (argument : String) (body : List Char) : Except FlagFault Reading :=
  if body.head?.all fun c => c == '-' || c == '=' then .error (.shape argument)
  else
    let name := String.ofList (body.takeWhile (· != '='))
    match flags.find? (·.name == name), body.dropWhile (· != '=') with
    | none, _ => .error (.unknown name)
    | some f, _ :: value => (g.set f (String.ofList value)).map .done
    | some f, [] =>
      match f.bare? with
      | some bare => (g.set f bare).map .done
      | none => .ok (.open_ g f (.noArgument name))

def readArgument (flags : List Flag) (g : Given) (argument : String) : Except FlagFault Reading :=
  match argument.toList with
  | ['-', '-'] => .ok .stop
  | '-' :: '-' :: body => readLong flags g argument body
  | '-' :: c :: cs => readLetters flags g (c :: cs)
  | _ => .ok .positional

def readArguments (flags : List Flag) (g : Given) : List String → Except FlagFault (Given × List String)
  | [] => .ok (g, [])
  | a :: rest => do
    match ← readArgument flags g a with
    | .positional => (readArguments flags g rest).map fun (g, others) => (g, a :: others)
    | .stop => .ok (g, rest)
    | .done g => readArguments flags g rest
    | .open_ g f fault =>
      match rest with
      | [] => .error fault
      | value :: rest => readArguments flags (← g.set f value) rest

inductive Command where
  | generate | check | watch | routes | extract | init | version | help | completion
  deriving DecidableEq

inductive Arity where
  | none
  | atMost (n : Nat)
  | atLeast (n : Nat)
  | any

def commonFlags : List Flag :=
  [⟨"verbose", some 'v', .count⟩, ⟨"log-json", none, .switch⟩, ⟨"config", some 'c', .text⟩]

def buildFlags : List Flag :=
  [⟨"ir", none, .text⟩, ⟨"output", some 'o', .text⟩, ⟨"lang", some 'l', .texts⟩]

def helpFlag : Flag := ⟨"help", some 'h', .switch⟩

namespace Command

def all : List Command := [generate, check, watch, routes, extract, init, version, help, completion]

def name : Command → String
  | generate => "generate"
  | check => "check"
  | watch => "watch"
  | routes => "routes"
  | extract => "extract"
  | init => "init"
  | version => "version"
  | help => "help"
  | completion => "completion"

def ofName? (s : String) : Option Command := all.find? (·.name == s)

def ownFlags : Command → List Flag
  | generate => buildFlags ++ [⟨"dry-run", none, .switch⟩]
  | check | watch => buildFlags
  | routes => [⟨"ir", none, .text⟩, ⟨"json", some 'j', .switch⟩]
  | extract =>
    [⟨"output", some 'o', .text⟩, ⟨"program", none, .text⟩, ⟨"trim-prefix", none, .text⟩,
      ⟨"error-codes-name", none, .text⟩, ⟨"dir", some 'C', .text⟩, ⟨"build-flags", none, .texts⟩]
  | init => [⟨"print", none, .switch⟩, ⟨"force", some 'f', .switch⟩]
  | version => [⟨"json", some 'j', .switch⟩]
  | help | completion => []

def flags (c : Command) : List Flag := c.ownFlags ++ commonFlags ++ [helpFlag]

def arity : Command → Arity
  | generate | check | watch | routes | version => .none
  | extract => .atLeast 1
  | init => .atMost 1
  | help | completion => .any

end Command

inductive UsageFault where
  | flag (fault : FlagFault)
  | unknownCommand (name : String) (similar : List Command)
  | unexpected (argument : String) (command : Command)
  | tooMany (limit count : Nat)
  | tooFew (limit count : Nat)

namespace UsageFault

def message : UsageFault → String
  | flag fault => fault.message
  | unknownCommand name similar =>
    "unknown command " ++ Text.quoted name ++ " for \"contractgen\"" ++
      if similar.isEmpty then ""
      else "\n\nDid you mean this?\n" ++ String.join (similar.map fun c => "\t" ++ c.name ++ "\n")
  | unexpected argument command =>
    "unknown command " ++ Text.quoted argument ++ " for " ++ Text.quoted ("contractgen " ++ command.name)
  | tooMany limit count => "accepts at most " ++ toString limit ++ " arg(s), received " ++ toString count
  | tooFew limit count =>
    "requires at least " ++ toString limit ++ " arg(s), only received " ++ toString count

def toFailure (f : UsageFault) : Failure := { origin := .usage, text := f.message }

end UsageFault

/-- The next row of distances: `last` is the one above and left, `left` the one to the left. -/
def nextDistances {α : Type} [BEq α] (a : α) (last left : Nat) : List α → List Nat → List Nat
  | b :: bs, above :: row =>
    let here := if a == b then last else min (min above left) last + 1
    here :: nextDistances a above here bs row
  | _, _ => []

def editDistance {α : Type} [BEq α] (xs ys : List α) : Nat :=
  let first := List.range (ys.length + 1)
  let row := xs.foldl (fun row x =>
    let edge := row.headD 0
    (edge + 1) :: nextDistances x edge (edge + 1) ys (row.drop 1)) first
  row.getLastD 0

def Command.isLike (c : Command) (typed : String) : Bool :=
  editDistance (Text.toOctets (Text.lower typed)) (Text.toOctets c.name) ≤ 2 ||
    Text.hasPrefix (Text.lower typed) c.name

def similarCommands (typed : String) : List Command :=
  Command.all.filter fun c => c != .help && c.isLike typed

def takesNext (argument : String) : Bool :=
  if argument.toList.contains '=' then false
  else match argument.toList with
    | '-' :: '-' :: name =>
      !(commonFlags.any fun f => f.name == String.ofList name && f.bare?.isSome)
    | '-' :: letter =>
      Text.byteLength argument = 2 && !(commonFlags.any fun f => f.letter == letter.head? && f.bare?.isSome)
    | _ => false

def commandWord? : List String → Option String
  | [] => none
  | a :: rest =>
    if a == "--" then none
    else if takesNext a then
      match rest with
      | _ :: next :: rest => commandWord? (next :: rest)
      | _ => none
    else if a.isEmpty || Text.hasPrefix "-" a then commandWord? rest
    else some a

def withoutWord (word : String) : List String → List String
  | [] => []
  | a :: rest =>
    if a == "--" then a :: rest
    else if takesNext a then
      match rest with
      | [] => [a]
      | value :: rest => a :: value :: withoutWord word rest
    else if a == word then rest
    else a :: withoutWord word rest

structure Invocation where
  command : Option Command
  given : Given
  arguments : List String

def checkArity (c : Command) (arguments : List String) : Except UsageFault Unit :=
  match c.arity, arguments with
  | .none, a :: _ => .error (.unexpected a c)
  | .atMost n, _ => if arguments.length > n then .error (.tooMany n arguments.length) else .ok ()
  | .atLeast n, _ => if arguments.length < n then .error (.tooFew n arguments.length) else .ok ()
  | _, _ => .ok ()

namespace Invocation

def read (arguments : List String) : Except UsageFault Invocation := do
  let parse (flags : List Flag) (arguments : List String) : Except UsageFault (Given × List String) :=
    (readArguments flags [] arguments).mapError .flag
  match commandWord? arguments with
  | none =>
    let (given, arguments) ← parse (commonFlags ++ [helpFlag]) arguments
    return { command := none, given, arguments }
  | some word =>
    match Command.ofName? word with
    | none => .error (.unknownCommand word (similarCommands word))
    | some c =>
      let (given, arguments) ← parse c.flags (withoutWord word arguments)
      if !given.switch "help" then checkArity c arguments
      return { command := some c, given, arguments }

def isHelp (i : Invocation) : Bool :=
  i.given.switch "help" || i.command.all fun c => c == .help || c == .completion

end Invocation

end Covenant.Cli
