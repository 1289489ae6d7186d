import Covenant.Text.Quoted

/-!
# Logging

Each flag for more output adds categories of what is shown and lowers the level from which on lines are logged.  A
line on the console has the time, the level unless it is the common one, the component, the message and the fields.
-/

namespace Covenant.Log

inductive Level where
  | debug | info | warn | error

namespace Level

def rank : Level → Nat
  | debug => 0
  | info => 1
  | warn => 2
  | error => 3

def name : Level → String
  | debug => "debug"
  | info => "info"
  | warn => "warn"
  | error => "error"

def ofVerbosity (v : Int) : Level := if v ≤ 0 then warn else if v = 1 then info else debug

end Level

def verbosityName (v : Int) : String :=
  if v < 0 then "Unknown"
  else if v = 0 then "User"
  else if v = 1 then "Info (-v)"
  else if v = 2 then "Debug (-vv)"
  else if v = 3 then "Trace (-vvv)"
  else "Trace (-vvv+)"

inductive Category where
  | results | errors | progress | files | config | timing | declarations

namespace Category

def all : List Category := [results, errors, progress, files, config, timing, declarations]

def ofNumber? (n : Int) : Option Category := if n < 0 then none else all[n.toNat]?

def name : Category → String
  | results => "results"
  | errors => "errors"
  | progress => "progress"
  | files => "files"
  | config => "config"
  | timing => "timing"
  | declarations => "declarations"

def least : Category → Int
  | results | errors => 0
  | progress | files => 1
  | config | timing => 2
  | declarations => 3

def isShown (c : Category) (v : Int) : Bool := c.least ≤ v

def nameOf (c? : Option Category) : String := (c?.map name).getD "unknown"

def isShownOr (c? : Option Category) (v : Int) : Bool := (c?.getD declarations).isShown v

def enabled (v : Int) : List String := (all.filter (·.isShown v)).map name

end Category

inductive Colour where
  | dim | name | value | warn | error

def Colour.start : Colour → String
  | dim => "\x1b[38;5;245m"
  | name => "\x1b[38;5;109m"
  | value => "\x1b[38;5;142m"
  | warn => "\x1b[1m\x1b[38;5;214m"
  | error => "\x1b[1m\x1b[38;5;167m"

def paint (coloured : Bool) (c : Colour) (s : String) : String :=
  if coloured then c.start ++ s ++ "\x1b[0m" else s

inductive FieldValue where
  | text (s : String)
  | bool (b : Bool)
  | whole (n : Int)
  | fraction (d : Number.Double)
  | null
  | list (items : List FieldValue)
  | failure (s : String)
  | span (nanoseconds : Int)
  deriving Inhabited

def spanText (n : Int) : String :=
  let m := n.natAbs
  let sign := if n < 0 then "-" else ""
  let scaled (unit : Nat) (name : String) : String :=
    let places := (Nat.toDigits 10 unit).length - 1
    let tail := Text.trimRight (· == '0') (Number.Double.padDigits places (m % unit))
    sign ++ toString (m / unit) ++ (if tail.isEmpty then "" else "." ++ tail) ++ name
  if m = 0 then "0s"
  else if m < 1000 then sign ++ toString m ++ "ns"
  else if m < 1000000 then scaled 1000 "µs"
  else if m < 1000000000 then scaled 1000000 "ms"
  else
    let minutes := m / 60000000000
    let rest := m % 60000000000
    let tail := Text.trimRight (· == '0') (Number.Double.padDigits 9 (rest % 1000000000))
    let seconds := toString (rest / 1000000000) ++ (if tail.isEmpty then "" else "." ++ tail) ++ "s"
    sign ++ (if minutes ≥ 60 then toString (minutes / 60) ++ "h" else "") ++
      (if minutes ≥ 1 then toString (minutes % 60) ++ "m" else "") ++ seconds

mutual
def itemText : FieldValue → String
  | .text s | .failure s => s
  | .bool b => if b then "true" else "false"
  | .whole n => toString n
  | .fraction d => d.short
  | .null => "<nil>"
  | .span n => spanText n
  | .list items => "[" ++ Text.join " " (itemTexts items) ++ "]"

def itemTexts : List FieldValue → List String
  | [] => []
  | v :: vs => itemText v :: itemTexts vs
end

def FieldValue.shown : FieldValue → String
  | fraction _ | span _ | null => ""
  | v => itemText v

structure Line where
  level : Level
  component : String
  message : String
  fields : List (String × FieldValue) := []

/-- A component's name with its first part cut to one octet. -/
def abbreviated (name : String) : String :=
  match Text.split '.' name with
  | first :: rest@(_ :: _) =>
    match Text.toOctets first with
    | octet :: _ => String.singleton (Char.ofNat octet.toNat) ++ "." ++ Text.join "." rest
    | [] => name
  | _ => name

def levelText? (coloured : Bool) : Level → Option String
  | .debug => some (paint coloured .dim "DEBUG")
  | .info => none
  | .warn => some (paint coloured .warn "WARN")
  | .error => some (paint coloured .error "ERROR")

def Line.render (coloured : Bool) (time : String) (l : Line) : String :=
  let component := if l.component.isEmpty then none else some (paint coloured .name (abbreviated l.component))
  let field : String × FieldValue → String := fun (k, v) => k ++ "=" ++ paint coloured .value v.shown
  let fields := if l.fields.isEmpty then none else some (Text.join " " (l.fields.map field))
  Text.join "  " ([paint coloured .dim time] ++ (levelText? coloured l.level).toList ++ component.toList ++
    [l.message] ++ fields.toList) ++ "\n"

def render (verbosity : Int) (coloured : Bool) (time : String) (lines : List Line) : String :=
  let least := (Level.ofVerbosity verbosity).rank
  String.join ((lines.filter fun l => least ≤ l.level.rank).map (·.render coloured time))

/-- The fields that the surroundings of a run add: its identifier and its component, if it has any. -/
def contextFields (run component : String) : List (String × String) :=
  [("run_id", run), ("component", component)].filter (!·.2.isEmpty)

end Covenant.Log
