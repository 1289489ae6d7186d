import Covenant.Failure
import Covenant.Text.Quoted

/-!
# Versions

A document states the version of its schema as a semantic version: an optional `v`, one to three numbers, an optional
pre-release part after a dash and optional build data after a plus.  Documents from 1.0.0 up to but not including
2.0.0 are read; pre-releases are not.  A build states its own version.
-/

namespace Covenant.Contract

structure SchemaVersion where
  major : Nat
  minor : Nat := 0
  patch : Nat := 0
  preRelease : String := ""
  build : String := ""
  deriving DecidableEq

inductive VersionDefect where
  | shape
  /-- A number does not fit in 64 bits. -/
  | range (digits : String)
  | leadingZero
  deriving DecidableEq, Repr

namespace SchemaVersion

def digits (cs : List Char) : List Char × List Char := (cs.takeWhile Char.isDigit, cs.dropWhile Char.isDigit)

def dottedNumber (cs : List Char) : List Char × List Char :=
  match cs with
  | '.' :: rest => if (digits rest).1.isEmpty then ([], cs) else digits rest
  | _ => ([], cs)

def isLabelChar (c : Char) : Bool := c.isAlphanum || c == '-' || c == '.'

def isLabels (cs : List Char) : Bool := (Text.splitChars '.' cs).all fun label => !label.isEmpty

/-- The labels after `mark`, if it is there, and the rest; nothing if the mark has no labels. -/
def labels (mark : Char) (cs : List Char) : Option (List Char × List Char) :=
  match cs with
  | c :: rest =>
    if c = mark then
      let text := rest.takeWhile isLabelChar
      if isLabels text then some (text, rest.dropWhile isLabelChar) else none
    else some ([], cs)
  | [] => some ([], [])

def natOfDigits (cs : List Char) : Nat := cs.foldl (fun n c => 10 * n + (c.toNat - 48)) 0

def number (cs : List Char) : Except VersionDefect Nat :=
  if natOfDigits cs < Number.wordBound then .ok (natOfDigits cs) else .error (.range (String.ofList cs))

def hasLeadingZero (label : List Char) : Bool :=
  label.length > 1 && label.head? == some '0' && label.all Char.isDigit

def parse (s : String) : Except VersionDefect SchemaVersion :=
  let cs := match s.toList with
    | 'v' :: rest => rest
    | cs => cs
  let (major, afterMajor) := digits cs
  let (minor, afterMinor) := dottedNumber afterMajor
  let (patch, afterPatch) := if minor.isEmpty then ([], afterMinor) else dottedNumber afterMinor
  match labels '-' afterPatch with
  | none => .error .shape
  | some (pre, afterPre) =>
    match labels '+' afterPre with
    | some (build, []) =>
      if major.isEmpty then .error .shape
      else do
        let version : SchemaVersion :=
          { major := ← number major, minor := ← number minor, patch := ← number patch,
            preRelease := String.ofList pre, build := String.ofList build }
        if (Text.splitChars '.' pre).any hasLeadingZero then throw .leadingZero
        return version
    | _ => .error .shape

def text (v : SchemaVersion) : String :=
  toString v.major ++ "." ++ toString v.minor ++ "." ++ toString v.patch ++
    (if v.preRelease.isEmpty then "" else "-" ++ v.preRelease) ++
    (if v.build.isEmpty then "" else "+" ++ v.build)

/-- Releases from 1.0.0 up to but not including 2.0.0. -/
def isSupported (v : SchemaVersion) : Bool := v.preRelease.isEmpty && v.major == 1

end SchemaVersion

def VersionDefect.message : VersionDefect → String
  | shape => "invalid semantic version"
  | range digits =>
    "error parsing version segment: strconv.ParseUint: parsing " ++ Text.quoted digits ++ ": value out of range"
  | leadingZero => "version segment starts with 0"

def defaultSchema : String := "1.0.0"

def supportedSchema : String := ">= 1.0.0, < 2.0.0"

def checkSchema (version : String) : Except Failure Unit :=
  let version := if version.isEmpty then defaultSchema else version
  match SchemaVersion.parse version with
  | .error defect =>
    .error ((Failure.ofClass .unsupportedSchema defect.message).within
      ("invalid IR schema version " ++ Text.quoted version))
  | .ok v =>
    if v.isSupported then .ok ()
    else .error ((Failure.ofClass .unsupportedSchema
      ("IR schema " ++ v.text ++ " is outside " ++ supportedSchema)).withHint
      ("regenerate the IR with an extractor that writes schema " ++ defaultSchema))

end Covenant.Contract

namespace Covenant

structure BuildInfo where
  commit : String := "dev"
  builtAt : String := "unknown"
  version : String := "dev"
  compiler : String := ""
  platform : String := ""

namespace BuildInfo

def shortCommit (b : BuildInfo) : String := Text.ofOctets ((Text.toOctets b.commit).take 7)

def summary (b : BuildInfo) : String :=
  "contractgen " ++ b.version ++ " (commit " ++ b.shortCommit ++ ", built " ++ b.builtAt ++ ")"

def report (b : BuildInfo) : String :=
  b.summary ++ "\nPlatform: " ++ b.platform ++ "\nGo: " ++ b.compiler ++ "\nIR schema: " ++
    Contract.supportedSchema ++ "\n"

end BuildInfo

end Covenant
