import Covenant.Failure
import Covenant.Source.Package

/-!
# Directives and field tags

A line of the comment above a type that starts with `contract:` is a directive.  Directives say that a type is a
command, a query or an operation, give it aliases, exclude it, or make it the error codes of another type.  A tag is a
sequence of keys with quoted values; the value under `json` says how a field is called on the wire.
-/

namespace Covenant.Source

open Contract (Kind)

structure Directives where
  kind : Kind := .plain
  result : String := ""
  aliases : List String := []
  isExcluded : Bool := false
  errorsOf : Option String := none
  deriving DecidableEq

inductive DirectiveDefect where
  | twoKinds (first second : Kind)
  | argument (text : String)
  | noAlias
  | noOwner
  | unknown (verb : String)

def DirectiveDefect.toFailure : DirectiveDefect → Failure
  | twoKinds first second => .malformed ("both contract:" ++ first.name ++ " and contract:" ++ second.name)
  | argument text =>
    (Failure.malformed ("contract:command takes no argument, got " ++ Text.quoted text)).withHint
      "commands have no result; use contract:operation for calls that return a value"
  | noAlias => .malformed "contract:alias needs a path"
  | noOwner => .malformed "contract:errors needs the name of the owning type"
  | unknown verb =>
    (Failure.malformed ("unknown directive contract:" ++ verb)).withHint
      "known directives: command, query, operation, alias, exclude, errors"

def directive? (line : String) : Option (String × String) :=
  let text := Text.trim (Text.trimStart "//" line)
  if Text.hasPrefix "contract:" text then
    let body := Text.trimStart "contract:" text
    match Text.cut " " body with
    | some (verb, argument) => some (verb, Text.trim argument)
    | none => some (body, "")
  else none

namespace Directives

def add (d : Directives) (verb argument : String) : Except DirectiveDefect Directives :=
  let remote (kind : Kind) : Except DirectiveDefect Directives :=
    if d.kind != .plain && d.kind != kind then .error (.twoKinds d.kind kind)
    else if kind.hasResult then .ok { d with kind, result := argument }
    else if argument.isEmpty then .ok { d with kind }
    else .error (.argument argument)
  match verb with
  | "command" => remote .command
  | "query" => remote .query
  | "operation" => remote .operation
  | "alias" => if argument.isEmpty then .error .noAlias else .ok { d with aliases := d.aliases ++ [argument] }
  | "exclude" => .ok { d with isExcluded := true }
  | "errors" => if argument.isEmpty then .error .noOwner else .ok { d with errorsOf := some argument }
  | _ => .error (.unknown verb)

def ofLines (lines : List String) : Except DirectiveDefect (Option Directives) :=
  match lines.filterMap directive? with
  | [] => .ok none
  | found => some <$> found.foldlM (fun d (verb, argument) => d.add verb argument) {}

end Directives

def TypeGroup.docOf (g : TypeGroup) (s : TypeSpec) : Option (List String) :=
  if s.doc.isNone && g.specs.length == 1 then g.doc else s.doc

def Package.directives (p : Package) : Except Failure (List (String × Directives)) :=
  let documented := p.groups.flatMap fun g => g.specs.filterMap fun s => (g.docOf s).map fun lines => (s.name, lines)
  documented.foldlM (fun known (name, lines) =>
    match Directives.ofLines lines with
    | .error defect => .error (defect.toFailure.within ("type " ++ name))
    | .ok none => .ok known
    | .ok (some d) => .ok ((name, d) :: known)) []

def quotedSpan : List Char → Option (List Char × List Char)
  | [] => none
  | '"' :: rest => some ([], rest)
  | '\\' :: c :: rest => (quotedSpan rest).map fun (value, after) => ('\\' :: c :: value, after)
  | c :: rest => (quotedSpan rest).map fun (value, after) => (c :: value, after)

def isKeyChar (c : Char) : Bool := c.toNat > 32 && c != ':' && c != '"' && c.toNat != 0x7f

def tagValueBy (key : List Char) : Nat → List Char → Option String
  | 0, _ => none
  | fuel + 1, tag =>
    let tag := tag.dropWhile (· == ' ')
    let name := tag.takeWhile isKeyChar
    match tag.dropWhile isKeyChar with
    | ':' :: '"' :: rest =>
      if name.isEmpty then none
      else match quotedSpan rest with
        | none => none
        | some (value, after) => if name == key then Text.unquoted? '"' value else tagValueBy key fuel after
    | _ => none

def tagValue? (key tag : String) : Option String := tagValueBy key.toList (tag.length + 1) tag.toList

inductive WireName where
  | hidden
  | shown (name : Option String)

def wireName (tag : String) : WireName :=
  match tagValue? "json" tag with
  | none => .shown none
  | some value =>
    if value == "-" then .hidden
    else match (Text.split ',' value).headD "" with
      | "" => .shown none
      | name => .shown (some name)

end Covenant.Source
