import Covenant.Text.Basic

/-!
# Line edits

Scripts that change a text line by line: they substitute what a pattern matches or delete lines.
-/

namespace Covenant.Tool

inductive Atom where
  | any
  | char (c : Char)
  | set (negated : Bool) (ranges : List (Char × Char))

def Atom.accepts : Atom → Char → Bool
  | any, _ => true
  | char c, d => c == d
  | set negated ranges, d => negated != ranges.any fun (a, b) => a ≤ d && d ≤ b

structure Piece where
  atom : Atom
  starred : Bool := false

structure Pattern where
  atStart : Bool := false
  atEnd : Bool := false
  pieces : List Piece := []
  foldsCase : Bool := false

def readSet (done : List (Char × Char)) : List Char → Option (List (Char × Char) × List Char)
  | [] => none
  | ']' :: cs => if done.isEmpty then readSet [(']', ']')] cs else some (done, cs)
  | a :: '-' :: b :: cs => if b == ']' then some (done ++ [(a, a), ('-', '-')], cs) else readSet (done ++ [(a, b)]) cs
  | a :: cs => readSet (done ++ [(a, a)]) cs
termination_by cs => cs.length

def readPieces : Nat → List Char → Option (List Piece × Bool)
  | 0, _ => none
  | _, [] => some ([], false)
  | _, ['$'] => some ([], true)
  | fuel + 1, c :: cs => do
    let (atom, rest) ← match c, cs with
      | '\\', d :: rest =>
        if d == '(' || d == ')' || d == '\x7b' || d.isAlphanum then none else some (Atom.char d, rest)
      | '.', _ => some (.any, cs)
      | '[', '^' :: rest => (readSet [] rest).map fun (ranges, rest) => (.set true ranges, rest)
      | '[', _ => (readSet [] cs).map fun (ranges, rest) => (.set false ranges, rest)
      | _, _ => some (.char c, cs)
    match rest with
    | '*' :: rest =>
      let (pieces, atEnd) ← readPieces fuel rest
      return (⟨atom, true⟩ :: pieces, atEnd)
    | _ =>
      let (pieces, atEnd) ← readPieces fuel rest
      return (⟨atom, false⟩ :: pieces, atEnd)

def Pattern.read? (foldsCase : Bool) (cs : List Char) : Option Pattern := do
  let (atStart, body) := match cs with
    | '^' :: rest => (true, rest)
    | _ => (false, cs)
  let (pieces, atEnd) ← readPieces (body.length + 1) body
  return { atStart, atEnd, pieces, foldsCase }

def matchPieces (accepts : Atom → Char → Bool) (atEnd : Bool) : List Piece → List Char → Option (List Char)
  | [], cs => if atEnd && !cs.isEmpty then none else some cs
  | ⟨a, false⟩ :: ps, cs =>
    match cs with
    | c :: rest => if accepts a c then matchPieces accepts atEnd ps rest else none
    | [] => none
  | ⟨a, true⟩ :: ps, cs =>
    let count := (cs.takeWhile (accepts a)).length
    (List.range (count + 1)).reverse.findSome? fun n => matchPieces accepts atEnd ps (cs.drop n)

def Pattern.find? (p : Pattern) (cs : List Char) : Option (List Char × List Char × List Char) :=
  let accepts (a : Atom) (c : Char) : Bool :=
    a.accepts c || (p.foldsCase && (a.accepts c.toLower || a.accepts c.toUpper))
  let starts := if p.atStart then [0] else List.range (cs.length + 1)
  starts.findSome? fun n =>
    let here := cs.drop n
    (matchPieces accepts p.atEnd p.pieces here).map fun rest =>
      (cs.take n, here.take (here.length - rest.length), rest)

inductive Address where
  | all | last
  | line (n : Nat)
  | matching (p : Pattern)

inductive Action where
  | delete
  | substitute (p : Pattern) (text : List Char) (everywhere : Bool) (first : Nat)

structure Edit where
  address : Address
  action : Action

def cutAt (divider : Char) : List Char → Option (List Char × List Char)
  | [] => none
  | '\\' :: c :: cs =>
    (cutAt divider cs).map fun (body, rest) => (if c == divider then c :: body else '\\' :: c :: body, rest)
  | c :: cs => if c == divider then some ([], cs) else (cutAt divider cs).map fun (body, rest) => (c :: body, rest)

def readAddress (cs : List Char) : Option (Address × List Char) :=
  match cs with
  | '$' :: rest => some (.last, rest)
  | '/' :: rest => do
    let (body, rest) ← cutAt '/' rest
    return (.matching (← Pattern.read? false body), rest)
  | _ =>
    let digits := cs.takeWhile Char.isDigit
    if digits.isEmpty then some (.all, cs)
    else some (.line ((String.ofList digits).toNat?.getD 0), cs.drop digits.length)

def isDivider (c : Char) : Bool := c == ';' || c == ' ' || c == '\n'

def readEdits : Nat → List Char → Option (List Edit)
  | 0, _ => none
  | fuel + 1, script =>
    match script.dropWhile isDivider with
    | [] => some []
    | cs => do
      let (address, rest) ← readAddress cs
      match rest with
      | 'd' :: rest =>
        if rest.head?.all isDivider then return ⟨address, .delete⟩ :: (← readEdits fuel rest) else none
      | 's' :: divider :: rest =>
        let (body, rest) ← cutAt divider rest
        let (text, rest) ← cutAt divider rest
        let flags := rest.takeWhile (!isDivider ·)
        if flags.all fun c => c.isDigit || c == 'g' || c == 'p' || c == 'i' || c == 'I' then
          let p ← Pattern.read? (flags.contains 'i' || flags.contains 'I') body
          let first := ((String.ofList (flags.filter Char.isDigit)).toNat?.getD 1)
          return ⟨address, .substitute p text (flags.contains 'g') first⟩ ::
            (← readEdits fuel (rest.drop flags.length))
        else none
      | _ => none

def substituted (found : List Char) : List Char → List Char
  | [] => []
  | '\\' :: 'n' :: cs => '\n' :: substituted found cs
  | '\\' :: c :: cs => c :: substituted found cs
  | '&' :: cs => found ++ substituted found cs
  | c :: cs => c :: substituted found cs

def substitute (p : Pattern) (text : List Char) (everywhere : Bool) : Nat → Nat → List Char → List Char
  | 0, _, cs => cs
  | fuel + 1, skip, cs =>
    match p.find? cs with
    | none => cs
    | some (before, found, after) =>
      let new := if skip = 0 then substituted found text else found
      let isDone := p.atStart || (skip = 0 && !everywhere)
      match isDone, found, after with
      | true, _, _ => before ++ new ++ after
      | false, [], [] => before ++ new
      | false, [], c :: rest => before ++ new ++ c :: substitute p text everywhere fuel (skip - 1) rest
      | false, _, _ => before ++ new ++ substitute p text everywhere fuel (skip - 1) after

def Edit.appliesTo (e : Edit) (n : Nat) (isLast : Bool) (line : List Char) : Bool :=
  match e.address with
  | .all => true
  | .last => isLast
  | .line m => m == n
  | .matching p => (p.find? line).isSome

def editLine (edits : List Edit) (n : Nat) (isLast : Bool) (line : List Char) : Option (List Char) :=
  edits.foldlM (fun line e =>
    if e.appliesTo n isLast line then
      match e.action with
      | .delete => none
      | .substitute p text everywhere first => some (substitute p text everywhere (line.length + 1) (first - 1) line)
    else some line) line

def editText (edits : List Edit) (text : String) : String :=
  let lines := Text.splitChars '\n' text.toList
  let isClosed := lines.getLast? == some []
  let body := if isClosed then lines.dropLast else lines
  let edited := body.mapIdx fun i line => editLine edits (i + 1) (i + 1 == body.length) line
  let isLastKept := (edited.getLast?.join).isSome
  String.join ((edited.filterMap id).map fun line => String.ofList line ++ "\n") |> fun s =>
    if isClosed || !isLastKept then s else Text.trimStop "\n" s

end Covenant.Tool
