import Covenant.Source.Package

/-!
# Type sets and members

A member of a type is a field of its record or a method of its interface, or a member of a type that is embedded in
the record.  Of members with one name the one that is embedded least deeply counts; there may be only one such.  Two
interfaces are the same type if they stand for the same set of types.
-/

namespace Covenant.Source

abbrev Term := Bool × SourceType

structure Method where
  name : String
  type : SourceType
  home : Option String

structure TypeSet where
  methods : List Method := []
  isComparable : Bool := false
  terms : Option (List Term) := none

namespace TypeSet

def isMethodSet (s : TypeSet) : Bool := !s.isComparable && s.terms.isNone

def isAll (s : TypeSet) : Bool := s.isMethodSet && s.methods.isEmpty

def isEmpty (s : TypeSet) : Bool := s.terms matches some []

end TypeSet

namespace World

def structureBy (w : World) : Nat → Option String → SourceType → Option String × SourceType
  | fuel + 1, home, .named name arguments =>
    match w.spec? name with
    | some s => w.structureBy fuel name.home (s.definitionAt arguments)
    | none => (home, .named name arguments)
  | fuel + 1, home, .parameter name serial =>
    match w.bound? serial with
    | some t =>
      let (home, u) := w.structureBy fuel home t
      (home, asked u t)
    | none => (home, .parameter name serial)
  | _, home, t => (home, t)

variable (w : World)

def structure_ (home : Option String) (t : SourceType) : Option String × SourceType :=
  w.structureBy (w.extent + 1) home t

def disjoint (identical : SourceType → SourceType → Bool) (x y : Term) : Bool :=
  !identical (if y.1 then w.underlying x.2 else x.2) (if x.1 then w.underlying y.2 else y.2)

def mergedBy (w : World) (identical : SourceType → SourceType → Bool) : Nat → List Term → List Term
  | fuel + 1, x :: rest =>
    let (x, rest) := rest.foldl (fun (x, kept) y =>
      if w.disjoint identical x y then (x, kept ++ [y]) else (if x.1 || !y.1 then x else y, kept)) (x, [])
    x :: w.mergedBy identical fuel rest
  | _, _ => []

def merged (identical : SourceType → SourceType → Bool) (ts : List Term) : List Term :=
  w.mergedBy identical ts.length ts

def commonTerms (identical : SourceType → SourceType → Bool) :
    Option (List Term) → Option (List Term) → Option (List Term)
  | none, ts | ts, none => ts
  | some xs, some ys =>
    let common := xs.flatMap fun x => ys.filterMap fun y =>
      if w.disjoint identical x y then none else some (if !x.1 || y.1 then x else y)
    some (w.merged identical common)

def isWithin (identical : SourceType → SourceType → Bool) (x y : Term) : Bool :=
  !w.disjoint identical x y && (!x.1 || y.1)

def areWithin (identical : SourceType → SourceType → Bool) : Option (List Term) → Option (List Term) → Bool
  | _, none => true
  | none, some _ => false
  | some xs, some ys => xs.all fun x => ys.any (w.isWithin identical x)

def isComparableBy (w : World) (onInterface : SourceType → Bool) : Nat → SourceType → Bool
  | 0, _ => false
  | fuel + 1, t =>
    match w.underlying t with
    | .basic _ | .pointer _ | .channel _ _ => true
    | .interface _ _ => onInterface t
    | .array _ element => w.isComparableBy onInterface fuel element
    | .record fields => fields.all fun (_, type) => w.isComparableBy onInterface fuel type
    | _ => false

mutual
/-- Whether two types are one; tags of fields may be left out of account. -/
def identicalBy (w : World) (withTags : Bool) : Nat → SourceType → SourceType → Bool
  | 0, _, _ => false
  | fuel + 1, a, b =>
    match w.unalias a, w.unalias b with
    | .basic x, .basic y => x.proper == y.proper
    | .pointer x, .pointer y | .slice x, .slice y => w.identicalBy withTags fuel x y
    | .array n x, .array m y => n == m && w.identicalBy withTags fuel x y
    | .map x u, .map y v => w.identicalBy withTags fuel x y && w.identicalBy withTags fuel u v
    | .channel p x, .channel q y => p == q && w.identicalBy withTags fuel x y
    | .function xs us p, .function ys vs q =>
      p == q && xs.length == ys.length && us.length == vs.length &&
        ((xs ++ us).zip (ys ++ vs)).all fun ((_, x), (_, y)) => w.identicalBy withTags fuel x y
    | .record xs, .record ys =>
      xs.length == ys.length && (xs.zip ys).all fun ((g, x), (h, y)) =>
        g.name == h.name && g.isEmbedded == h.isEmbedded && (!withTags || g.tag == h.tag) &&
          w.identicalBy withTags fuel x y
    | .interface ms es, .interface ns fs =>
      let s := w.typeSetBy fuel none (.interface ms es)
      let t := w.typeSetBy fuel none (.interface ns fs)
      let same := w.identicalBy withTags fuel
      s.isComparable == t.isComparable && w.areWithin same s.terms t.terms && w.areWithin same t.terms s.terms &&
        s.methods.length == t.methods.length &&
          (s.methods.zip t.methods).all fun (m, n) => m.name == n.name && same m.type n.type
    | .union xs, .union ys =>
      let same := w.identicalBy withTags fuel
      w.areWithin same (some xs) (some ys) && w.areWithin same (some ys) (some xs)
    | .parameter x m, .parameter y n => x == y && m == n
    | .named x us, .named y vs =>
      x == y && us.length == vs.length && (us.zip vs).all fun (u, v) => w.identicalBy withTags fuel u v
    | _, _ => false

def typeSetBy (w : World) : Nat → Option String → SourceType → TypeSet
  | 0, _, _ => {}
  | fuel + 1, home, t =>
    if w.unalias t matches .named { home := none, name := "comparable", serial := 0 } [] then { isComparable := true }
    else
      let same := w.identicalBy true fuel
      match w.structure_ home t with
      | (home, .interface methods embedded) =>
        let own : List Method := methods.map fun (name, type) => { name, type, home }
        let sets := embedded.map (w.typeSetBy fuel home)
        let terms := (sets.map (·.terms)).foldl (w.commonTerms same) none
        let asks := sets.any (·.isComparable)
        let strict (t : SourceType) : Bool :=
          let s := w.typeSetBy fuel home t
          s.isComparable || s.terms.isSome
        let comparable (t : SourceType) : Bool := w.isComparableBy strict fuel t
        let all := own ++ sets.flatMap (·.methods)
        let distinct := all.foldl (fun ms m => if ms.any (fun n => n.name == m.name) then ms else ms ++ [m]) []
        { methods := Text.sortBy (fun a b => SourceType.methodBefore a.name b.name) distinct
          isComparable := asks && terms.isNone
          terms := if asks then terms.map fun ts => ts.filter fun t => comparable t.2 else terms }
      | (home, .union ts) =>
        let sets := ts.map fun (isOpen, t) =>
          let s := w.typeSetBy fuel home t
          if w.isInterface t then s.terms
          else if isOpen && !same t (w.underlying t) then some []
          else some [(isOpen, t)]
        if sets.any Option.isNone then {}
        else { terms := some (w.merged same (sets.flatMap fun s => s.getD [])) }
      | _ => { terms := some [(false, t)] }
end

def reach (a b : SourceType) : Nat := w.depth a + w.depth b

def identical (a b : SourceType) : Bool := w.identicalBy true (w.reach a b) a b

def identicalButTags (a b : SourceType) : Bool := w.identicalBy false (w.reach a b) a b

def typeSet (home : Option String) (t : SourceType) : TypeSet := w.typeSetBy (2 * w.depth t) home t

def asksComparable (t : SourceType) : Bool :=
  let s := w.typeSet none t
  s.isComparable || s.terms.any fun ts => ts.all fun t => w.isComparableBy (fun _ => true) (w.depth t.2) t.2

def isComparable (t : SourceType) : Bool :=
  w.isComparableBy (fun i => !w.isParameter i || w.asksComparable i) (w.depth t) t

def isStrictlyComparable (t : SourceType) : Bool := w.isComparableBy w.asksComparable (w.depth t) t

def isOf (t : SourceType) (x : Term) : Bool := w.isWithin w.identical (false, t) x

end World

structure Found where
  name : String
  type : SourceType
  home : Option String
  isField : Bool
  isIndirect : Bool

inductive Lookup where
  | found (f : Found)
  | ambiguous
  | missing

namespace Lookup

def found? : Lookup → Option Found
  | found f => some f
  | _ => none

end Lookup

structure Holder where
  type : SourceType
  home : Option String
  isIndirect : Bool
  isRepeated : Bool := false

abbrev MemberTest := Option String → String → Bool

def visibleAs (here : Option String) (name : String) : MemberTest := fun home n =>
  n == name && n != "_" && (isExported n || home == here)

def spelledLike (name : String) : MemberTest := fun _ n => name != "_" && Text.equalFold n name

namespace World

def deref (w : World) (t : SourceType) : SourceType × Bool :=
  match w.unalias t with
  | .pointer target => (target, true)
  | _ => (t, false)

def membersOf (w : World) (test : MemberTest) (h : Holder) : List Found × List Holder :=
  match w.structure_ h.home h.type with
  | (home, .record fields) =>
    let own := fields.filter fun (head, _) => test home head.name
    let before := if own.isEmpty then fields else fields.takeWhile fun (head, _) => !test home head.name
    (own.map fun (head, type) => { name := head.name, type, home, isField := true, isIndirect := h.isIndirect },
      (before.filter fun (head, _) => head.isEmbedded).map fun (_, type) =>
        let (type, isPointer) := w.deref type
        { type, home, isIndirect := h.isIndirect || isPointer, isRepeated := h.isRepeated })
  | (_, .interface _ _) =>
    (((w.typeSet h.home h.type).methods.find? fun m => test m.home m.name).toList.map fun m =>
      { name := m.name, type := m.type, home := m.home, isField := false, isIndirect := h.isIndirect }, [])
  | _ => ([], [])

def consolidated (w : World) (hs : List Holder) : List Holder :=
  hs.foldl (fun kept h =>
    if kept.any fun k => w.identical k.type h.type then
      kept.map fun k => if w.identical k.type h.type then { k with isRepeated := true } else k
    else kept ++ [h]) []

def memberBy (w : World) (test : MemberTest) : Nat → List SourceType → List Holder → Lookup
  | 0, _, _ | _, _, [] => .missing
  | fuel + 1, seen, current =>
    let isNamed (h : Holder) : Bool := w.unalias h.type matches .named _ _
    let fresh := current.filter fun h => !(isNamed h && seen.any (w.identical h.type))
    let parts := fresh.map fun h => (h, w.membersOf test h)
    let hits := parts.flatMap fun (h, own, _) => own.map fun f => (f, h.isRepeated)
    match hits with
    | [(f, false)] => .found f
    | _ :: _ => .ambiguous
    | [] =>
      w.memberBy test fuel (seen ++ (fresh.filter isNamed).map (·.type))
        (w.consolidated (parts.flatMap fun (_, _, next) => next))

def member (w : World) (home : Option String) (test : MemberTest) (t : SourceType) : Lookup :=
  let (target, isIndirect) := w.deref t
  if isIndirect && w.isInterface target then .missing
  else w.memberBy test (w.extent + 2) [] [{ type := target, home, isIndirect }]

def memberOfValue (w : World) (home : Option String) (test : MemberTest) (t : SourceType) : Lookup :=
  match w.unalias t with
  | .named name arguments =>
    match w.underlying (.named name arguments) with
    | .pointer target =>
      match w.member home test (.pointer target) with
      | .found f => if f.isField then .found f else .missing
      | other => other
    | _ => w.member home test t
  | _ => w.member home test t

end World

inductive Misspelling where
  | none
  | spelling
  | unexported
  | inaccessible

/-- How another spelling explains that a name was not found: in one package any will do, of another package only what
could be meant there. -/
def misspelling (here : Option String) (name : String) (other : Option Found) : Misspelling :=
  match other with
  | Option.none => .none
  | some f =>
    let sameTail := f.name.toList.drop 1 == name.toList.drop 1
    if f.home == here then .spelling
    else match isExported name, isExported f.name with
      | true, true => .spelling
      | true, false => if sameTail then .unexported else .none
      | false, true => if sameTail then .spelling else .none
      | false, false => if f.name == name then .inaccessible else .none

def missingText (here : Option String) (type name : String) (other : Option Found) : String :=
  let refusal := "type " ++ type ++ " has no field or method " ++ name
  let what := match other with
    | some f => (if f.isField then "field " else "method ") ++ f.name
    | none => ""
  match misspelling here name other with
  | .none => refusal
  | .spelling => refusal ++ ", but does have " ++ what
  | .unexported => refusal ++ ", but does have unexported " ++ what
  | .inaccessible => "cannot refer to unexported " ++ what

def unknownFieldText (here : Option String) (type name : String) (other : Option Found) : String :=
  let refusal := "unknown field " ++ name ++ " in struct literal of type " ++ type
  let alternative := other.elim "" (·.name)
  match misspelling here name other with
  | .none => refusal
  | .spelling => refusal ++ ", but does have " ++ alternative
  | .unexported => refusal ++ ", but does have unexported " ++ alternative
  | .inaccessible => "cannot refer to unexported field " ++ alternative ++ " in struct literal of type " ++ type

end Covenant.Source
