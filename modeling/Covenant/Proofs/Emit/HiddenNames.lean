import Mathlib.Logic.Function.Basic
import Covenant.Proofs.Emit.RoundTrip

/-!
# Codecs round-trip, but for hidden names

A value that is written and read again is the same value, in both languages, if no name that the reading expression
looks up is hidden.  This is all that it takes: for a type with a hidden name there is a runtime with a value that is
not read back, which is made of samples that lead to the name.
-/

namespace Covenant.Emit

open Binding (Binder Bound Occurrence Scope)
open Contract (TypeRef)
open Naming (Entry)
open List

/-- JSON values with one part at most. -/
inductive Sample where
  | flag
  | number
  | text
  | nothing
  | bare
  | list (part : Sample)
  | field (name : String) (part : Sample)

namespace Sample

/-- All numbers are one, and so are instants and members; an instance holds a value of one type argument at most. -/
abbrev domain : Domain := { Number := Unit, Instant := Unit, Member := Unit, Instance := Option (Nat × Sample) }

variable {l : Language} {t : Bound}

def json (l : Language) : Sample → Value domain
  | flag => .bool true
  | number => .number ()
  | text => .text ""
  | nothing => .list []
  | bare => .record l []
  | list part => .list [part.json l]
  | field name part => .record l [(name, part.json l)]

/-- The fields of an instance: their name tells which of its type arguments it has a value of. -/
def fields (l : Language) : Option (Nat × Sample) → List (String × Value domain)
  | none => []
  | some (i, s) => [(String.ofList (replicate i ' '), s.json l)]

/-- Whether the value that an instance holds is read by the decoder of its type argument. -/
def isRead (l : Language) (decoders : List (Value domain → Option (Value domain))) : Option (Nat × Sample) → Bool
  | none => true
  | some (i, s) => (decoders[i]?.bind fun decoder => decoder (s.json l)).isSome

def base (l : Language) : Runtime domain where
  IsInteger _ := True
  IsDouble _ := True
  toInteger := id
  toDouble := id
  numberText _ := ""
  readInteger _ := some ()
  readDouble _ := some ()
  instantText _ := ""
  readInstant _ := some ()
  IsMember _ _ := True
  memberNumber := id
  readMember _ _ := some ()
  IsInstance _ _ _ := False
  instanceFields := fields l
  readInstance _ _ _ := none
  IsArgument _ v := v = .bool true
  readArgument _ := some
  properties := id

/-- An instance may have any class, with a value that is written as its sample. -/
noncomputable def runtime (l : Language) : Runtime domain :=
  { base l with
    IsInstance := fun _ types c => ∀ i s, c = some (i, s) →
      ∃ type v, types[i]? = some type ∧ type v ∧ (base l).anyJson l v = some (s.json l)
    readInstance := fun _ given decoders => (Function.partialInv (fields l) given).filter (isRead l decoders) }

/-- A value of the type that is written as the sample. -/
def Shows (l : Language) (s : Sample) (t : Bound) (v : Value domain) : Prop :=
  (runtime l).HasType t v ∧ (base l).anyJson l v = some (s.json l)

variable {s : Sample} {v : Value domain} {hidden : String → Bool} {src : Expr} {depth : Nat}

private theorem exists_key {key value : Bound} {occ : Occurrence} (hcodable : Codable (.map occ key value)) :
    ∃ k, (runtime l).HasType key k ∧ (base l).anyKey k = some "" := by
  have hkey := hcodable.key.1
  cases key with
  | enum => exact ⟨.member (), .inr ⟨_, rfl, trivial⟩, rfl⟩
  | primitive occ category target =>
    cases category with
    | integer | double => exact ⟨.number (), .inr ⟨_, rfl, trivial⟩, rfl⟩
    | string => exact ⟨.text "", .inr ⟨_, rfl⟩, rfl⟩
    | datetime => exact ⟨.instant (), .inr ⟨_, rfl⟩, rfl⟩
    | boolean | dynamic => simp [Bound.isKey] at hkey
  | _ => simp [Bound.isKey] at hkey

private theorem Shows.entry {key value : Bound} {occ : Occurrence} (hcodable : Codable (.map occ key value))
    (h : Shows l s value v) : ∃ k, Shows l (.field "" s) (.map occ key value) (.map [(k, v)]) := by
  obtain ⟨k, hk, htext⟩ := exists_key hcodable
  refine ⟨k, .inr ⟨_, rfl, by simp, forall_mem_singleton.2 ⟨hk, h.1⟩⟩, ?_⟩
  simp [Runtime.anyJson, Runtime.anyJsonEntries, htext, h.2, collect, put, json]

end Sample

namespace Archive

/-- Numbers, instants and members of enumerations are natural numbers.  The only class is a page of instants, some of
which may be missing. -/
abbrev domain : Domain := { Number := Nat, Instant := Nat, Member := Nat, Instance := List (Option Nat) }

def itemValue : Option Nat → Value domain
  | none => .null
  | some i => .instant i

def itemJson : Option Nat → Value domain
  | none => .null
  | some i => .text (toString i)

def readItem : Value domain → Option (Option Nat)
  | .null => some none
  | .instant i => some (some i)
  | _ => none

def readNumber (s : String) : Option Nat :=
  if s.toList.all Char.isDigit && !s.isEmpty then some (Nat.ofDigitChars 10 s.toList 0) else none

def index? (name : String) : Option Nat := (readNumber name).filter fun n => toString n == name

/-- Properties that are indices come first, in their order, and the others follow in the order in which they were
put. -/
def properties (fields : List (String × Value domain)) : List (String × Value domain) :=
  ((fields.filter fun p => (index? p.1).isSome).mergeSort fun p q => (index? p.1).getD 0 ≤ (index? q.1).getD 0) ++
    fields.filter fun p => !(index? p.1).isSome

def runtime : Runtime domain where
  IsInteger _ := True
  IsDouble _ := True
  toInteger := id
  toDouble := id
  numberText n := toString (n : Nat)
  readInteger := readNumber
  readDouble := readNumber
  instantText i := toString (i : Nat)
  readInstant := readNumber
  IsMember _ _ := True
  memberNumber m := m
  readMember _ n := some n
  IsInstance cls types c := cls = "Page" ∧ ∃ type, types = [type] ∧ ∀ item ∈ c, type (itemValue item)
  instanceFields c := [("Items", .list (c.map itemJson))]
  readInstance cls fields decoders :=
    match decoders, fields.lookup "Items" with
    | [decoder], some (.list items) => if cls = "Page" then (items.mapM decoder).bind (·.mapM readItem) else none
    | _, _ => none
  IsArgument _ v := ∃ n, v = .number n
  readArgument _ v := some v
  properties := properties

def box : Entry :=
  { name := "Box", qualified := "Box", ns := "", path := "Box"
    decl := .enum { name := "Box" } [some { name := "Left", value := 1 }, some { name := "Right", value := 2 }] }

def page : Entry :=
  { name := "Page", qualified := "Page", ns := "", path := "Page"
    decl := .type { name := "Page" }
      { typeParameters := [some { name := "T" }]
        fields := [some { name := "Items", type := some (.mk { isList := true } [some (.named "T")]) }] } [] }

def binder : Binder :=
  { table := { policy := Dart.policy, entries := [box, page], resolved := [page, box] }
    types := { targets := Dart.targets, overrides := [] } }

/-- A page with one instant and one missing in the right box, and nothing in the left one. -/
def contents : Value domain :=
  .map [(.member (2 : Nat), .list [.made [some 1709209800, none]]), (.member (1 : Nat), .list [])]

end Archive

end Covenant.Emit
