import Covenant.Proofs.Extract.Conversion

/-!
# Constraints of type parameters

What a constraint states is the name that it is, or the names that it embeds, apart from `comparable` and `any`, which
ask nothing of a type on the wire.  `terms` lists what is converted instead: it drops a constraint that is predeclared
or met by all types, and keeps everything else.
-/

namespace Covenant.Extract.Site

open Contract Source Extraction
open List

variable {w : World} {t : SourceType}

/-- A type, not an alias, that is `comparable` or asks for nothing. -/
def isFree : SourceType → Bool
  | .named name _ => name == comparableName
  | .interface methods embedded => methods.isEmpty && embedded.isEmpty
  | _ => false

/-- What a constraint is or embeds, without what is free. -/
def stated (w : World) (t : SourceType) : List SourceType :=
  match w.unalias t with
  | .named name arguments => if name = comparableName then [] else [.named name arguments]
  | bare => (constraintTerms w bare).filter fun u => !isFree (w.unalias u)

/-- The constraint is no predeclared name but `comparable`, and embeds only what is free if all types meet it, and
nothing that is free if not. -/
def IsPlain (w : World) (t : SourceType) : Prop :=
  match w.unalias t with
  | .named name _ => name.home = none → name = comparableName
  | bare => ∀ u ∈ constraintTerms w bare, isFree (w.unalias u) = w.admitsAll bare

/-- The elements without a property are all of them, or none, if and only if their number says so. -/
private theorem length_filter_iff {α : Type} (all : Bool) (p : α → Bool) (as : List α) :
    ((∀ a ∈ as, p a = all) ↔ (if all then [] else as).length = (as.filter (!p ·)).length) ∧
      ((∀ a ∈ as, p a = all) → (if all then [] else as) = as.filter (!p ·)) := by
  cases all with
  | true =>
    have hnil : as.filter (!p ·) = [] ↔ ∀ a ∈ as, p a = true := by simp
    rw [← hnil, if_pos rfl]
    exact ⟨length_eq_zero_iff.symm.trans eq_comm, Eq.symm⟩
  | false =>
    have hself : as.filter (!p ·) = as ↔ ∀ a ∈ as, p a = false := by simp
    rw [← hself, if_neg Bool.false_ne_true]
    exact ⟨⟨fun h => by rw [h], fun h => filter_sublist.eq_of_length h.symm⟩, Eq.symm⟩

/-- What is converted is what is stated if their numbers are the same. -/
theorem isPlain_iff : (IsPlain w t ↔ (terms w t).length = (stated w t).length) ∧
    (IsPlain w t → terms w t = stated w t) := by
  unfold IsPlain terms stated
  generalize w.unalias t = u
  cases u with
  | named name arguments =>
    by_cases hcomparable : name = comparableName
    · subst hcomparable
      simp [comparableName]
    · cases hhome : name.home <;> simp [hcomparable, hhome]
  | _ => exact length_filter_iff _ _ _

/-- A plain constraint becomes exactly the references to what it states, one for each in order, and fails only if one
of them does.  If all that a constraint states has references, it becomes these exactly if it is plain. -/
theorem constraints_stated_iff (s : Site) (t : SourceType) :
    (IsPlain s.world t → s.constraints t = (stated s.world t).mapM (s.base .inexpressible)) ∧
    ∀ refs, Forall₂ (fun u r => (s.base .inexpressible u).Gives r) (stated s.world t) refs →
      ((s.constraints t).Gives refs ↔ IsPlain s.world t) := by
  have hplain (h : IsPlain s.world t) : s.constraints t = (stated s.world t).mapM (s.base .inexpressible) := by
    rw [constraints, isPlain_iff.2 h]
  refine ⟨hplain, fun refs hrefs => ⟨fun h => isPlain_iff.1.2 ?_, fun h => ?_⟩⟩
  · rw [(gives_mapM.1 h).length_eq, hrefs.length_eq]
  · rw [hplain h]
    exact gives_mapM.2 hrefs

def keyed : SourceType := .named { home := some "app", name := "Keyed" } []

def sized : SourceType := .named { home := some "app", name := "Sized" } []

/-- A package with two interfaces that ask for a method each. -/
def lockers : Package :=
  { path := "app"
    groups := [{ specs := [{ name := "Keyed", definition := .interface [("Key", .function [] [] false)] [] },
      { name := "Sized", definition := .interface [("Size", .function [] [] false)] [] }] }] }

def lockersSite : Site := { world := { packages := [lockers] }, options := {} }

/-- The names in a literal interface are the only references, in their order. -/
theorem sized_before_keyed : Forall₂ (fun u r => (lockersSite.base .inexpressible u).Gives r)
      (stated lockersSite.world (.interface [] [sized, keyed])) [.named "Sized", .named "Keyed"] ∧
    (lockersSite.constraints (.interface [] [sized, keyed])).Gives [.named "Sized", .named "Keyed"] := by
  have hrefs : Forall₂ (fun u r => (lockersSite.base .inexpressible u).Gives r)
      (stated lockersSite.world (.interface [] [sized, keyed])) [.named "Sized", .named "Keyed"] :=
    .cons rfl (.cons rfl .nil)
  refine ⟨hrefs, ((constraints_stated_iff _ _).2 _ hrefs).2 ?_⟩
  exact forall_mem_cons.2 ⟨rfl, forall_mem_singleton.2 rfl⟩

/-- A predeclared name and the interface, both embedded. -/
def beside (name : String) : SourceType := .interface [] [.named { home := none, name } [], keyed]

/-- Beside the name, `comparable` becomes a reference and `any` makes the constraint fail. -/
theorem keyed_beside_free :
    stated lockersSite.world (beside "comparable") = [keyed] ∧ stated lockersSite.world (beside "any") = [keyed] ∧
    (lockersSite.constraints (beside "comparable")).Gives [.named "comparable", .named "Keyed"] ∧
    ¬∃ refs, (lockersSite.constraints (beside "any")).Gives refs := by
  refine ⟨rfl, rfl, rfl, ?_⟩
  rintro ⟨refs, h⟩
  cases h

end Covenant.Extract.Site
