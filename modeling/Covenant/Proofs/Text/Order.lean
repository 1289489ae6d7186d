import Mathlib.Data.List.Sort
import Mathlib.Data.String.Basic
import Covenant.Text.Basic

/-!
# Sorted lists

`sortBy` is insertion sort.  Everything in the library is sorted by texts, the keys of its elements.
-/

namespace Covenant.Text

open List

variable {α β : Type} {l l' : List String}

theorem sortBy_eq_insertionSort (le : α → α → Bool) (l : List α) :
    sortBy le l = l.insertionSort fun a b => le a b = true := by
  have hinsert : ∀ (a : α) (l : List α), insertBy le a l = l.orderedInsert (fun a b => le a b = true) a := by
    intro a l
    induction l with
    | nil => rfl
    | cons b l ih => rw [insertBy, orderedInsert_cons, ih]
  induction l with
  | nil => rfl
  | cons a l ih => rw [sortBy, insertionSort_cons, ih, hinsert]

theorem perm_sortBy (le : α → α → Bool) (l : List α) : (sortBy le l).Perm l := by
  rw [sortBy_eq_insertionSort]
  exact perm_insertionSort _ l

theorem mem_sortBy {le : α → α → Bool} {l : List α} {a : α} : a ∈ sortBy le l ↔ a ∈ l := (perm_sortBy le l).mem_iff

@[simp] theorem before_eq_true {a b : String} : before a b = true ↔ a ≤ b := by simp [before]

section Keys

variable (key : α → String)

theorem pairwise_sortBy_key (l : List α) :
    (sortBy (fun a b => before (key a) (key b)) l).Pairwise fun a b => key a ≤ key b := by
  have htotal : Std.Total fun a b => before (key a) (key b) = true :=
    ⟨fun a b => by simpa using le_total (key a) (key b)⟩
  have htrans : IsTrans α fun a b => before (key a) (key b) = true :=
    ⟨fun a b c => by simpa using le_trans (a := key a)⟩
  rw [sortBy_eq_insertionSort]
  exact (pairwise_insertionSort _ l).imp fun h => by simpa using h

theorem pairwise_lt_sortBy_key {l : List α} (hl : (l.map key).Nodup) :
    (sortBy (fun a b => before (key a) (key b)) l).Pairwise fun a b => key a < key b := by
  have hnodup : ((sortBy (fun a b => before (key a) (key b)) l).map key).Nodup :=
    ((perm_sortBy _ l).map key).nodup_iff.2 hl
  have hne := pairwise_map.1 hnodup
  exact (pairwise_sortBy_key key l).imp₂ (fun _ _ hle hne => lt_of_le_of_ne hle hne) hne

/-- With distinct keys, sorting forgets the order. -/
theorem sortBy_key_eq_of_perm {l l' : List α} (h : l.Perm l') (hl : (l.map key).Nodup) :
    sortBy (fun a b => before (key a) (key b)) l = sortBy (fun a b => before (key a) (key b)) l' := by
  refine Perm.eq_of_pairwise ?_ (pairwise_sortBy_key key l) (pairwise_sortBy_key key l')
    ((perm_sortBy _ l).trans (h.trans (perm_sortBy _ l').symm))
  intro a b ha hb hab hba
  exact inj_on_of_nodup_map hl (mem_sortBy.1 ha) (h.mem_iff.2 (mem_sortBy.1 hb)) (le_antisymm hab hba)

theorem map_sortBy_key (key' : β → String) (f : α → β) (hf : ∀ a, key' (f a) = key a) (l : List α) :
    (sortBy (fun a b => before (key a) (key b)) l).map f =
      sortBy (fun a b => before (key' a) (key' b)) (l.map f) := by
  rw [sortBy_eq_insertionSort, sortBy_eq_insertionSort]
  refine map_insertionSort _ _ f l fun a _ b _ => ?_
  rw [hf, hf]

end Keys

theorem sorted_eq_of_perm (h : l.Perm l') : sorted l = sorted l' :=
  Perm.eq_of_pairwise (fun _ _ _ _ => le_antisymm) (pairwise_sortBy_key id l) (pairwise_sortBy_key id l')
    ((perm_sortBy _ l).trans (h.trans (perm_sortBy _ l').symm))

private theorem nodup_eraseDups (l : List String) : l.eraseDups.Nodup := by
  induction hn : l.length using Nat.strong_induction_on generalizing l with
  | _ n ih =>
    cases l with
    | nil => simp
    | cons a l =>
      rw [eraseDups_cons, nodup_cons, mem_eraseDups]
      refine ⟨by simp, ih _ ?_ _ rfl⟩
      have := length_filter_le (fun b => !b == a) l
      simp only [length_cons] at hn
      omega

theorem nodup_sortedSet (l : List String) : (sortedSet l).Nodup :=
  (perm_sortBy _ _).nodup_iff.2 (nodup_eraseDups l)

theorem pairwise_lt_sortedSet (l : List String) : (sortedSet l).Pairwise (· < ·) :=
  pairwise_lt_sortBy_key id (by simpa using nodup_eraseDups l)

theorem sortedSet_congr (h : ∀ a, a ∈ l ↔ a ∈ l') : sortedSet l = sortedSet l' := by
  refine sorted_eq_of_perm ((perm_ext_iff_of_nodup (nodup_eraseDups l) (nodup_eraseDups l')).2 fun a => ?_)
  rw [mem_eraseDups, mem_eraseDups, h]

theorem sortedSet_eq_of_perm (h : l.Perm l') : sortedSet l = sortedSet l' :=
  sortedSet_congr fun _ => h.mem_iff

theorem mem_sortedSet {l : List String} {a : String} : a ∈ sortedSet l ↔ a ∈ l := by
  rw [sortedSet, sorted, mem_sortBy, mem_eraseDups]

theorem pair_sublist_iff {names : List String} (h : names.Pairwise (· < ·)) {a b : String} (ha : a ∈ names)
    (hb : b ∈ names) : [a, b].Sublist names ↔ a < b := by
  constructor
  · intro hsub
    exact rel_of_pairwise_cons (h.sublist hsub) (.head _)
  · intro hlt
    induction names with
    | nil => cases ha
    | cons name names ih =>
      obtain ⟨hfirst, hrest⟩ := pairwise_cons.1 h
      rcases mem_cons.1 ha with rfl | ha'
      · have hb' : b ∈ names := (mem_cons.1 hb).resolve_left hlt.ne'
        exact (singleton_sublist.2 hb').cons_cons a
      · rcases mem_cons.1 hb with rfl | hb'
        · exact absurd hlt (hfirst a ha').not_gt
        · exact (ih hrest ha' hb').cons name

section Lookup

variable {κ : Type} [BEq κ] [LawfulBEq κ] {l : List (κ × α)}

theorem lookup_eq_none_iff {k : κ} : l.lookup k = none ↔ k ∉ l.map (·.1) := by
  simp only [List.lookup_eq_none_iff, bne_iff_ne, mem_map, not_exists, not_and]
  exact forall₂_congr fun p _ => ne_comm

theorem mem_of_lookup {k : κ} {a : α} (h : l.lookup k = some a) : (k, a) ∈ l := by
  obtain ⟨l₁, l₂, rfl, -⟩ := List.lookup_eq_some_iff.1 h
  simp

/-- With distinct keys, an element is found by its key. -/
theorem lookup_of_mem {k : κ} {a : α} (hl : (l.map (·.1)).Nodup) (h : (k, a) ∈ l) : l.lookup k = some a := by
  obtain ⟨l₁, l₂, rfl⟩ := append_of_mem h
  refine List.lookup_eq_some_iff.2 ⟨l₁, l₂, rfl, fun p hp => bne_iff_ne.2 fun hk => ?_⟩
  rw [map_append, nodup_append] at hl
  exact hl.2.2 _ (mem_map_of_mem hp) k (.head _) hk.symm

theorem lookup_filter_key (P : κ → Bool) (l : List (κ × α)) (k : κ) :
    (l.filter fun a => P a.1).lookup k = if P k then l.lookup k else none := by
  induction l with
  | nil => simp
  | cons a l ih =>
    obtain ⟨k', x⟩ := a
    rcases eq_or_ne k k' with rfl | hk
    · cases hP : P k <;> simp [hP, ih]
    · cases hP : P k' <;> simp [lookup_cons, hP, beq_eq_false_iff_ne.2 hk, ih]

end Lookup

section Find

variable {key : α → String}

theorem find?_key_eq_some {l : List α} (hl : (l.map key).Nodup) {k : String} {a : α} :
    l.find? (fun x => key x == k) = some a ↔ a ∈ l ∧ key a = k := by
  constructor
  · intro h
    exact ⟨mem_of_find?_eq_some h, by simpa using find?_some h⟩
  · rintro ⟨ha, rfl⟩
    induction l with
    | nil => cases ha
    | cons b l ih =>
      rw [map_cons, nodup_cons] at hl
      rcases mem_cons.1 ha with rfl | ha
      · simp
      · have hb : key b ≠ key a := fun hb => hl.1 (hb ▸ mem_map_of_mem ha)
        rw [find?_cons_of_neg (by simpa using hb)]
        exact ih hl.2 ha

theorem find?_key_perm {l l' : List α} (h : l.Perm l') (hl : (l.map key).Nodup) (k : String) :
    l.find? (fun x => key x == k) = l'.find? (fun x => key x == k) := by
  have hl' : (l'.map key).Nodup := (h.map key).nodup_iff.1 hl
  ext a
  rw [find?_key_eq_some hl, find?_key_eq_some hl', h.mem_iff]

end Find

end Covenant.Text
