import Covenant.Compile.Generate
import Covenant.Proofs.Naming.Reordering
import Covenant.Proofs.Text.Charset

/-!
# Groups that cannot be told apart

Top-level declarations that share a short name get segments of their namespaces in front, the same number for the
whole group.  Any two namespaces differ at some depth (`namespaces_eq`), but the segments are put together without
anything between them, so names that differ at one depth can be the same at the next.  Resolution gives up on a group
for want of a depth exactly if at every depth two of its names are the same (`resolve_exhausted_iff`).
-/

namespace Covenant.Naming

open Contract (Program Visit)
open Emit (Language)
open Outcome
open List
open Text

private theorem Policy.identifier_append_inj {p : Policy} (hsuffix : p.escapeSuffix = "_")
    (hreserved : ∀ word ∈ p.reserved, word.toList.getLast? ≠ some '_') {short : String} (hshort : short ≠ "")
    {s t : String} (h : p.identifier (s ++ short) = p.identifier (t ++ short)) : s = t := by
  have hlast : ∀ s : String, (s ++ short).toList.getLast? = short.toList.getLast? := by
    intro s
    have hne : short.toList ≠ [] := by simpa using hshort
    rw [String.toList_append, getLast?_append_of_ne_nil _ hne]
  -- an escaped name ends in an underscore, and so does its short name, but not the reserved word
  have hmixed : ∀ s t : String, s ++ short ∈ p.reserved → s ++ short ++ "_" ≠ t ++ short := by
    intro s t hs heq
    have hend := congrArg (fun u : String => u.toList.getLast?) heq
    simp only [hlast] at hend
    refine hreserved _ hs ?_
    rw [hlast, ← hend, String.toList_append]
    simp
  unfold identifier at h
  rw [hsuffix] at h
  by_cases hs : s ++ short ∈ p.reserved <;> by_cases ht : t ++ short ∈ p.reserved <;> simp [hs, ht] at h
  · exact h
  · exact absurd h (hmixed s t hs)
  · exact absurd h.symm (hmixed t s ht)
  · exact h

namespace Table

variable {p : Policy} {short : String} {group top : List Visit} {taken : List (String × String)} {count depth : Nat}
  {a : Assignment}

/-- The name of a declaration with a number of segments of its namespace in front. -/
def nameAt (p : Policy) (short : String) (depth : Nat) (v : Visit) : String :=
  p.identifier (mangledName (segments v) short depth)

/-- The declarations of a group have different names at a depth. -/
def Apart (p : Policy) (short : String) (group : List Visit) (depth : Nat) : Prop :=
  (group.map (nameAt p short depth)).Nodup

private theorem distinct_eq_true {names : List String} : distinct names = true ↔ names.Nodup := by
  induction names with
  | nil => simp [distinct]
  | cons name names ih => simp [distinct, ih]

private theorem distinct_candidates {depth : Nat} :
    distinct ((sortedByKey (candidates p short group depth)).map (·.2)) = true ↔ Apart p short group depth := by
  have hperm : ((sortedByKey (candidates p short group depth)).map (·.2)).Perm
      (group.map (nameAt p short depth)) := by
    refine ((perm_sortBy _ _).map _).trans (.of_eq ?_)
    rw [candidates, map_map]
    rfl
  rw [distinct_eq_true, hperm.nodup_iff, Apart]

private theorem length_le_maxDepth {v : Visit} (hv : v ∈ group) : (segments v).length ≤ maxDepth group := by
  have hfold :
      ∀ (lengths : List Nat) (n : Nat), n ≤ lengths.foldl max n ∧ ∀ k ∈ lengths, k ≤ lengths.foldl max n := by
    intro lengths
    induction lengths with
    | nil => intro n; simp
    | cons k lengths ih =>
      intro n
      obtain ⟨hstart, hrest⟩ := ih (max n k)
      rw [foldl_cons]
      refine ⟨by omega, fun m hm => ?_⟩
      rcases mem_cons.1 hm with rfl | hm
      · omega
      · exact hrest m hm
  exact (hfold _ 0).2 _ (mem_map_of_mem hv)

theorem exists_le_length {d : Nat} (hd : 1 ≤ d) (hle : d ≤ maxDepth group) :
    ∃ v ∈ group, d ≤ (segments v).length := by
  have hfold : ∀ (lengths : List Nat) (n : Nat), d ≤ lengths.foldl max n → d ≤ n ∨ ∃ k ∈ lengths, d ≤ k := by
    intro lengths
    induction lengths with
    | nil => exact fun n h => .inl h
    | cons k lengths ih =>
      intro n h
      rcases ih (max n k) h with h | ⟨k', hk', h⟩
      · rcases le_max_iff.1 h with h | h
        · exact .inl h
        · exact .inr ⟨k, .head _, h⟩
      · exact .inr ⟨k', .tail k hk', h⟩
  rcases hfold _ 0 hle with h | ⟨k, hk, h⟩
  · omega
  · obtain ⟨v, hv, rfl⟩ := mem_map.1 hk
    exact ⟨v, hv, h⟩

/-- A depth works for a group if it keeps the group apart and all its names are free. -/
def Works (p : Policy) (short : String) (group : List Visit) (taken : List (String × String)) (depth : Nat) : Prop :=
  Apart p short group depth ∧ ∀ v ∈ group, taken.lookup (nameAt p short depth v) = none

private theorem findSome?_taken_eq_none {depth : Nat} :
    ((sortedByKey (candidates p short group depth)).findSome? fun x =>
      (taken.lookup x.2).map (Conflict.taken x.1 x.2)) = none ↔
        ∀ v ∈ group, taken.lookup (nameAt p short depth v) = none := by
  rw [findSome?_eq_none_iff]
  constructor
  · intro h v hv
    have hmem : (v.qualified, nameAt p short depth v) ∈ sortedByKey (candidates p short group depth) :=
      mem_sortBy.2 (mem_map_of_mem hv)
    exact Option.map_eq_none_iff.1 (h _ hmem)
  · intro h x hx
    obtain ⟨v, hv, rfl⟩ := mem_map.1 (mem_sortBy.1 hx)
    exact Option.map_eq_none_iff.2 (h v hv)

variable {clash : Option Conflict} {s : String} {shorts : List String} {c : Conflict} {ids : List String}

theorem exists_first_of_mangleFrom {names : List (String × String)}
    (h : mangleFrom p short group taken count depth clash = .ok names) :
    ∃ d, depth ≤ d ∧ d < depth + count ∧ Works p short group taken d ∧
      (∀ d', depth ≤ d' → d' < d → ¬Works p short group taken d') ∧
      names = sortedByKey (candidates p short group d) := by
  induction count generalizing depth clash with
  | zero => cases h
  | succ count ih =>
    -- the depth that the recursive call finds comes after this one, which does not work
    have hnext : ∀ {clash}, mangleFrom p short group taken count (depth + 1) clash = .ok names →
        ¬Works p short group taken depth → ∃ d, depth ≤ d ∧ d < depth + (count + 1) ∧ Works p short group taken d ∧
          (∀ d', depth ≤ d' → d' < d → ¬Works p short group taken d') ∧
          names = sortedByKey (candidates p short group d) := by
      intro clash h hnot
      obtain ⟨d, hle, hlt, hworks, hfirst, hnames⟩ := ih h
      refine ⟨d, by omega, by omega, hworks, fun d' hd' hlt' => ?_, hnames⟩
      by_cases heq : d' = depth
      · exact heq ▸ hnot
      · exact hfirst d' (by omega) hlt'
    rw [mangleFrom] at h
    dsimp only at h
    split at h
    · rename_i hdistinct
      split at h
      · rename_i hfree
        have hworks := And.intro (distinct_candidates.1 hdistinct) (findSome?_taken_eq_none.1 hfree)
        exact ⟨depth, le_rfl, by omega, hworks, fun d' _ _ => by omega, (Except.ok.inj h).symm⟩
      · rename_i hfound
        refine hnext h fun hworks => ?_
        cases hfound.symm.trans (findSome?_taken_eq_none.2 hworks.2)
    · rename_i hdistinct
      exact hnext h fun hworks => hdistinct (distinct_candidates.2 hworks.1)

/-- The depth that was found, and what it is good for. -/
theorem of_mangleFrom_eq_ok {names : List (String × String)}
    (h : mangleFrom p short group taken count depth clash = .ok names) :
    ∃ d, depth ≤ d ∧ d < depth + count ∧ Apart p short group d ∧
      (∀ v ∈ group, taken.lookup (nameAt p short d v) = none) ∧
      names = sortedByKey (candidates p short group d) := by
  obtain ⟨d, hle, hlt, ⟨hapart, hfree⟩, _, hnames⟩ := exists_first_of_mangleFrom h
  exact ⟨d, hle, hlt, hapart, hfree, hnames⟩

private theorem mangleFrom_eq_exhausted :
    mangleFrom p short group taken count depth clash = .error (.exhausted s ids) ↔
      (∀ d, depth ≤ d → d < depth + count → ¬Apart p short group d) ∧
        clash.getD (.exhausted short (identities group)) = .exhausted s ids := by
  induction count generalizing depth clash with
  | zero =>
    rw [mangleFrom, Except.error.injEq]
    exact ⟨fun h => ⟨fun d _ _ => by omega, h⟩, fun h => h.2⟩
  | succ count ih =>
    -- the depths to try are this one and those of the recursive call
    have hsplit : (∀ d, depth ≤ d → d < depth + (count + 1) → ¬Apart p short group d) ↔
        ¬Apart p short group depth ∧ ∀ d, depth + 1 ≤ d → d < depth + 1 + count → ¬Apart p short group d := by
      constructor
      · intro h
        exact ⟨h depth (by omega) (by omega), fun d hd hlt => h d (by omega) (by omega)⟩
      · rintro ⟨hnow, hlater⟩ d hd hlt
        by_cases heq : d = depth
        · exact heq ▸ hnow
        · exact hlater d (by omega) (by omega)
    rw [mangleFrom, hsplit]
    dsimp only
    by_cases hapart : Apart p short group depth
    · rw [if_pos (distinct_candidates.2 hapart)]
      refine iff_of_false ?_ fun h => h.1.1 hapart
      split
      · simp
      · rename_i conflict hfound
        obtain ⟨x, _, hx⟩ := exists_of_findSome?_eq_some hfound
        obtain ⟨owner, _, rfl⟩ := Option.map_eq_some_iff.1 hx
        rw [ih]
        simp
    · rw [if_neg fun h => hapart (distinct_candidates.1 h), ih]
      simp only [hapart, not_false_eq_true, true_and]

/-- Why no depth was found. -/
theorem of_mangleFrom_eq_error (h : mangleFrom p short group taken count depth clash = .error c) :
    c = clash.getD (.exhausted short (identities group)) ∨
      ∃ v ∈ group, ∃ d owner, taken.lookup (nameAt p short d v) = some owner ∧
        c = .taken v.qualified (nameAt p short d v) owner := by
  induction count generalizing depth clash with
  | zero => exact .inl (Except.error.inj h).symm
  | succ count ih =>
    rw [mangleFrom] at h
    dsimp only at h
    split at h
    · split at h
      · cases h
      · rename_i conflict hfound
        rcases ih h with rfl | hclash
        · obtain ⟨x, hx, hfound⟩ := exists_of_findSome?_eq_some hfound
          obtain ⟨owner, howner, rfl⟩ := Option.map_eq_some_iff.1 hfound
          obtain ⟨v, hv, rfl⟩ := mem_map.1 (mem_sortBy.1 hx)
          exact .inr ⟨v, hv, depth, owner, howner, rfl⟩
        · exact .inr hclash
    · exact ih h

private theorem mangle_eq_exhausted : mangle p short group taken = .error (.exhausted s ids) ↔
      (∀ d, 1 ≤ d → d ≤ maxDepth group → ¬Apart p short group d) ∧ short = s ∧ identities group = ids := by
  rw [mangle, mangleFrom_eq_exhausted, Option.getD_none, Conflict.exhausted.injEq]
  refine and_congr_left fun _ => forall₂_congr fun d hd => ?_
  rw [Nat.add_comm, Nat.lt_succ_iff]

/-- Namespaces that look the same at all depths are the same. -/
theorem namespaces_eq {s t : List String} (hs : "" ∉ s) (ht : "" ∉ t)
    (h : ∀ d, 1 ≤ d → d ≤ max s.length t.length → String.join (s.take d) = String.join (t.take d)) : s = t := by
  induction s generalizing t with
  | nil =>
    cases t with
    | nil => rfl
    | cons b t =>
      have hb : "" = b := by simpa using h 1 le_rfl (by simp)
      exact absurd (hb ▸ mem_cons_self) ht
  | cons a s ih =>
    cases t with
    | nil =>
      have ha : a = "" := by simpa using h 1 le_rfl (by simp)
      exact absurd (ha ▸ mem_cons_self) hs
    | cons b t =>
      -- one segment tells the first ones apart, and every further depth one of the rest
      have hab : a = b := by simpa using h 1 le_rfl (by simp)
      subst hab
      rw [ih (not_mem_of_not_mem_cons hs) (not_mem_of_not_mem_cons ht)]
      intro d hd hle
      have hnext := h (d + 1) (by omega) (by simp only [length_cons]; omega)
      simpa using hnext

private theorem ns_eq_of_segments_eq {u v : Visit} (h : segments u = segments v) : u.ns = v.ns := by
  have hjoin : ∀ v : Visit, Text.join "." (segments v) = v.ns := by
    intro v
    unfold segments
    split
    · rename_i hempty
      exact (String.isEmpty_iff.1 hempty).symm
    · exact join_split '.' v.ns
  rw [← hjoin u, h, hjoin v]

/-- At every depth, two declarations of the group in different namespaces have the same name. -/
def Entangled (p : Policy) (short : String) (group : List Visit) : Prop :=
  ∀ d, 1 ≤ d → d ≤ maxDepth group → ∃ u ∈ group, ∃ v ∈ group, u.ns ≠ v.ns ∧ nameAt p short d u = nameAt p short d v

/-- The group of a short name: its declarations are top-level ones of one name, and no two are the same. -/
structure IsGroup (short : String) (group : List Visit) : Prop where
  top : ∀ v ∈ group, v.parents = []
  named : ∀ v ∈ group, v.decl.name = short
  distinct : (group.map (·.qualified)).Nodup

private theorem IsGroup.eq_of_ns (hg : IsGroup short group) {u v : Visit} (hu : u ∈ group) (hv : v ∈ group)
    (h : u.ns = v.ns) :
    u = v := by
  refine inj_on_of_nodup_map hg.distinct hu hv ?_
  simp only [Visit.qualified, Visit.path, Visit.names, hg.top u hu, hg.top v hv, hg.named u hu, hg.named v hv, h]

theorem IsGroup.not_apart_iff (hg : IsGroup short group) {d : Nat} :
    ¬Apart p short group d ↔ ∃ u ∈ group, ∃ v ∈ group, u.ns ≠ v.ns ∧ nameAt p short d u = nameAt p short d v := by
  constructor
  · intro h
    by_contra hnone
    refine h (Nodup.map_on (fun u hu v hv heq => ?_) hg.distinct.of_map)
    by_contra hne
    exact hnone ⟨u, hu, v, hv, fun hns => hne (hg.eq_of_ns hu hv hns), heq⟩
  · rintro ⟨u, hu, v, hv, hns, heq⟩ happart
    exact hns (congrArg Visit.ns (inj_on_of_nodup_map happart hu hv heq))

private theorem IsGroup.mangle_eq_exhausted_iff (hg : IsGroup short group) :
    mangle p short group taken = .error (.exhausted s ids) ↔
      Entangled p short group ∧ short = s ∧ identities group = ids := by
  rw [mangle_eq_exhausted]
  simp only [hg.not_apart_iff, Entangled]

private theorem IsGroup.three_le (hg : IsGroup short group) (hsuffix : p.escapeSuffix = "_")
    (hreserved : ∀ word ∈ p.reserved, word.toList.getLast? ≠ some '_') (hshort : short ≠ "")
    (hsegments : ∀ v ∈ group, "" ∉ segments v) (htwo : 2 ≤ group.length) (h : Entangled p short group) :
    3 ≤ group.length := by
  by_contra hlt
  obtain ⟨u, v, rfl⟩ := length_eq_two.1 (by omega : group.length = 2)
  have hne : u.ns ≠ v.ns := by
    intro heq
    have huv := hg.eq_of_ns (by simp) (by simp) heq
    have hnodup := hg.distinct
    simp [huv] at hnodup
  -- at every depth it is these two that have the same name
  have hsame : ∀ d, 1 ≤ d → d ≤ maxDepth [u, v] → nameAt p short d u = nameAt p short d v := by
    intro d hd hle
    obtain ⟨w, hw, x, hx, hwx, heq⟩ := h d hd hle
    simp only [mem_cons, not_mem_nil, or_false] at hw hx
    rcases hw with rfl | rfl <;> rcases hx with rfl | rfl
    · exact absurd rfl hwx
    · exact heq
    · exact heq.symm
    · exact absurd rfl hwx
  refine hne (ns_eq_of_segments_eq (reverse_injective (namespaces_eq ?_ ?_ fun d hd hle => ?_)))
  · simpa using hsegments u (by simp)
  · simpa using hsegments v (by simp)
  · have hu : (segments u).length ≤ maxDepth [u, v] := length_le_maxDepth (by simp)
    have hv : (segments v).length ≤ maxDepth [u, v] := length_le_maxDepth (by simp)
    simp only [length_reverse] at hle
    exact Policy.identifier_append_inj hsuffix hreserved hshort (hsame d hd (by omega))

/-- Every name has an owner whose short name is one of `shorts`. -/
def Assignment.OwnedIn (a : Assignment) (top : List Visit) (shorts : String → Prop) : Prop :=
  ∀ x ∈ a.owners, ∃ v ∈ top, v.qualified = x.2 ∧ shorts v.decl.name

private theorem Assignment.OwnedIn.give {shorts : String → Prop} (ha : a.OwnedIn top shorts) {v : Visit}
    (hv : v ∈ top) (hshort : shorts v.decl.name) (name : String) : (a.give v.qualified name).OwnedIn top shorts := by
  intro x hx
  rcases mem_cons.1 hx with rfl | hx
  · exact ⟨v, hv, rfl, hshort⟩
  · exact ha x hx

theorem mem_groupOf {v : Visit} : v ∈ groupOf top short ↔ v ∈ top ∧ v.decl.name = short := by
  rw [groupOf, mem_filter, beq_iff_eq]

/-- The assignment after further names have been given to their declarations. -/
def Assignment.giveAll (a : Assignment) (given : List (String × String)) : Assignment :=
  given.foldl (fun a x => a.give x.1 x.2) a

private theorem Assignment.OwnedIn.giveAll {S : String → Prop} (ha : a.OwnedIn top S) {given : List (String × String)}
    (h : ∀ x ∈ given, ∃ v ∈ top, v.qualified = x.1 ∧ S v.decl.name) : (a.giveAll given).OwnedIn top S := by
  induction given generalizing a with
  | nil => exact ha
  | cons x given ih =>
    obtain ⟨v, hv, heq, hshort⟩ := h x (.head _)
    have hnext : (a.give x.1 x.2).OwnedIn top S := heq ▸ ha.give hv hshort x.2
    exact ih hnext fun y hy => h y (.tail x hy)

theorem Assignment.giveAll_append (a : Assignment) (given given' : List (String × String)) :
    a.giveAll (given ++ given') = (a.giveAll given).giveAll given' := foldl_append ..

theorem Assignment.giveAll_eq (a : Assignment) (given : List (String × String)) : a.giveAll given =
      { names := given.reverse ++ a.names, owners := (given.map Prod.swap).reverse ++ a.owners } := by
  induction given generalizing a with
  | nil => rfl
  | cons x given ih =>
    rw [giveAll, foldl_cons]
    refine (ih _).trans ?_
    have hswap : x.swap = (x.2, x.1) := rfl
    simp [give, hswap]

def ownName (p : Policy) (v : Visit) : String :=
  if p.isUnmangled v.decl.name then v.decl.name else p.identifier v.decl.name

def isSingle (top : List Visit) (short : String) : Bool := (groupOf top short).length == 1

theorem isSingle_eq_true : isSingle top short = true ↔ ∃ v, groupOf top short = [v] := by
  rw [isSingle, beq_iff_eq, length_eq_one_iff]

/-- The names that the first pass gives, to the declarations that are alone with their short names. -/
def singleNames (p : Policy) (top : List Visit) (shorts : List String) : List (String × String) :=
  ((shorts.filter (isSingle top)).flatMap (groupOf top)).map fun v => (v.qualified, ownName p v)

/-- The first pass names the declarations alone with their short names.  None of the short names that it leaves is
unmangled. -/
theorem assignSingles_eq_ok {a a' : Assignment} {shorts shared : List String}
    (h : assignSingles p top a shorts = .ok (a', shared)) :
    a' = a.giveAll (singleNames p top shorts) ∧
      shared = shorts.filter (!isSingle top ·) ∧ ∀ s ∈ shared, p.isUnmangled s = false := by
  induction shorts generalizing a shared with
  | nil =>
    cases h
    exact ⟨rfl, rfl, by simp⟩
  | cons short rest ih =>
    by_cases hsingle : isSingle top short = true
    · obtain ⟨v, hv⟩ := isSingle_eq_true.1 hsingle
      obtain ⟨_, rfl⟩ := mem_groupOf.1 (hv ▸ mem_singleton_self v)
      rw [assignSingles_single hv] at h
      obtain ⟨rfl, hshared, hmangled⟩ := ih h
      refine ⟨?_, ?_, hmangled⟩
      · have hcons : singleNames p top (v.decl.name :: rest) =
            (v.qualified, ownName p v) :: singleNames p top rest := by
          rw [singleNames, filter_cons_of_pos hsingle, flatMap_cons, hv]
          rfl
        rw [hcons]
        rfl
      · rw [filter_cons_of_neg (by simp [hsingle]), hshared]
    · rw [assignSingles_shared fun v hv => hsingle (isSingle_eq_true.2 ⟨v, hv⟩)] at h
      obtain ⟨hmangled, h⟩ := errorIf_eq_ok.1 h
      obtain ⟨⟨a₁, shared₁⟩, hrest, h⟩ := bind_eq_ok.1 h
      obtain ⟨rfl, rfl⟩ := Prod.mk.inj (pure_eq_ok.1 h)
      obtain ⟨rfl, rfl, hrest⟩ := ih hrest
      refine ⟨?_, ?_, forall_mem_cons.2 ⟨by simpa using hmangled, hrest⟩⟩
      · exact congrArg a.giveAll (by rw [singleNames, singleNames, filter_cons_of_neg hsingle])
      · rw [filter_cons_of_pos (by simp [hsingle])]

private theorem of_assignSingles_eq_ok {a a' : Assignment} {shorts shared : List String}
    (h : assignSingles p top a shorts = .ok (a', shared)) :
    shared.Sublist shorts ∧ (∀ s ∈ shared, ∀ v, groupOf top s ≠ [v]) ∧
      ∀ S : String → Prop, (∀ s v, groupOf top s = [v] → S s) → a.OwnedIn top S → a'.OwnedIn top S := by
  obtain ⟨rfl, rfl, -⟩ := assignSingles_eq_ok h
  refine ⟨filter_sublist, fun s hs v hv => ?_, fun S hS ha => ha.giveAll fun x hx => ?_⟩
  · have hshared := (mem_filter.1 hs).2
    simp [isSingle, hv] at hshared
  · obtain ⟨v, hv, rfl⟩ := mem_map.1 hx
    obtain ⟨s, hs, hv⟩ := mem_flatMap.1 hv
    obtain ⟨hmem, rfl⟩ := mem_groupOf.1 hv
    obtain ⟨w, hw⟩ := isSingle_eq_true.1 (mem_filter.1 hs).2
    exact ⟨v, hmem, rfl, hS _ w hw⟩

private theorem of_assignSingles_eq_error (h : assignSingles p top a shorts = .error c) :
    ∃ short ids, c = .unmangledTwice short ids := by
  induction shorts generalizing a with
  | nil => cases h
  | cons short rest ih =>
    by_cases hsingle : ∃ v, groupOf top short = [v]
    · obtain ⟨v, hv⟩ := hsingle
      rw [assignSingles_single hv] at h
      exact ih h
    · rw [assignSingles_shared fun v hv => hsingle ⟨v, hv⟩] at h
      split at h
      · exact ⟨_, _, (Except.error.inj h).symm⟩
      · rcases bind_eq_error.1 h with h | ⟨_, _, h⟩
        · exact ih h
        · cases h

private theorem ownedIn_of_assignGroups {a a' : Assignment} {S : String → Prop} (ha : a.OwnedIn top S)
    (hshorts : ∀ s ∈ shorts, S s) (h : assignGroups p top a shorts = .ok a') : a'.OwnedIn top S := by
  induction shorts generalizing a with
  | nil =>
    cases h
    exact ha
  | cons short rest ih =>
    obtain ⟨names, hnames, h⟩ := bind_eq_ok.1 h
    obtain ⟨depth, _, _, _, _, rfl⟩ := of_mangleFrom_eq_ok hnames
    refine ih (ha.giveAll fun x hx => ?_) (fun s hs => hshorts s (.tail _ hs)) h
    obtain ⟨v, hv, rfl⟩ := mem_map.1 (mem_sortBy.1 hx)
    obtain ⟨hmem, rfl⟩ := mem_groupOf.1 hv
    exact ⟨v, hmem, rfl, hshorts _ (.head _)⟩

private theorem assignGroups_eq_error : assignGroups p top a shorts = .error c ↔
      ∃ before short after a', shorts = before ++ short :: after ∧ assignGroups p top a before = .ok a' ∧
        mangle p short (groupOf top short) a'.owners = .error c := by
  induction shorts generalizing a with
  | nil => simp [assignGroups]
  | cons s rest ih =>
    rw [assignGroups, bind_eq_error]
    constructor
    · rintro (h | ⟨names, hnames, h⟩)
      · exact ⟨[], s, rest, a, rfl, rfl, h⟩
      · obtain ⟨before, short, after, a', rfl, hbefore, h⟩ := ih.1 h
        refine ⟨s :: before, short, after, a', rfl, ?_, h⟩
        rw [assignGroups, hnames]
        exact hbefore
    · rintro ⟨before, short, after, a', heq, hbefore, h⟩
      cases before with
      | nil =>
        obtain ⟨rfl, rfl⟩ := cons.inj heq
        cases hbefore
        exact .inl h
      | cons s' before =>
        obtain ⟨rfl, rfl⟩ := cons.inj heq
        obtain ⟨names, hnames, hbefore⟩ := bind_eq_ok.1 hbefore
        exact .inr ⟨names, hnames, ih.2 ⟨before, short, after, a', rfl, hbefore, h⟩⟩

/-- Resolution comes to the group of a short name, after the declarations alone with their short names and the groups
before have got their names. -/
def ComesTo (p : Policy) (top : List Visit) (short : String) (taken : List (String × String)) : Prop :=
  ∃ a shared before after a', assignSingles p top {} (sortedSet (top.map (·.decl.name))) = .ok (a, shared) ∧
    shared = before ++ short :: after ∧ assignGroups p top a before = .ok a' ∧ taken = a'.owners

/-- Assignment fails on a group that it comes to. -/
theorem assignTop_eq_error (hc : ∀ short ids, c ≠ .unmangledTwice short ids) : assignTop p top = .error c ↔
      ∃ short taken, ComesTo p top short taken ∧ mangle p short (groupOf top short) taken = .error c := by
  rw [assignTop, bind_eq_error]
  constructor
  · rintro (h | ⟨⟨a, shared⟩, hsingles, h⟩)
    · obtain ⟨short, ids, rfl⟩ := of_assignSingles_eq_error h
      exact absurd rfl (hc short ids)
    · rcases bind_eq_error.1 h with h | ⟨_, _, h⟩
      · obtain ⟨before, short, after, a', rfl, hbefore, h⟩ := assignGroups_eq_error.1 h
        exact ⟨short, _, ⟨a, _, before, after, a', hsingles, rfl, hbefore, rfl⟩, h⟩
      · cases h
  · rintro ⟨short, taken, ⟨a, shared, before, after, a', hsingles, rfl, hbefore, rfl⟩, h⟩
    refine .inr ⟨_, hsingles, bind_eq_error.2 (.inl ?_)⟩
    exact assignGroups_eq_error.2 ⟨before, short, after, a', rfl, hbefore, h⟩

/-- A group that resolution comes to has several declarations, and those that have names already are others. -/
theorem ComesTo.spec (h : ComesTo p top short taken) :
    2 ≤ (groupOf top short).length ∧ ∀ x ∈ taken, ∃ w ∈ top, w.qualified = x.2 ∧ w.decl.name ≠ short := by
  obtain ⟨a, _, before, after, a', hsingles, rfl, hbefore, rfl⟩ := h
  obtain ⟨hsub, hshared, howned⟩ := of_assignSingles_eq_ok hsingles
  have hmem : short ∈ before ++ short :: after := by simp
  have hnew : short ∉ before := by
    have hnodup := (nodup_sortedSet _).sublist hsub
    intro hin
    exact (nodup_append.1 hnodup).2.2 short hin short (.head _) rfl
  constructor
  · obtain ⟨v, hv, hname⟩ := mem_map.1 (mem_sortedSet.1 (hsub.subset hmem))
    have hpos : v ∈ groupOf top short := mem_groupOf.2 ⟨hv, hname⟩
    have hone : (groupOf top short).length ≠ 1 := by
      intro hlen
      obtain ⟨w, hw⟩ := length_eq_one_iff.1 hlen
      exact hshared short hmem w hw
    have := length_pos_of_mem hpos
    omega
  · refine ownedIn_of_assignGroups (S := (· ≠ short)) (howned _ ?_ (by simp [Assignment.OwnedIn])) ?_ hbefore
    · rintro s v hv rfl
      exact hshared s hmem v hv
    · rintro s hs rfl
      exact hnew hs

private theorem of_checkUnique_eq_error {owners : List (String × String)} {es : List Entry}
    (h : checkUnique owners es = .error c) : ∃ other decl name, c = .sameName other decl name := by
  induction es generalizing owners with
  | nil => cases h
  | cons e es ih =>
    rw [checkUnique] at h
    split at h
    · exact ⟨_, _, _, (Except.error.inj h).symm⟩
    · exact ih h

/-- Resolution fails for want of a name just if assignment does. -/
theorem resolve_eq_error {program : Program} {policy : Policy} (hd : program.DistinctKept)
    (hc : ∀ other decl name, c ≠ .sameName other decl name) :
    resolve program policy = .error c ↔ assignTop policy.completed (tops program) = .error c := by
  rw [resolve_eq hd, bind_eq_error]
  refine ⟨?_, .inl⟩
  rintro (h | ⟨names, _, h⟩)
  · exact h
  · rcases bind_eq_error.1 h with h | ⟨_, _, h⟩
    · obtain ⟨other, decl, name, rfl⟩ := of_checkUnique_eq_error h
      exact absurd rfl (hc other decl name)
    · cases h

theorem isGroup_groupOf {program : Program} (hd : program.DistinctNames) (short : String) :
    IsGroup short (groupOf (tops program) short) where
  top _ hv := List.isEmpty_iff.1 (mem_filter.1 (mem_groupOf.1 hv).1).2
  named _ hv := (mem_groupOf.1 hv).2
  distinct := hd.sublist (((filter_sublist.trans filter_sublist).trans filter_sublist).map _)

private theorem getLast?_reserved (l : Language) : ∀ word ∈ l.policy.reserved, word.toList.getLast? ≠ some '_' := by
  cases l <;> decide +kernel

/-- With distinct qualified names, resolution runs out of depths exactly for entangled groups.  Of the other groups
that it comes to, each gets its names at a depth, or one of its declarations would get the name of a declaration
outside of the group.  An entangled group has at least three declarations. -/
theorem resolve_exhausted_iff (program : Program) (hd : (program.visits.map (·.qualified)).Nodup) (l : Language)
    (unmangled : List String) (short : String) : let p := l.policy.extend unmangled
    let group := groupOf (tops program) short
    (∀ ids, resolve program p = .error (.exhausted short ids) →
        ids = identities group ∧ ∃ taken, ComesTo p (tops program) short taken) ∧
      ∀ taken, ComesTo p (tops program) short taken →
        (resolve program p = .error (.exhausted short (identities group)) ↔ Entangled p short group) ∧
        (¬Entangled p short group →
          (∃ d, 1 ≤ d ∧ d ≤ maxDepth group ∧ Apart p short group d ∧
            mangle p short group taken = .ok (sortedByKey (candidates p short group d))) ∨
          ∃ u ∈ group, ∃ w ∈ tops program, w ∉ group ∧
            ∃ name, resolve program p = .error (.taken u.qualified name w.qualified)) ∧
        (short ≠ "" → (∀ v ∈ group, "" ∉ segments v) → Entangled p short group → 3 ≤ group.length) := by
  intro p group
  have hp : p.completed = p := by cases l <;> rfl
  have hgroup : IsGroup short group := isGroup_groupOf hd short
  have herror : ∀ {c : Conflict}, (∀ other decl name, c ≠ .sameName other decl name) →
      (∀ short ids, c ≠ .unmangledTwice short ids) → (resolve program p = .error c ↔
        ∃ short taken, ComesTo p (tops program) short taken ∧
          mangle p short (groupOf (tops program) short) taken = .error c) := by
    intro c hsame htwice
    rw [resolve_eq_error (Program.DistinctNames.kept hd) hsame, hp, assignTop_eq_error htwice]
  refine ⟨fun ids h => ?_, fun taken hcomes => ⟨⟨fun h => ?_, fun h => ?_⟩, fun h => ?_, fun hshort hsegments => ?_⟩⟩
  · obtain ⟨s, taken, hcomes, h⟩ := (herror (by simp) (by simp)).1 h
    obtain ⟨_, rfl, rfl⟩ := (isGroup_groupOf hd s).mangle_eq_exhausted_iff.1 h
    exact ⟨rfl, taken, hcomes⟩
  · obtain ⟨s, taken, hcomes, h⟩ := (herror (by simp) (by simp)).1 h
    obtain ⟨hentangled, rfl, _⟩ := (isGroup_groupOf hd s).mangle_eq_exhausted_iff.1 h
    exact hentangled
  · exact (herror (by simp) (by simp)).2 ⟨short, taken, hcomes, hgroup.mangle_eq_exhausted_iff.2 ⟨h, rfl, rfl⟩⟩
  · -- a group that is not entangled fails only by a name that an earlier one has
    cases hmangle : mangle p short group taken with
    | ok names =>
      obtain ⟨d, hle, hlt, hapart, _, rfl⟩ := of_mangleFrom_eq_ok hmangle
      exact .inl ⟨d, hle, by omega, hapart, rfl⟩
    | error c =>
      rcases of_mangleFrom_eq_error hmangle with rfl | ⟨u, hu, d, owner, howner, rfl⟩
      · exact absurd (hgroup.mangle_eq_exhausted_iff.1 hmangle).1 h
      · obtain ⟨w, hw, rfl, hname⟩ := hcomes.spec.2 _ (mem_of_lookup howner)
        refine .inr ⟨u, hu, w, hw, fun hin => hname (mem_groupOf.1 hin).2, nameAt p short d u, ?_⟩
        exact (herror (by simp) (by simp)).2 ⟨short, taken, hcomes, hmangle⟩
  · refine hgroup.three_le ?_ ?_ hshort hsegments hcomes.spec.1
    · cases l <;> rfl
    · exact getLast?_reserved l

/-- A name in three namespaces.  With one segment in front the first looks like the last, with two like the second. -/
def depots : Program :=
  { name := "Depots"
    declarations :=
      [.type { ns := "East.North", name := "Depot" } {} [], .type { ns := "NorthEast", name := "Depot" } {} [],
        .type { ns := "West.North", name := "Depot" } {} []] }

private theorem resolve_depots (l : Language) :
    resolve depots (l.policy.extend []) =
      .error (.exhausted "Depot" ["East.North.Depot", "NorthEast.Depot", "West.North.Depot"]) := by
  have hfails : failsWith (· == .exhausted "Depot" ["East.North.Depot", "NorthEast.Depot", "West.North.Depot"])
      (resolve depots (l.policy.extend [])) = true := by
    cases l <;> decide +kernel
  obtain ⟨c, hc, heq⟩ := failsWith_eq_true.1 hfails
  rw [hc, beq_iff_eq.1 heq]

/-- Resolution comes to the depots, which are entangled. -/
theorem resolve_exhausted_iff_depots :
    ∃ taken, ComesTo Emit.Dart.policy (tops depots) "Depot" taken ∧
      Entangled Emit.Dart.policy "Depot" (groupOf (tops depots) "Depot") ∧
        3 ≤ (groupOf (tops depots) "Depot").length := by
  have hiff := resolve_exhausted_iff depots (by decide +kernel) .dart [] "Depot"
  obtain ⟨hids, taken, hcomes⟩ := hiff.1 _ (resolve_depots .dart)
  obtain ⟨hexhausted, _, hthree⟩ := hiff.2 taken hcomes
  have hentangled := hexhausted.1 (hids ▸ resolve_depots .dart)
  exact ⟨taken, hcomes, hentangled, hthree (by decide) (by decide +kernel) hentangled⟩

/-- The qualified names are distinct and the program is valid, and yet both languages run out of depths. -/
theorem exhausted_depots :
    (depots.visits.map (·.qualified)).Nodup ∧ depots.validate = .ok () ∧ ∀ l : Language,
      resolve depots (l.policy.extend []) =
        .error (.exhausted "Depot" ["East.North.Depot", "NorthEast.Depot", "West.North.Depot"]) :=
  ⟨by decide +kernel, by decide +kernel, resolve_depots⟩

end Table

end Covenant.Naming
