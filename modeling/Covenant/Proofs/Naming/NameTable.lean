import Covenant.Proofs.Naming.Mangling

/-!
# Name tables are total and free of collisions

A table that resolution gives has one entry for every declaration that is kept, sorted strictly by the emitted names,
and finds each of them by its qualified name (`resolve_faithful`).  Declarations that share a short name get segments
of their namespaces in front, as few as tell them from each other and from what is named before them
(`resolve_smallest_depth`).
-/

namespace Covenant.Naming

open Contract (Program Visit)
open Outcome
open List
open Text

def Entry.IsOf (e : Entry) (v : Visit) : Prop :=
  e.qualified = v.qualified ∧ e.ns = v.ns ∧ e.path = v.path ∧ e.decl = v.decl

namespace Table

/-- A table of the declarations of a program that are kept. -/
structure Faithful (t : Table) (program : Program) (sep : String) : Prop where
  /-- There is one entry for every declaration, and no other. -/
  entries : ∃ vs, vs.Perm program.kept ∧ Forall₂ Entry.IsOf t.entries vs
  increasing : t.entries.Pairwise fun a b => a.name < b.name
  found_iff : ∀ q, (∃ e, t.lookup q = some e) ↔ ∃ v ∈ program.kept, v.qualified = q
  found : ∀ q e, t.lookup q = some e → e ∈ t.entries ∧ ∃ v ∈ program.kept, v.qualified = q ∧ e.IsOf v
  top : ∀ e ∈ t.entries, ∀ v ∈ program.kept, e.qualified = v.qualified → v.outer? = none → e.parent? = none
  /-- The parent of a nested declaration is the entry of the one directly around it, and gives it its name. -/
  nested : ∀ e ∈ t.entries, ∀ v ∈ program.kept, e.qualified = v.qualified → ∀ u, v.outer? = some u →
    ∃ parent ∈ t.entries, parent.IsOf u ∧ t.lookup parent.qualified = some parent ∧
      e.parent? = some parent.qualified ∧ e.name = parent.name ++ sep ++ v.decl.name

variable {policy : Policy} {v : Visit} {program : Program} {names : List (String × String)}

theorem resolve_ne_orphan (hd : program.DistinctKept) (q : String) :
    resolve program policy ≠ .error (.orphan q) := by
  intro h
  have htop := (resolve_eq_error hd (by simp)).1 h
  obtain ⟨short, taken, _, hmangle⟩ := (assignTop_eq_error (by simp)).1 htop
  rcases of_mangleFrom_eq_error hmangle with hc | ⟨_, _, _, _, _, hc⟩ <;> cases hc

section

variable {p : Policy} {names : List (String × String)} {program : Program}

theorem mem_entries_ofNames {e : Entry} :
    e ∈ (ofNames p names program).entries ↔ ∃ v ∈ program.kept, entryOf p.nestedSeparator names v = e := by
  rw [ofNames, mem_sortBy, mem_map]
  exact exists_congr fun v => and_congr_left fun _ => (perm_order program).mem_iff

private theorem nodup_resolved_ofNames (hd : program.DistinctKept) :
    ((ofNames p names program).resolved.map (·.qualified)).Nodup := by
  rw [ofNames, map_map]
  exact ((perm_order program).map _).nodup_iff.2 hd

private theorem lookup_ofNames (hd : program.DistinctKept) {q : String} {e : Entry} :
    (ofNames p names program).lookup q = some e ↔
      ∃ v ∈ program.kept, v.qualified = q ∧ entryOf p.nestedSeparator names v = e := by
  rw [lookup, find?_key_eq_some (nodup_resolved_ofNames hd), ofNames, mem_map]
  constructor
  · rintro ⟨⟨v, hv, rfl⟩, rfl⟩
    exact ⟨v, (perm_order program).mem_iff.1 hv, rfl, rfl⟩
  · rintro ⟨v, hv, rfl, rfl⟩
    exact ⟨⟨v, (perm_order program).mem_iff.2 hv, rfl⟩, rfl⟩

private theorem entryOf_isOf (sep : String) (v : Visit) : (entryOf sep names v).IsOf v := ⟨rfl, rfl, rfl, rfl⟩

private theorem entry_eq_entryOf (hd : program.DistinctKept) {e : Entry} {v : Visit}
    (he : e ∈ (ofNames p names program).entries) (hv : v ∈ program.kept) (heq : e.qualified = v.qualified) :
    e = entryOf p.nestedSeparator names v := by
  obtain ⟨v', hv', rfl⟩ := mem_entries_ofNames.1 he
  rw [inj_on_of_nodup_map hd hv' hv heq]

/-- A table with distinct names is faithful to its program. -/
theorem faithful_ofNames (hd : program.DistinctKept)
    (hn : ((order program).map (emittedName p.nestedSeparator names)).Nodup) :
    (ofNames p names program).Faithful program p.nestedSeparator where
  entries := by
    refine ⟨sortBy (fun v w => Text.before (emittedName p.nestedSeparator names v)
      (emittedName p.nestedSeparator names w)) (order program), (perm_sortBy _ _).trans (perm_order program), ?_⟩
    rw [ofNames, ← map_sortBy_key (emittedName p.nestedSeparator names) Entry.name _ fun _ => rfl,
      forall₂_map_left_iff]
    exact forall₂_same.2 fun v _ => entryOf_isOf _ v
  increasing := by
    refine pairwise_lt_sortBy_key Entry.name ?_
    rw [map_map]
    exact hn
  found_iff := by
    intro q
    constructor
    · rintro ⟨e, he⟩
      obtain ⟨v, hv, hq, _⟩ := (lookup_ofNames hd).1 he
      exact ⟨v, hv, hq⟩
    · rintro ⟨v, hv, hq⟩
      exact ⟨_, (lookup_ofNames hd).2 ⟨v, hv, hq, rfl⟩⟩
  found := by
    intro q e he
    obtain ⟨v, hv, hq, rfl⟩ := (lookup_ofNames hd).1 he
    exact ⟨mem_entries_ofNames.2 ⟨v, hv, rfl⟩, v, hv, hq, entryOf_isOf _ v⟩
  top := by
    intro e he v hv heq houter
    rw [entry_eq_entryOf hd he hv heq, entryOf, Visit.parentQualified?_eq, houter]
    rfl
  nested := by
    intro e he v hv heq u hu
    have hkept := Program.outer?_mem_kept hv hu
    refine ⟨entryOf p.nestedSeparator names u, mem_entries_ofNames.2 ⟨u, hkept, rfl⟩, entryOf_isOf _ u,
      (lookup_ofNames hd).2 ⟨u, hkept, rfl, rfl⟩, ?_, ?_⟩
    · rw [entry_eq_entryOf hd he hv heq, entryOf, Visit.parentQualified?_eq, hu]
      rfl
    · rw [entry_eq_entryOf hd he hv heq]
      exact emittedName_of_outer? hu

end

theorem lookup_eq_some_iff {t : Table} (hd : program.DistinctKept)
    (ht : resolve program policy = .ok t) {q : String} {e : Entry} :
    t.lookup q = some e ↔ e ∈ t.entries ∧ e.qualified = q := by
  obtain ⟨names, _, _, rfl⟩ := (resolve_eq_ok hd).1 ht
  rw [lookup_ofNames hd, mem_entries_ofNames]
  constructor
  · rintro ⟨v, hv, rfl, rfl⟩
    exact ⟨⟨v, hv, rfl⟩, rfl⟩
  · rintro ⟨⟨v, hv, rfl⟩, rfl⟩
    exact ⟨v, hv, rfl, rfl⟩

theorem lookup_of_mem_kept {t : Table} (hd : program.DistinctKept)
    (ht : resolve program policy = .ok t) (hv : v ∈ program.kept) :
    ∃ e, t.lookup v.qualified = some e ∧ e.decl = v.decl := by
  obtain ⟨names, _, _, rfl⟩ := (resolve_eq_ok hd).1 ht
  exact ⟨_, (lookup_ofNames hd).2 ⟨v, hv, rfl, rfl⟩, rfl⟩

/-- Resolution gives a faithful table or a conflict of names; it never misses the declaration around a nested one. -/
theorem resolve_faithful (program : Program) (policy : Policy) (hd : (program.visits.map (·.qualified)).Nodup) :
    (∀ t, resolve program policy = .ok t → t.Faithful program policy.completed.nestedSeparator) ∧
      ∀ q, resolve program policy ≠ .error (.orphan q) := by
  have hkept : program.DistinctKept := Program.DistinctNames.kept hd
  refine ⟨fun t ht => ?_, resolve_ne_orphan hkept⟩
  obtain ⟨names, _, hn, rfl⟩ := (resolve_eq_ok hkept).1 ht
  exact faithful_ofNames hkept hn

/-- Two orders with their states, one of them in a namespace of its own, and a draft that is not to be emitted. -/
def orders : Program :=
  { name := "Orders"
    declarations :=
      [.type { ns := "Sales", name := "Order" } {} [.enum { name := "State" } [], .type { name := "Line" } {} []],
        .type { ns := "Stock", name := "Order" } {} [.enum { name := "State" } []],
        .type { ns := "Stock", name := "Draft", excluded := true } {} [.enum { name := "State" } []]] }

/-- The table of the orders has no entry for the draft. -/
theorem resolve_faithful_orders : ∃ t, resolve orders { reserved := ["SalesOrder"] } = .ok t ∧
      t.entries.map (·.name) =
        ["SalesOrder_", "SalesOrder__Line", "SalesOrder__State", "StockOrder", "StockOrder_State"] ∧
      t.Faithful orders "_" := by
  have h : (match resolve orders { reserved := ["SalesOrder"] } with
      | .ok t => t.entries.map (·.name)
      | .error _ => []) =
        ["SalesOrder_", "SalesOrder__Line", "SalesOrder__State", "StockOrder", "StockOrder_State"] := by
    decide +kernel
  split at h
  · rename_i t ht
    exact ⟨t, ht, h, (resolve_faithful orders _ (by decide +kernel)).1 t ht⟩
  · cases h

section

variable {p : Policy} {top : List Visit} {short : String} {shorts : List String}

private theorem exists_given_of_assignGroups {a a' : Assignment} (h : assignGroups p top a shorts = .ok a') :
    ∃ given, a' = a.giveAll given ∧
      (given.map (·.1)).Perm ((shorts.flatMap (groupOf top)).map (·.qualified)) := by
  induction shorts generalizing a with
  | nil =>
    cases h
    exact ⟨[], rfl, .rfl⟩
  | cons short rest ih =>
    obtain ⟨names, hnames, h⟩ := bind_eq_ok.1 h
    obtain ⟨given, rfl, hgiven⟩ := ih h
    obtain ⟨d, _, _, _, _, rfl⟩ := of_mangleFrom_eq_ok hnames
    refine ⟨_ ++ given, (a.giveAll_append _ given).symm, ?_⟩
    rw [map_append, flatMap_cons, map_append]
    refine Perm.append (((perm_sortBy _ _).map _).trans (.of_eq ?_)) hgiven
    rw [candidates, map_map]
    rfl

private theorem assignGroups_append (shorts shorts' : List String) : assignGroups p top a (shorts ++ shorts') =
      assignGroups p top a shorts >>= fun a' => assignGroups p top a' shorts' := by
  induction shorts generalizing a with
  | nil => rfl
  | cons short rest ih => simp only [cons_append, assignGroups, ih, bind_assoc]

private theorem nodup_groups (hd : (top.map (·.qualified)).Nodup) (hs : shorts.Nodup) :
    ((shorts.flatMap (groupOf top)).map (·.qualified)).Nodup := by
  rw [map_flatMap, nodup_flatMap]
  refine ⟨fun s _ => hd.sublist (filter_sublist.map _), hs.imp fun {s s'} hne => ?_⟩
  change List.Disjoint ((groupOf top s).map (·.qualified)) ((groupOf top s').map (·.qualified))
  rw [disjoint_left]
  intro q hq hq'
  obtain ⟨u, hu, rfl⟩ := mem_map.1 hq
  obtain ⟨v, hv, heq⟩ := mem_map.1 hq'
  obtain ⟨hmem, rfl⟩ := mem_groupOf.1 hu
  obtain ⟨hmem', rfl⟩ := mem_groupOf.1 hv
  exact hne (congrArg (·.decl.name) (inj_on_of_nodup_map hd hmem hmem' heq.symm))

/-- A declaration is named before the group of a short name: it is alone with its own, that is never mangled, or it is
smaller. -/
def Precedes (p : Policy) (top : List Visit) (w : Visit) (short : String) : Prop :=
  (groupOf top w.decl.name).length = 1 ∨ p.isUnmangled w.decl.name = true ∨
    2 ≤ (groupOf top w.decl.name).length ∧ w.decl.name < short

/-- The names of top-level declarations.  A group gets the first depth that works with what is taken before it. -/
structure Named (p : Policy) (top : List Visit) (names : List (String × String)) : Prop where
  distinct : (names.map (·.1)).Nodup
  single : ∀ v, groupOf top v.decl.name = [v] → (v.qualified, ownName p v) ∈ names
  shared : ∀ short, 2 ≤ (groupOf top short).length → p.isUnmangled short = false ∧
    ∃ taken d, 1 ≤ d ∧ d ≤ maxDepth (groupOf top short) ∧ Works p short (groupOf top short) taken d ∧
      (∀ d', 1 ≤ d' → d' < d → ¬Works p short (groupOf top short) taken d') ∧
      (∀ v ∈ groupOf top short, (v.qualified, nameAt p short d v) ∈ names) ∧
      ∀ x ∈ taken, (x.2, x.1) ∈ names ∧ ∃ w ∈ top, w.qualified = x.2 ∧ Precedes p top w short

/-- The second pass comes to every group, and gives it the first depth that works with what is taken then. -/
theorem exists_depth_of_assignGroups {a a' : Assignment} (h : assignGroups p top a shorts = .ok a')
    (hs : short ∈ shorts) :
    ∃ before after earlier d, shorts = before ++ short :: after ∧
      (earlier.map (·.1)).Perm ((before.flatMap (groupOf top)).map (·.qualified)) ∧
      1 ≤ d ∧ d ≤ maxDepth (groupOf top short) ∧ Works p short (groupOf top short) (a.giveAll earlier).owners d ∧
      (∀ d', 1 ≤ d' → d' < d → ¬Works p short (groupOf top short) (a.giveAll earlier).owners d') ∧
      (a.giveAll earlier).names ⊆ a'.names ∧
      ∀ v ∈ groupOf top short, (v.qualified, nameAt p short d v) ∈ a'.names := by
  -- the pass is cut in three: up to the group, the group, and what comes after it
  obtain ⟨before, after, rfl⟩ := append_of_mem hs
  rw [assignGroups_append] at h
  obtain ⟨a₁, hbefore, h⟩ := bind_eq_ok.1 h
  obtain ⟨group, hgroup, hafter⟩ := bind_eq_ok.1 h
  obtain ⟨earlier, rfl, hearlier⟩ := exists_given_of_assignGroups hbefore
  obtain ⟨later, hlater, _⟩ := exists_given_of_assignGroups hafter
  obtain ⟨d, hd, hle, hworks, hfirst, rfl⟩ := exists_first_of_mangleFrom hgroup
  have hnames : a'.names = later.reverse ++ ((sortedByKey (candidates p short (groupOf top short) d)).reverse ++
      (a.giveAll earlier).names) := by
    rw [hlater, Assignment.giveAll_eq]
    exact congrArg (later.reverse ++ ·) (congrArg Assignment.names (Assignment.giveAll_eq _ _))
  refine ⟨before, after, earlier, d, rfl, hearlier, hd, by omega, hworks, hfirst, fun x hx => ?_, fun v hv => ?_⟩
  · rw [hnames]
    exact mem_append_right _ (mem_append_right _ hx)
  · rw [hnames]
    refine mem_append_right _ (mem_append_left _ (mem_reverse.2 ?_))
    exact mem_sortBy.2 (mem_map_of_mem hv)

private theorem precedes_of_mem {before : List String} (hbefore : ∀ s ∈ before, isSingle top s = false ∧ s < short)
    {given : List (String × String)}
    (hgiven : (given.map (·.1)).Perm ((before.flatMap (groupOf top)).map (·.qualified))) {y : String × String}
    (hy : y ∈ singleNames p top shorts ++ given) : ∃ w ∈ top, w.qualified = y.1 ∧ Precedes p top w short := by
  rcases mem_append.1 hy with hy | hy
  · obtain ⟨w, hw, rfl⟩ := mem_map.1 hy
    obtain ⟨s, hs, hw⟩ := mem_flatMap.1 hw
    obtain ⟨hmem, rfl⟩ := mem_groupOf.1 hw
    exact ⟨w, hmem, rfl, .inl (by simpa [isSingle] using (mem_filter.1 hs).2)⟩
  · obtain ⟨w, hw, heq⟩ := mem_map.1 (hgiven.mem_iff.1 (mem_map_of_mem hy))
    obtain ⟨s, hs, hw⟩ := mem_flatMap.1 hw
    obtain ⟨hmem, rfl⟩ := mem_groupOf.1 hw
    obtain ⟨hone, hlt⟩ := hbefore _ hs
    have hpos := length_pos_of_mem hw
    simp only [isSingle, beq_eq_false_iff_ne] at hone
    exact ⟨w, hmem, heq, .inr (.inr ⟨by omega, hlt⟩)⟩

private theorem nodup_given (hd : (top.map (·.qualified)).Nodup) (hs : shorts.Nodup) {given : List (String × String)}
    (hgiven : (given.map (·.1)).Perm (((shorts.filter (!isSingle top ·)).flatMap (groupOf top)).map (·.qualified))) :
    ((singleNames p top shorts ++ given).map (·.1)).Nodup := by
  have hperm : ((singleNames p top shorts ++ given).map (·.1)).Perm
      ((shorts.flatMap (groupOf top)).map (·.qualified)) := by
    rw [map_append, singleNames, map_map]
    refine (hgiven.append_left _).trans ?_
    refine .trans (.of_eq ?_) (((filter_append_perm (isSingle top) shorts).flatMap_right (groupOf top)).map _)
    rw [flatMap_append, map_append]
    rfl
  exact hperm.nodup_iff.2 (nodup_groups hd hs)

/-- Each group gets the first depth that works. -/
theorem named_of_assignTop (hd : (top.map (·.qualified)).Nodup) {names : List (String × String)}
    (h : assignTop p top = .ok names) : Named p top names := by
  obtain ⟨⟨a, shared⟩, hsingles, h⟩ := bind_eq_ok.1 h
  obtain ⟨a', hgroups, h⟩ := bind_eq_ok.1 h
  obtain rfl := pure_eq_ok.1 h
  obtain ⟨ha, hshared, hmangled⟩ := assignSingles_eq_ok hsingles
  generalize hshorts : sortedSet (top.map (·.decl.name)) = shorts at ha hshared
  have hincreasing : shorts.Pairwise (· < ·) := hshorts ▸ pairwise_lt_sortedSet _
  have hmem : ∀ {short : String} {v : Visit}, v ∈ groupOf top short → short ∈ shorts := by
    intro short v hv
    obtain ⟨htop, rfl⟩ := mem_groupOf.1 hv
    exact hshorts ▸ mem_sortedSet.2 (mem_map_of_mem htop)
  obtain ⟨given, ha', hgiven⟩ := exists_given_of_assignGroups hgroups
  have hnames : a'.names = (singleNames p top shorts ++ given).reverse := by
    rw [ha', ha, ← Assignment.giveAll_append, Assignment.giveAll_eq, append_nil]
  refine ⟨?_, fun v hv => ?_, fun short htwo => ?_⟩
  · rw [hnames, map_reverse, nodup_reverse]
    exact nodup_given hd (hincreasing.imp ne_of_lt) (hshared ▸ hgiven)
  · have hgroup : v ∈ groupOf top v.decl.name := hv ▸ mem_singleton_self v
    have hsingle := mem_filter.2 ⟨hmem hgroup, isSingle_eq_true.2 ⟨v, hv⟩⟩
    rw [hnames, mem_reverse]
    exact mem_append_left _ (mem_map_of_mem (mem_flatMap.2 ⟨_, hsingle, hgroup⟩))
  · obtain ⟨v, hv⟩ := exists_mem_of_length_pos (by omega : 0 < (groupOf top short).length)
    have hin : short ∈ shared := by
      rw [hshared]
      refine mem_filter.2 ⟨hmem hv, ?_⟩
      simp only [isSingle, Bool.not_eq_true', beq_eq_false_iff_ne]
      omega
    refine ⟨hmangled short hin, ?_⟩
    obtain ⟨before, after, earlier, d, rfl, hearlier, hd, hle, hworks, hfirst, hkept, hgroup⟩ :=
      exists_depth_of_assignGroups hgroups hin
    refine ⟨_, d, hd, hle, hworks, hfirst, hgroup, fun x hx => ?_⟩
    -- what is taken was given by the first pass, or to the groups before this one
    rw [ha, ← Assignment.giveAll_append, Assignment.giveAll_eq] at hx hkept
    simp only [append_nil, mem_reverse, mem_map] at hx hkept
    obtain ⟨y, hy, rfl⟩ := hx
    refine ⟨hkept (mem_reverse.2 hy), precedes_of_mem (fun s hs => ⟨?_, ?_⟩) hearlier hy⟩
    · have hs' := hshared ▸ mem_append_left (short :: after) hs
      simpa using (mem_filter.1 hs').2
    · have hsorted := hshared ▸ hincreasing.sublist filter_sublist
      exact (pairwise_append.1 hsorted).2.2 s hs short (.head _)

end

theorem Named.exists_name {p : Policy} {top : List Visit} (h : Named p top names) (hv : v ∈ top) :
    (v.qualified, ownName p v) ∈ names ∨ ∃ d, (v.qualified, nameAt p v.decl.name d v) ∈ names := by
  have hgroup : v ∈ groupOf top v.decl.name := mem_groupOf.2 ⟨hv, rfl⟩
  by_cases htwo : 2 ≤ (groupOf top v.decl.name).length
  · obtain ⟨_, _, d, _, _, _, _, hnames, _⟩ := h.shared _ htwo
    exact .inr ⟨d, hnames v hgroup⟩
  · have hpos := length_pos_of_mem hgroup
    obtain ⟨w, hw⟩ := length_eq_one_iff.1 (by omega : (groupOf top v.decl.name).length = 1)
    obtain rfl : v = w := mem_singleton.1 (hw ▸ hgroup)
    exact .inl (h.single v hw)

private theorem not_apart_zero {p : Policy} {short : String} {group : List Visit} (htwo : 2 ≤ group.length) :
    ¬Apart p short group 0 := by
  have hsame : group.map (nameAt p short 0) = replicate group.length (p.identifier ("" ++ short)) :=
    map_eq_replicate_iff.2 fun v _ => by simp [nameAt, mangledName]
  rw [Apart, hsame, nodup_replicate]
  omega

def nameOf? (t : Table) (v : Visit) : Option String := (t.lookup v.qualified).map (·.name)

theorem emittedName_of_mem {sep : String} (hnames : (names.map (·.1)).Nodup) (htop : v.parents = [])
    {name : String} (h : (v.qualified, name) ∈ names) :
    emittedName sep names v = name := by
  obtain ⟨d, ps⟩ := v
  obtain rfl : ps = [] := htop
  show (names.lookup _).getD "" = name
  rw [Visit.outermost, lookup_of_mem hnames h]
  rfl

private theorem nameOf?_ofNames {p : Policy} (hd : program.DistinctKept) (hnames : (names.map (·.1)).Nodup)
    (hv : v ∈ tops program) {name : String} (h : (v.qualified, name) ∈ names) :
    (ofNames p names program).nameOf? v = some name := by
  obtain ⟨hkept, htop⟩ := mem_filter.1 hv
  rw [nameOf?, (lookup_ofNames hd).2 ⟨v, hkept, rfl, rfl⟩, Option.map_some, entryOf,
    emittedName_of_mem hnames (List.isEmpty_iff.1 htop) h]

/-- The declarations that share a short name get `d` segments of their namespaces in front.  With fewer, two of them
would have the same name, or one would have the name of a declaration that is named before. -/
structure SmallestDepth (t : Table) (p : Policy) (top : List Visit) (short : String) (d : Nat) : Prop where
  pos : 1 ≤ d
  within : ∃ v ∈ groupOf top short, d ≤ (segments v).length
  names : ∀ v ∈ groupOf top short, t.nameOf? v = some (nameAt p short d v)
  smallest : ∀ d' < d,
    (∃ u ∈ groupOf top short, ∃ v ∈ groupOf top short, u ≠ v ∧ nameAt p short d' u = nameAt p short d' v) ∨
      ∃ u ∈ groupOf top short, ∃ w ∈ top, Precedes p top w short ∧ t.nameOf? w = some (nameAt p short d' u)

/-- Mangling uses the smallest depth that works, one for all declarations of a short name, and all other declarations
keep their short names. -/
theorem resolve_smallest_depth (program : Program) (policy : Policy) (t : Table)
    (hd : (program.visits.map (·.qualified)).Nodup) (ht : resolve program policy = .ok t) : let p := policy.completed
    let top := tops program
    (∀ short, 2 ≤ (groupOf top short).length → p.isUnmangled short = false → ∃ d, t.SmallestDepth p top short d) ∧
      ∀ v ∈ top, (groupOf top v.decl.name).length = 1 ∨ p.isUnmangled v.decl.name = true →
        t.nameOf? v = some (if p.isUnmangled v.decl.name then v.decl.name else p.identifier v.decl.name) := by
  intro p top
  have hkept : program.DistinctKept := Program.DistinctNames.kept hd
  obtain ⟨names, hnames, _, rfl⟩ := (resolve_eq_ok hkept).1 ht
  have hnamed : Named p top names := named_of_assignTop (hkept.sublist (filter_sublist.map _)) hnames
  have hname : ∀ v ∈ top, ∀ name, (v.qualified, name) ∈ names → (ofNames p names program).nameOf? v = some name :=
    fun v hv name h => nameOf?_ofNames hkept hnamed.distinct hv h
  refine ⟨fun short htwo _ => ?_, fun v hv hother => ?_⟩
  · obtain ⟨_, taken, d, hone, hle, _, hfirst, hgroup, htaken⟩ := hnamed.shared short htwo
    refine ⟨d, hone, exists_le_length hone hle, fun v hv => hname v (mem_groupOf.1 hv).1 _ (hgroup v hv), ?_⟩
    intro d' hlt
    by_cases hapart : Apart p short (groupOf top short) d'
    · have hpos : 1 ≤ d' := by
        by_contra hzero
        obtain rfl : d' = 0 := by omega
        exact not_apart_zero htwo hapart
      -- the names are distinct, so one of them is taken
      obtain ⟨u, hu, owner, howner⟩ : ∃ u ∈ groupOf top short, ∃ owner,
          taken.lookup (nameAt p short d' u) = some owner := by
        by_contra hnone
        refine hfirst d' hpos hlt ⟨hapart, fun u hu => ?_⟩
        by_contra htaken
        obtain ⟨owner, howner⟩ := Option.ne_none_iff_exists'.1 htaken
        exact hnone ⟨u, hu, owner, howner⟩
      obtain ⟨hmem, w, hw, rfl, hprecedes⟩ := htaken _ (mem_of_lookup howner)
      exact .inr ⟨u, hu, w, hw, hprecedes, hname w hw _ hmem⟩
    · obtain ⟨u, hu, v, hv, hns, heq⟩ := (isGroup_groupOf hd short).not_apart_iff.1 hapart
      exact .inl ⟨u, hu, v, hv, fun h => hns (congrArg Visit.ns h), heq⟩
  · have hgroup : v ∈ groupOf top v.decl.name := mem_groupOf.2 ⟨hv, rfl⟩
    have hsingle : (groupOf top v.decl.name).length = 1 := by
      rcases hother with hone | hunmangled
      · exact hone
      · have hpos := length_pos_of_mem hgroup
        by_contra hne
        rw [(hnamed.shared v.decl.name (by omega)).1] at hunmangled
        cases hunmangled
    obtain ⟨w, hw⟩ := length_eq_one_iff.1 hsingle
    obtain rfl : v = w := mem_singleton.1 (hw ▸ hgroup)
    exact hname v hv _ (hnamed.single v hw)

/-- An item in two stores, one of which would get the name of a third type with one segment; the last is called by a
reserved word. -/
def stores : Program :=
  { name := "Stores"
    declarations :=
      [.type { ns := "North.Sales", name := "Item" } {} [], .type { ns := "South.Stock", name := "Item" } {} [],
        .type { ns := "Shop", name := "SalesItem" } {} [], .type { ns := "Shop", name := "List" } {} []] }

/-- The items get two segments, since with one a name is taken. -/
theorem resolve_smallest_depth_stores : ∃ t, resolve stores { reserved := ["List"] } = .ok t ∧
      t.entries.map (·.name) = ["List_", "SalesItem", "SalesNorthItem", "StockSouthItem"] ∧
      (∃ d, t.SmallestDepth { reserved := ["List"] } (tops stores) "Item" d) ∧
      ∀ v ∈ tops stores, v.decl.name = "List" → t.nameOf? v = some "List_" := by
  have hnames : ((resolve stores { reserved := ["List"] }).toOption.map fun t => t.entries.map (·.name)) =
      some ["List_", "SalesItem", "SalesNorthItem", "StockSouthItem"] := by
    decide +kernel
  obtain ⟨t, ht, hnames⟩ := toOption_map_eq_some.1 hnames
  obtain ⟨hshared, hsingle⟩ := resolve_smallest_depth stores _ t (by decide +kernel) ht
  refine ⟨t, ht, hnames, hshared "Item" (by decide +kernel) rfl, fun v hv hname => ?_⟩
  have hlist := hsingle v hv
  rw [hname] at hlist
  exact hlist (.inl (by decide +kernel))

end Table

end Covenant.Naming
