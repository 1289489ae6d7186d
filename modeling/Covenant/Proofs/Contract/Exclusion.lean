import Mathlib.Data.List.Induction
import Covenant.Proofs.Contract.WellFormed

/-!
# What exclusion leaves

A declaration is selected if it is flagged, if a rule names it, or if its namespace is one of the given ones or lies
below one; it is covered if it or a declaration around it is selected.  Exclusion drops exactly the covered
declarations (`Program.visits_exclude`) and reports their names (`Program.perm_removed_exclude`).  The list of visits
determines the declarations (`visitsOf_bare_injective`), so nothing else is left or changed.  Two exclusions, one
after the other, come to one by the rules of both (`Program.exclude_exclude`).
-/

namespace Covenant.Contract

open List
open Text

/-- The declarations around this one, outermost first, and the declaration itself. -/
def Visit.chain (v : Visit) : List Declaration := v.parents ++ [v.decl]

namespace ExcludeRules

variable (rules : ExcludeRules)

/-- Why a declaration is dropped on its own account. -/
inductive Selects (v : Visit) : Prop
  | flagged : v.decl.isExcluded = true → Selects v
  | named : v.qualified ∈ rules.types → Selects v
  | located {ns : String} : ns ∈ rules.namespaces → v.ns = ns → Selects v
  | below {ns rest : String} : ns ∈ rules.namespaces → v.ns = ns ++ "." ++ rest → Selects v

/-- Among nested declarations, the outermost first, there is a selected one. -/
def Covers (chain : List Declaration) : Prop := ∃ u : Visit, u.chain <+: chain ∧ rules.Selects u

private theorem inNamespace_eq_true {ns : String} {outer : List String} :
    inNamespace ns outer = true ↔ ∃ o ∈ outer, ns = o ∨ ∃ rest, ns = o ++ "." ++ rest := by
  have hbelow : ∀ o, hasPrefix (o ++ ".") ns = true ↔ ∃ rest, ns = o ++ "." ++ rest := by
    intro o
    rw [hasPrefix, isPrefixOf_iff_prefix]
    constructor
    · rintro ⟨rest, h⟩
      refine ⟨String.ofList rest, String.toList_inj.1 ?_⟩
      rw [String.toList_append, String.toList_ofList, h]
    · rintro ⟨rest, rfl⟩
      exact ⟨rest.toList, (String.toList_append ..).symm⟩
  simp only [inNamespace, any_eq_true, Bool.or_eq_true, beq_iff_eq, hbelow]

private theorem drops_eq_true {v : Visit} : rules.drops v.ns v.path v.decl = true ↔ rules.Selects v := by
  rw [drops, Bool.or_eq_true, Bool.or_eq_true, inNamespace_eq_true, contains_iff_mem]
  constructor
  · rintro ((h | h) | ⟨o, ho, h | ⟨rest, h⟩⟩)
    · exact .flagged h
    · exact .named h
    · exact .located ho h
    · exact .below ho h
  · rintro (h | h | ⟨ho, h⟩ | ⟨ho, h⟩)
    · exact .inl (.inl h)
    · exact .inl (.inr h)
    · exact .inr ⟨_, ho, .inl h⟩
    · exact .inr ⟨_, ho, .inr ⟨_, h⟩⟩

private theorem not_covers_nil : ¬rules.Covers [] := by
  rintro ⟨u, hu, _⟩
  simp [Visit.chain] at hu

private theorem covers_chain {v : Visit} : rules.Covers v.chain ↔ rules.Covers v.parents ∨ rules.Selects v := by
  constructor
  · rintro ⟨u, hu, hs⟩
    rcases prefix_concat_iff.1 hu with h | h
    · obtain ⟨hparents, hdecl⟩ := append_inj' h rfl
      obtain ⟨d, ps⟩ := u
      obtain ⟨e, qs⟩ := v
      cases hparents
      cases hdecl
      exact .inr hs
    · exact .inl ⟨u, h, hs⟩
  · rintro (⟨u, hu, hs⟩ | hs)
    · exact ⟨u, hu.trans (prefix_append _ _), hs⟩
    · exact ⟨v, prefix_rfl, hs⟩

private theorem Covers.mono {chain chain' : List Declaration} (h : rules.Covers chain) (hc : chain <+: chain') :
    rules.Covers chain' := by
  obtain ⟨u, hu, hs⟩ := h
  exact ⟨u, hu.trans hc, hs⟩

instance (v : Visit) : Decidable (rules.Selects v) := decidable_of_iff _ rules.drops_eq_true

private theorem covers_iff_range {chain : List Declaration} : rules.Covers chain ↔
    ((List.range chain.length).any fun n => chain[n]?.any fun d => rules.Selects ⟨d, chain.take n⟩) = true := by
  simp only [any_eq_true, mem_range, Option.any_eq_true, decide_eq_true_eq]
  constructor
  · rintro ⟨⟨d, ps⟩, ⟨rest, rfl⟩, hs⟩
    exact ⟨ps.length, by simp [Visit.chain], d, by simp [Visit.chain], by simpa [Visit.chain] using hs⟩
  · rintro ⟨n, _, d, hd, hs⟩
    refine ⟨_, ?_, hs⟩
    rw [Visit.chain, ← Option.toList_some, ← hd, ← take_add_one]
    exact take_prefix _ _

instance (chain : List Declaration) : Decidable (rules.Covers chain) := decidable_of_iff _ rules.covers_iff_range.symm

end ExcludeRules

namespace Declaration

private theorem inductNested {P : Declaration → Prop} (step : ∀ d, (∀ n ∈ d.nested, P n) → P d) (d : Declaration) :
    P d :=
  step d fun n _ => inductNested step n
termination_by sizeOf d
decreasing_by
  rename_i hn
  have hlt := sizeOf_lt_of_mem hn
  cases d with
  | enum head members => cases hn
  | type head body nested =>
    simp only [Declaration.nested] at hlt
    simp only [Declaration.type.sizeOf_spec]
    omega

def withNested (nested : List Declaration) : Declaration → Declaration
  | enum head members => enum head members
  | type head body _ => type head body nested

private theorem bare_bare (d : Declaration) : d.bare.bare = d.bare := by cases d <;> rfl

@[simp] theorem bare_withNested (ds : List Declaration) (d : Declaration) : (d.withNested ds).bare = d.bare := by
  cases d <;> rfl

private theorem bare_injective {d d' : Declaration} (h : d.bare = d'.bare) (hn : d.nested = d'.nested) : d = d' := by
  cases d <;> cases d' <;> simp_all [bare, nested]

end Declaration

private theorem visitsOf_eq_flatMap (parents ds : List Declaration) :
    visitsOf parents ds = ds.flatMap (·.visits parents) := by
  induction ds with
  | nil => rfl
  | cons d ds ih => rw [visitsOf, ih, flatMap_cons]

namespace Visit

def inner (v : Visit) (d : Declaration) : Visit := { decl := d, parents := v.chain }

variable (v : Visit) (d : Declaration)

private theorem visits_eq : v.decl.visits v.parents = v :: v.decl.nested.flatMap (·.visits v.chain) := by
  obtain ⟨d, ps⟩ := v
  rw [← visitsOf_eq_flatMap]
  cases d <;> rfl

private theorem ns_inner : (v.inner d).ns = v.ns := by
  obtain ⟨e, ps⟩ := v
  cases ps <;> rfl

private theorem path_inner : (v.inner d).path = v.path ++ "." ++ d.name := by
  have hnames : (v.inner d).names = v.names ++ [d.name] := by simp [inner, names, chain]
  rw [path, path, hnames, Text.join, Text.join, String.intercalate_append_of_ne_nil (by simp [names]) (by simp),
    String.intercalate_singleton]

end Visit

private theorem Declaration.chain_prefix_of_mem_visits (d : Declaration) {parents : List Declaration} {v : Visit}
    (hv : v ∈ d.visits parents) : parents ++ [d] <+: v.chain := by
  induction d using inductNested generalizing parents with
  | step d ih =>
    rw [Visit.visits_eq ⟨d, parents⟩] at hv
    rcases mem_cons.1 hv with rfl | hv
    · exact prefix_rfl
    · obtain ⟨n, hn, hv⟩ := mem_flatMap.1 hv
      exact (prefix_append _ _).trans (ih n hn hv)

namespace Visit

/-- A declaration without what is nested in it, and how deep it stands. -/
def mark (v : Visit) : Declaration × Nat := (v.decl.bare, v.parents.length)

private theorem mark_bare (v : Visit) : v.bare.mark = v.mark := by simp [mark, Declaration.bare_bare]

private theorem marks_eq (v : Visit) :
    (v.decl.visits v.parents).map mark = v.mark :: (v.decl.nested.flatMap (·.visits v.chain)).map mark := by
  rw [v.visits_eq, map_cons]

private theorem lt_of_mem_marks {v : Visit} {m : Declaration × Nat}
    (hm : m ∈ (v.decl.nested.flatMap (·.visits v.chain)).map mark) : v.parents.length < m.2 := by
  obtain ⟨u, hu, rfl⟩ := mem_map.1 hm
  obtain ⟨n, _, hu⟩ := mem_flatMap.1 hu
  have hlength := (n.chain_prefix_of_mem_visits hu).length_le
  simp only [chain, length_append, length_singleton] at hlength
  simp only [mark]
  omega

end Visit

section

variable {k : Nat}

private theorem append_inj_of_depth {as as' bs bs' : List (Declaration × Nat)} (has : ∀ a ∈ as, k < a.2)
    (has' : ∀ a ∈ as', k < a.2) (hbs : ∀ b ∈ bs.head?, b.2 = k) (hbs' : ∀ b ∈ bs'.head?, b.2 = k)
    (h : as ++ bs = as' ++ bs') : as = as' ∧ bs = bs' := by
  have htake : ∀ as bs : List (Declaration × Nat), (∀ a ∈ as, k < a.2) → (∀ b ∈ bs.head?, b.2 = k) →
      (as ++ bs).takeWhile (fun a => decide (k < a.2)) = as := by
    intro as bs has hbs
    rw [takeWhile_append_of_pos (by simpa using has)]
    cases bs with
    | nil => simp
    | cons b bs => simp [hbs b rfl]
  have heq : as = as' := by rw [← htake as bs has hbs, h, htake as' bs' has' hbs']
  exact ⟨heq, append_cancel_left (heq ▸ h)⟩

private theorem head?_marks {parents ds : List Declaration} :
    ∀ m ∈ ((ds.flatMap (·.visits parents)).map Visit.mark).head?, m.2 = parents.length := by
  cases ds with
  | nil => simp
  | cons d ds => simp [Visit.visits_eq ⟨d, parents⟩, Visit.mark]

private theorem eq_of_marks {ds ds' parents parents' : List Declaration} (hk : parents.length = parents'.length)
    (hds : ∀ d ∈ ds, ∀ d' ps ps', ps.length = ps'.length →
      (d.visits ps).map Visit.mark = (d'.visits ps').map Visit.mark → d = d')
    (h : (ds.flatMap (·.visits parents)).map Visit.mark = (ds'.flatMap (·.visits parents')).map Visit.mark) :
    ds = ds' := by
  induction ds generalizing ds' with
  | nil => cases ds' with
    | nil => rfl
    | cons d' ds' => simp [Visit.visits_eq ⟨d', parents'⟩] at h
  | cons d ds ih => cases ds' with
    | nil => simp [Visit.visits_eq ⟨d, parents⟩] at h
    | cons d' ds' =>
      simp only [flatMap_cons, map_append, Visit.marks_eq ⟨d, parents⟩, Visit.marks_eq ⟨d', parents'⟩,
        cons_append, cons.injEq] at h
      obtain ⟨hnested, hrest⟩ := append_inj_of_depth (fun _ => Visit.lt_of_mem_marks)
        (fun _ hm => hk ▸ Visit.lt_of_mem_marks hm) head?_marks (hk ▸ head?_marks) h.2
      have hd : d = d' := by
        refine hds d (.head _) d' parents parents' hk ?_
        rw [Visit.marks_eq ⟨d, parents⟩, Visit.marks_eq ⟨d', parents'⟩, h.1, hnested]
      rw [hd, ih (fun e he => hds e (mem_cons_of_mem d he)) hrest]

private theorem Declaration.eq_of_marks (d d' : Declaration) {ps ps' : List Declaration} (hk : ps.length = ps'.length)
    (h : (d.visits ps).map Visit.mark = (d'.visits ps').map Visit.mark) : d = d' := by
  induction d using inductNested generalizing d' ps ps' with
  | step d ih =>
    rw [Visit.marks_eq ⟨d, ps⟩, Visit.marks_eq ⟨d', ps'⟩, cons.injEq] at h
    have hnested : d.nested = d'.nested :=
      Contract.eq_of_marks (by simp [Visit.chain, hk]) (fun n hn n' _ _ => ih n hn n') h.2
    exact bare_injective (congrArg Prod.fst h.1) hnested

end

/-- Declarations are determined by their bare visits. -/
theorem visitsOf_bare_injective {ds ds' : List Declaration}
    (h : (visitsOf [] ds).map Visit.bare = (visitsOf [] ds').map Visit.bare) : ds = ds' := by
  have hmarks := congrArg (List.map Visit.mark) h
  simp only [map_map, Function.comp_def, Visit.mark_bare, visitsOf_eq_flatMap] at hmarks
  exact eq_of_marks rfl (fun d _ d' _ _ => d.eq_of_marks d') hmarks

namespace ExcludeRules

variable (rules : ExcludeRules)

def left (vs : List Visit) : List Visit := vs.filter fun v => ¬rules.Covers v.chain

def gone (vs : List Visit) : List Visit := vs.filter fun v => rules.Covers v.chain

private theorem gone_flatMap {α : Type} (as : List α) (f : α → List Visit) :
    rules.gone (as.flatMap f) = as.flatMap fun a => rules.gone (f a) := filter_flatMap ..

private theorem left_flatMap {α : Type} (as : List α) (f : α → List Visit) :
    rules.left (as.flatMap f) = as.flatMap fun a => rules.left (f a) := filter_flatMap ..

private theorem removed_def (dropped : Bool) (v : Visit) :
    rules.removed dropped v.ns v.path v.decl =
      (if dropped || rules.drops v.ns v.path v.decl then [v.qualified] else []) ++
        v.decl.nested.flatMap fun n =>
          rules.removed (dropped || rules.drops v.ns v.path v.decl) (v.inner n).ns (v.inner n).path n := by
  have hall : ∀ dropped ds, rules.removedAll dropped v.ns v.path ds =
      ds.flatMap fun n => rules.removed dropped (v.inner n).ns (v.inner n).path n := by
    intro dropped ds
    induction ds with
    | nil => rfl
    | cons d ds ih => rw [removedAll, ih, flatMap_cons, v.ns_inner, v.path_inner]
  rw [← hall]
  obtain ⟨d, ps⟩ := v
  cases d with
  | enum head members => simp [removed, removedAll, Declaration.nested, Visit.qualified]
  | type head body nested => rfl

private theorem keep?_def (v : Visit) :
    rules.keep? v.ns v.path v.decl =
      if rules.drops v.ns v.path v.decl then none
      else some (v.decl.withNested
        (v.decl.nested.filterMap fun n => rules.keep? (v.inner n).ns (v.inner n).path n)) := by
  have hall : ∀ ds, rules.keepAll v.ns v.path ds =
      ds.filterMap fun n => rules.keep? (v.inner n).ns (v.inner n).path n := by
    intro ds
    induction ds with
    | nil => rfl
    | cons d ds ih =>
      rw [keepAll, ih, filterMap_cons, v.ns_inner, v.path_inner]
      cases rules.keep? v.ns (v.path ++ "." ++ d.name) d <;> rfl
  rw [← hall]
  obtain ⟨d, ps⟩ := v
  cases d with
  | enum head members => simp only [keep?, Declaration.withNested]
  | type head body nested => simp only [keep?, Declaration.withNested, Declaration.nested]

private theorem removed_eq (v : Visit) :
    rules.removed (rules.Covers v.parents) v.ns v.path v.decl =
      (rules.gone (v.decl.visits v.parents)).map (·.qualified) := by
  obtain ⟨d, ps⟩ := v
  induction d using Declaration.inductNested generalizing ps with
  | step d ih =>
    set v : Visit := ⟨d, ps⟩
    have hcovers : (decide (rules.Covers v.parents) || rules.drops v.ns v.path v.decl) =
        decide (rules.Covers v.chain) := by
      rw [Bool.eq_iff_iff, Bool.or_eq_true, decide_eq_true_eq, decide_eq_true_eq, covers_chain, drops_eq_true]
    rw [removed_def, hcovers, v.visits_eq, gone, filter_cons]
    change _ = List.map _ (if _ then v :: rules.gone _ else rules.gone _)
    have hnested : ∀ n ∈ d.nested, rules.removed (rules.Covers v.chain) (v.inner n).ns (v.inner n).path n =
        (rules.gone (n.visits v.chain)).map (·.qualified) := fun n hn => ih n hn v.chain
    rw [gone_flatMap, flatMap_congr hnested, ← map_flatMap]
    split <;> rfl

private theorem visits_keep? (v : Visit) (hv : ¬rules.Covers v.parents) {parents : List Declaration}
    (hp : parents.map Declaration.bare = v.parents.map Declaration.bare) :
    ((rules.keep? v.ns v.path v.decl).toList.flatMap (·.visits parents)).map Visit.bare =
      (rules.left (v.decl.visits v.parents)).map Visit.bare := by
  obtain ⟨d, ps⟩ := v
  induction d using Declaration.inductNested generalizing ps parents with
  | step d ih =>
    set v : Visit := ⟨d, ps⟩
    by_cases hs : rules.Selects v
    · -- everything below a selected declaration is covered
      have hleft : rules.left (v.decl.visits v.parents) = [] := by
        refine filter_eq_nil_iff.2 fun u hu => ?_
        have hcovers := (rules.covers_chain.2 (.inr hs)).mono rules (d.chain_prefix_of_mem_visits hu)
        simpa using hcovers
      rw [keep?_def, if_pos (rules.drops_eq_true.2 hs), hleft]
      rfl
    · have hchain : ¬rules.Covers v.chain := fun h => (rules.covers_chain.1 h).elim hv hs
      -- `w` is what is left of `v`: it says the same, with fewer declarations inside
      set kept := d.nested.filterMap fun n => rules.keep? (v.inner n).ns (v.inner n).path n
      set w : Visit := ⟨d.withNested kept, parents⟩
      have hw : w.bare = v.bare := by simp [Visit.bare, w, v, hp]
      have hwchain : w.chain.map Declaration.bare = v.chain.map Declaration.bare := by
        rw [Visit.chain, Visit.chain, map_append, map_append, hp]
        simp [w, v]
      have hnested : (d.withNested kept).nested = kept := by
        cases d <;> rfl
      rw [keep?_def, if_neg fun h => hs (rules.drops_eq_true.1 h), Option.toList_some, flatMap_singleton,
        show (v.decl.withNested kept).visits parents = _ from w.visits_eq, show w.decl.nested = kept from hnested,
        v.visits_eq, left, filter_cons_of_pos (by simpa using hchain), map_cons, map_cons, hw]
      congr 1
      change _ = (rules.left _).map Visit.bare
      have hkept : kept = d.nested.flatMap fun n => (rules.keep? (v.inner n).ns (v.inner n).path n).toList :=
        filterMap_eq_flatMap_toList ..
      rw [left_flatMap, hkept, flatMap_assoc, map_flatMap, map_flatMap]
      exact flatMap_congr fun n hn => ih n hn v.chain hchain hwchain

end ExcludeRules

namespace Program

variable (p : Program) (rules : ExcludeRules)

/-- Exclusion leaves the visits that are not covered, in their order. -/
theorem visits_exclude : (p.exclude rules).1.visits.map Visit.bare = (rules.left p.visits).map Visit.bare := by
  have hkept :
      (p.exclude rules).1.declarations = p.declarations.flatMap fun d => (rules.keep? d.ns d.name d).toList :=
    filterMap_eq_flatMap_toList ..
  rw [visits, visits, visitsOf_eq_flatMap, visitsOf_eq_flatMap, hkept, ExcludeRules.left_flatMap, flatMap_assoc,
    map_flatMap, map_flatMap]
  exact flatMap_congr fun d _ => rules.visits_keep? ⟨d, []⟩ rules.not_covers_nil rfl

/-- The names of all covered declarations are reported. -/
theorem perm_removed_exclude : (p.exclude rules).2.Perm ((rules.gone p.visits).map (·.qualified)) := by
  refine (perm_sortBy _ _).trans (.of_eq ?_)
  rw [visits, visitsOf_eq_flatMap, ExcludeRules.gone_flatMap, map_flatMap]
  refine flatMap_congr fun d _ => ?_
  rw [← rules.removed_eq ⟨d, []⟩, decide_eq_false rules.not_covers_nil]
  rfl

variable {p rules}

theorem exists_of_mem_visits_exclude {v : Visit} (hv : v ∈ (p.exclude rules).1.visits) :
    ∃ u ∈ p.visits, ¬rules.Covers u.chain ∧ u.bare = v.bare := by
  have hbare := mem_map_of_mem (f := Visit.bare) hv
  rw [visits_exclude] at hbare
  obtain ⟨u, hu, heq⟩ := mem_map.1 hbare
  obtain ⟨hu, hleft⟩ := mem_filter.1 hu
  exact ⟨u, hu, by simpa using hleft, heq⟩

private theorem exists_mem_visits_exclude {u : Visit} (hu : u ∈ p.visits) (hleft : ¬rules.Covers u.chain) :
    ∃ v ∈ (p.exclude rules).1.visits, v.bare = u.bare := by
  have hmem : u ∈ rules.left p.visits := mem_filter.2 ⟨hu, decide_eq_true hleft⟩
  rw [← mem_map, visits_exclude]
  exact mem_map_of_mem hmem

theorem visits_exclude_sublist (p : Program) (rules : ExcludeRules) :
    ((p.exclude rules).1.visits.map Visit.bare).Sublist (p.visits.map Visit.bare) := by
  rw [visits_exclude]
  exact filter_sublist.map _

private theorem nodup_visits_exclude (hd : p.DistinctNames) (rules : ExcludeRules) :
    (p.exclude rules).1.DistinctNames := by
  have hsublist := (p.visits_exclude_sublist rules).map (·.qualified)
  simp only [map_map, Function.comp_def, Visit.qualified_bare] at hsublist
  exact hd.sublist hsublist

private theorem remote_exclude {q : String} (h : ∃ v ∈ p.visits, v.qualified = q ∧ v.decl.isRemote = true)
    (hq : q ∉ (p.exclude rules).2) :
    ∃ v ∈ (p.exclude rules).1.visits, v.qualified = q ∧ v.decl.isRemote = true := by
  obtain ⟨u, hu, rfl, hremote⟩ := h
  have hleft : ¬rules.Covers u.chain := by
    intro hcovers
    refine hq ((p.perm_removed_exclude rules).mem_iff.2 (mem_map_of_mem ?_))
    exact mem_filter.2 ⟨hu, decide_eq_true hcovers⟩
  obtain ⟨v, hv, heq⟩ := exists_mem_visits_exclude hu hleft
  refine ⟨v, hv, ?_, ?_⟩
  · rw [← v.qualified_bare, heq, u.qualified_bare]
  · rw [← v.decl.isRemote_bare, ← Visit.decl_bare, heq, Visit.decl_bare, u.decl.isRemote_bare, hremote]

/-- What is left of a valid program is valid. -/
theorem validate_exclude (h : p.validate = .ok ()) (rules : ExcludeRules) :
    (p.exclude rules).1.validate = .ok () := by
  obtain ⟨hname, hvisits, haliases⟩ := validate_eq_ok.1 h
  obtain ⟨hd, _, hchecked⟩ := checkVisits_eq_ok.1 hvisits
  obtain ⟨hkeys, hpaths, _⟩ := (checkAliases_iff hd).1 haliases
  have hd' := nodup_visits_exclude hd rules
  have hdistinct := distinctAliases_exclude (distinctAliases_of_validate h) rules
  refine validate_eq_ok.2 ⟨hname, checkVisits_eq_ok.2 ⟨hd', by simp, fun v hv => ?_⟩,
    (checkAliases_iff hd').2 ⟨fun q hq => ?_, fun q a ha => ⟨?_, fun v hv hremote => ?_⟩, ?_⟩⟩
  · obtain ⟨u, hu, _, heq⟩ := exists_of_mem_visits_exclude hv
    rw [← v.checked_bare, ← heq, u.checked_bare]
    exact hchecked u hu
  · rw [aliasKeys, mem_sortedSet, aliases_exclude] at hq
    obtain ⟨a, ha, rfl⟩ := mem_map.1 hq
    obtain ⟨ha, hkept⟩ := mem_filter.1 ha
    refine remote_exclude (hkeys a.1 ?_) (by simpa using hkept)
    rw [aliasKeys, mem_sortedSet]
    exact mem_map_of_mem ha
  · exact (hpaths q a (mem_aliasesOf_exclude ha)).1
  · obtain ⟨u, hu, _, heq⟩ := exists_of_mem_visits_exclude hv
    rw [← v.qualified_bare, ← heq, u.qualified_bare]
    refine (hpaths q a (mem_aliasesOf_exclude ha)).2 u hu ?_
    rw [← u.decl.isRemote_bare, ← Visit.decl_bare, heq, Visit.decl_bare, v.decl.isRemote_bare, hremote]
  · refine nodup_flatMap.2 ⟨fun q _ => hdistinct.nodup q, (nodup_sortedSet _).imp fun hne a ha ha' => ?_⟩
    exact hne (hdistinct.owner ha ha')

/-- Exclusion takes away the covered declarations with their aliases and nothing else: what it leaves is the only list
of declarations whose visits are those that are not covered, and it reports the others in order.  A valid program
stays valid. -/
theorem exclude_leaves_uncovered (p : Program) (rules : ExcludeRules) :
    (∀ ds, ds = (p.exclude rules).1.declarations ↔
      (visitsOf [] ds).map Visit.bare = (p.visits.filter fun v => ¬rules.Covers v.chain).map Visit.bare) ∧
    (p.exclude rules).1.name = p.name ∧ (p.exclude rules).1.version = p.version ∧
    (p.exclude rules).2.Perm ((p.visits.filter fun v => rules.Covers v.chain).map (·.qualified)) ∧
    (p.exclude rules).2.Pairwise (· ≤ ·) ∧
    (p.exclude rules).1.aliases = p.aliases.filter (fun a => a.1 ∉ (p.exclude rules).2) ∧
    (p.validate = .ok () → (p.exclude rules).1.validate = .ok ()) := by
  refine ⟨fun ds => ⟨?_, fun h => ?_⟩, rfl, rfl, p.perm_removed_exclude rules, pairwise_sortBy_key id _,
    aliases_exclude p rules, fun h => validate_exclude h rules⟩
  · rintro rfl
    exact p.visits_exclude rules
  · exact visitsOf_bare_injective (h.trans (p.visits_exclude rules).symm)

/-- A shop.  Orders hold their lines, and a line its unit; a report has a short name, and what is internal is not for
clients. -/
def shop : Program :=
  { name := "Shop", version := "1.0.0", aliases := [("Sales.Report", ["report"]), ("Shop.Internal.Reset", ["reset"])]
    declarations := [
      .type { ns := "Sales", name := "Order" } {} [
        .type { name := "Line", excluded := true } {}
          [.enum { name := "Unit" } [some { name := "Piece", value := 1 }]],
        .type { ns := "Sales", name := "Note" } {} []],
      .type { ns := "Sales", name := "Report" } { kind := .command } [],
      .type { ns := "Shop.Internal", name := "Reset" } { kind := .command } [],
      .type { ns := "Shop.InternalApi", name := "Ping" } { kind := .query, result := some (.named "bool") } []] }

/-- The shop loses four declarations, by all three causes. -/
theorem exclude_leaves_uncovered_shop :
    shop.validate = .ok () ∧
      (shop.exclude ⟨["Shop.Internal"], ["Sales.Order.Note"]⟩).2 =
        ["Sales.Order.Line", "Sales.Order.Line.Unit", "Sales.Order.Note", "Shop.Internal.Reset"] ∧
      (shop.exclude ⟨["Shop.Internal"], ["Sales.Order.Note"]⟩).1.validate = .ok () := by
  have hvalid : shop.validate = .ok () := by decide +kernel
  exact ⟨hvalid, by decide +kernel, (exclude_leaves_uncovered shop _).2.2.2.2.2.2 hvalid⟩

end Program

namespace ExcludeRules

instance : Append ExcludeRules :=
  ⟨fun r r' => { namespaces := r.namespaces ++ r'.namespaces, types := r.types ++ r'.types }⟩

variable {rules rules' : ExcludeRules}

private theorem Selects.mono {v : Visit} (h : rules.Selects v) (hns : rules.namespaces ⊆ rules'.namespaces)
    (htypes : rules.types ⊆ rules'.types) : rules'.Selects v := by
  rcases h with h | h | ⟨ho, h⟩ | ⟨ho, h⟩
  · exact .flagged h
  · exact .named (htypes h)
  · exact .located (hns ho) h
  · exact .below (hns ho) h

private theorem selects_append {v : Visit} : (rules ++ rules').Selects v ↔ rules.Selects v ∨ rules'.Selects v := by
  constructor
  · rintro (h | h | ⟨ho, h⟩ | ⟨ho, h⟩)
    · exact .inl (.flagged h)
    · exact (mem_append.1 h).imp .named .named
    · exact (mem_append.1 ho).imp (.located · h) (.located · h)
    · exact (mem_append.1 ho).imp (.below · h) (.below · h)
  · rintro (h | h)
    · exact h.mono (subset_append_left _ _) (subset_append_left _ _)
    · exact h.mono (subset_append_right _ _) (subset_append_right _ _)

private theorem covers_append {chain : List Declaration} :
    (rules ++ rules').Covers chain ↔ rules.Covers chain ∨ rules'.Covers chain := by
  simp only [Covers, selects_append, and_or_left, exists_or]

private theorem covers_bare (v : Visit) : rules.Covers v.bare.chain ↔ rules.Covers v.chain := by
  have hselects : ∀ u : Visit, rules.Selects u.bare ↔ rules.Selects u := by
    intro u
    simp only [← drops_eq_true, drops, Visit.decl_bare, Declaration.isExcluded_bare, Visit.ns_bare, Visit.path_bare]
  obtain ⟨d, ps⟩ := v
  induction ps using reverseRecOn generalizing d with
  | nil =>
    rw [covers_chain, covers_chain, hselects]
    rfl
  | append_singleton ps e ih =>
    have hparents : (⟨d, ps ++ [e]⟩ : Visit).bare.parents = (⟨e, ps⟩ : Visit).bare.chain := by
      simp [Visit.chain, Visit.bare]
    rw [covers_chain, covers_chain, hselects, hparents]
    exact or_congr_left (ih e)

private theorem left_left (vs : List Visit) : rules'.left (rules.left vs) = (rules ++ rules').left vs := by
  rw [left, left, left, filter_filter]
  refine filter_congr fun v _ => ?_
  rw [← Bool.decide_and, decide_eq_decide, covers_append, not_or, and_comm]

private theorem gone_append_gone (vs : List Visit) :
    (rules.gone vs ++ rules'.gone (rules.left vs)).Perm ((rules ++ rules').gone vs) := by
  have hfirst : ((rules ++ rules').gone vs).filter (fun v => rules.Covers v.chain) = rules.gone vs := by
    rw [gone, gone, filter_filter]
    refine filter_congr fun v _ => ?_
    rw [← Bool.decide_and, decide_eq_decide, covers_append, and_iff_left_of_imp Or.inl]
  have hrest : ((rules ++ rules').gone vs).filter (fun v => !rules.Covers v.chain) = rules'.gone (rules.left vs) := by
    rw [gone, gone, left, filter_filter, filter_filter]
    refine filter_congr fun v _ => ?_
    rw [← decide_not, ← Bool.decide_and, ← Bool.decide_and, decide_eq_decide, covers_append]
    tauto
  rw [← hfirst, ← hrest]
  exact filter_append_perm _ _

end ExcludeRules

namespace Program

variable (p : Program) (rules rules' : ExcludeRules)

private theorem removed_exclude : (p.exclude rules).2 = sorted ((rules.gone p.visits).map (·.qualified)) := by
  rw [← sorted_eq_of_perm (p.perm_removed_exclude rules)]
  exact (sorted_eq_of_perm (perm_sortBy _ _)).symm

/-- What exclusion leaves of a program is determined by its name and version, by the visits that are not covered and
by the aliases that are left. -/
theorem exclude_eq {p q : Program} {rules rules' : ExcludeRules} (hname : p.name = q.name)
    (hversion : p.version = q.version)
    (hvisits : (rules.left p.visits).map Visit.bare = (rules'.left q.visits).map Visit.bare)
    (haliases : (p.exclude rules).1.aliases = (q.exclude rules').1.aliases) :
    (p.exclude rules).1 = (q.exclude rules').1 := by
  refine (Program.mk.injEq ..).mpr ⟨hname, hversion, haliases, visitsOf_bare_injective ?_⟩
  exact (p.visits_exclude rules).trans (hvisits.trans (q.visits_exclude rules').symm)

private theorem exclude_congr {rules rules' : ExcludeRules} (h : ∀ v, rules.Selects v ↔ rules'.Selects v) :
    p.exclude rules = p.exclude rules' := by
  have hcovers : ∀ chain, rules.Covers chain ↔ rules'.Covers chain :=
    fun chain => by simp only [ExcludeRules.Covers, h]
  have hleft : rules.left p.visits = rules'.left p.visits := by simp only [ExcludeRules.left, hcovers]
  have hgone : rules.gone p.visits = rules'.gone p.visits := by simp only [ExcludeRules.gone, hcovers]
  have hremoved : (p.exclude rules).2 = (p.exclude rules').2 := by rw [removed_exclude, removed_exclude, hgone]
  refine Prod.ext (exclude_eq rfl rfl (by rw [hleft]) ?_) hremoved
  rw [aliases_exclude, aliases_exclude, hremoved]

private theorem filter_visits_exclude {P : Visit → Bool} (hP : ∀ v, P v.bare = P v) :
    ((p.exclude rules).1.visits.filter P).map Visit.bare = ((rules.left p.visits).filter P).map Visit.bare := by
  rw [map_filter_bare hP, map_filter_bare hP, visits_exclude]

private theorem left_exclude :
    (rules'.left (p.exclude rules).1.visits).map Visit.bare = ((rules ++ rules').left p.visits).map Visit.bare := by
  rw [← ExcludeRules.left_left]
  exact p.filter_visits_exclude rules fun v => by simp only [ExcludeRules.covers_bare]

private theorem gone_exclude : (rules'.gone (p.exclude rules).1.visits).map (·.qualified) =
    (rules'.gone (rules.left p.visits)).map (·.qualified) := by
  have hbare : (rules'.gone (p.exclude rules).1.visits).map Visit.bare =
      (rules'.gone (rules.left p.visits)).map Visit.bare :=
    p.filter_visits_exclude rules fun v => by simp only [ExcludeRules.covers_bare]
  simpa [Function.comp_def] using congrArg (List.map (·.qualified)) hbare

private theorem perm_removed_append :
    ((p.exclude rules).2 ++ ((p.exclude rules).1.exclude rules').2).Perm (p.exclude (rules ++ rules')).2 := by
  have hsecond := (p.exclude rules).1.perm_removed_exclude rules'
  rw [gone_exclude] at hsecond
  refine ((p.perm_removed_exclude rules).append hsecond).trans ?_
  rw [← map_append]
  exact (ExcludeRules.gone_append_gone _).map _ |>.trans (p.perm_removed_exclude _).symm

private theorem exclude_append :
    ((p.exclude rules).1.exclude rules').1 = (p.exclude (rules ++ rules')).1 := by
  refine exclude_eq rfl rfl (p.left_exclude rules rules') ?_
  rw [aliases_exclude, aliases_exclude, aliases_exclude, filter_filter]
  refine filter_congr fun a _ => ?_
  rw [← Bool.decide_and, decide_eq_decide, ← (p.perm_removed_append rules rules').mem_iff, mem_append, not_or,
    and_comm]

/-- Excluding by some rules and then by others is excluding by both at once: it leaves the same program, and the names
that are reported are the same in all.  So excluding again by the same rules changes nothing, and neither the order in
which rules are used nor the order in which they are given matters. -/
theorem exclude_exclude (p : Program) (rules rules' : ExcludeRules) :
    ((p.exclude rules).1.exclude rules').1 = (p.exclude (rules ++ rules')).1 ∧
      sorted ((p.exclude rules).2 ++ ((p.exclude rules).1.exclude rules').2) = (p.exclude (rules ++ rules')).2 ∧
      (p.exclude rules).1.exclude rules = ((p.exclude rules).1, []) ∧
      ((p.exclude rules).1.exclude rules').1 = ((p.exclude rules').1.exclude rules).1 ∧
      ∀ given : ExcludeRules, given.namespaces.Perm rules.namespaces → given.types.Perm rules.types →
        p.exclude given = p.exclude rules := by
  have hsame : p.exclude (rules ++ rules) = p.exclude rules := p.exclude_congr fun v => by
    rw [ExcludeRules.selects_append, or_self]
  have hswap : p.exclude (rules ++ rules') = p.exclude (rules' ++ rules) := p.exclude_congr fun v => by
    rw [ExcludeRules.selects_append, ExcludeRules.selects_append, or_comm]
  refine ⟨p.exclude_append rules rules', ?_, Prod.ext ?_ ?_, ?_, fun given hns htypes => ?_⟩
  · rw [sorted_eq_of_perm (p.perm_removed_append rules rules')]
    exact sorted_eq_of_perm (perm_sortBy _ _)
  · rw [exclude_append, hsame]
  · -- nothing that is left is covered
    have hlength := (p.perm_removed_append rules rules).length_eq
    rw [hsame, length_append] at hlength
    exact length_eq_zero_iff.1 (by omega)
  · rw [exclude_append, exclude_append, hswap]
  · exact p.exclude_congr fun v =>
      ⟨fun h => h.mono hns.subset htypes.subset, fun h => h.mono hns.symm.subset htypes.symm.subset⟩

/-- Of a shop without its notes and what is internal, the sales are taken away. -/
theorem exclude_exclude_shop :
    ((shop.exclude ⟨["Shop.Internal"], ["Sales.Order.Note"]⟩).1.exclude ⟨["Sales"], []⟩).2 =
        ["Sales.Order", "Sales.Report"] ∧
      (shop.exclude ⟨["Shop.Internal", "Sales"], ["Sales.Order.Note"]⟩).2 =
        ["Sales.Order", "Sales.Order.Line", "Sales.Order.Line.Unit", "Sales.Order.Note", "Sales.Report",
          "Shop.Internal.Reset"] ∧
      shop.exclude ⟨["Sales", "Shop.Internal"], ["Sales.Order.Note"]⟩ =
        shop.exclude ⟨["Shop.Internal", "Sales"], ["Sales.Order.Note"]⟩ := by
  obtain ⟨_, hremoved, _⟩ := exclude_exclude shop ⟨["Shop.Internal"], ["Sales.Order.Note"]⟩ ⟨["Sales"], []⟩
  have hsecond : ((shop.exclude ⟨["Shop.Internal"], ["Sales.Order.Note"]⟩).1.exclude ⟨["Sales"], []⟩).2 =
      ["Sales.Order", "Sales.Report"] := by decide +kernel
  refine ⟨hsecond, ?_, ?_⟩
  · refine hremoved.symm.trans ?_
    rw [hsecond]
    decide +kernel
  · exact (exclude_exclude shop ⟨["Shop.Internal", "Sales"], ["Sales.Order.Note"]⟩ {}).2.2.2.2 _ (.swap ..) (.refl _)

end Program

end Covenant.Contract
