import Mathlib.Data.List.Pairwise
import Covenant.Contract.Validate
import Covenant.Proofs.Contract.Reordering
import Covenant.Proofs.Outcome

/-!
# What validation guarantees

A program is valid if its qualified names are distinct, if every declaration passes checks that look at nothing but
the declaration and those around it, and if its aliases are fine.  None of this depends on the order of declarations.
-/

namespace Covenant.Contract

open Outcome
open List
open Text

/-- The declaration passes the checks that concern it alone. -/
def Visit.Checked (v : Visit) : Prop := checkEnclosing v = .ok () ∧ checkDeclaration v.qualified v.decl = .ok ()

variable {p : Program}

/-- Visits pass if each passes by itself and their names are new and distinct. -/
theorem checkVisits_eq_ok {seen : List String} {vs : List Visit} :
    checkVisits seen vs = .ok () ↔
      (vs.map (·.qualified)).Nodup ∧ (∀ v ∈ vs, v.qualified ∉ seen) ∧ ∀ v ∈ vs, v.Checked := by
  induction vs generalizing seen with
  | nil => simp [checkVisits]
  | cons v vs ih =>
    simp only [checkVisits, bind_eq_ok, throwIf_eq_ok, ih, map_cons, nodup_cons, mem_cons, mem_map,
      contains_eq_mem, decide_eq_true_eq, not_or, forall_eq_or_imp]
    constructor
    · rintro ⟨hv, _, henclosing, _, hdecl, hnodup, hseen, hchecked⟩
      refine ⟨⟨?_, hnodup⟩, ⟨hv, fun w hw => (hseen w hw).2⟩, ⟨henclosing, hdecl⟩, hchecked⟩
      rintro ⟨w, hw, heq⟩
      exact (hseen w hw).1 heq
    · rintro ⟨⟨hne, hnodup⟩, ⟨hv, hseen⟩, ⟨henclosing, hdecl⟩, hchecked⟩
      exact ⟨hv, (), henclosing, (), hdecl, hnodup, fun w hw => ⟨fun heq => hne ⟨w, hw, heq⟩, hseen w hw⟩, hchecked⟩

theorem Visit.checked_bare (v : Visit) : v.bare.Checked ↔ v.Checked := by
  have henclosing : checkEnclosing v.bare = checkEnclosing v := by
    rw [checkEnclosing, checkEnclosing, parent?, parent?, parents_bare, getLast?_map]
    cases v.parents.getLast? <;> simp
  have hdecl : checkDeclaration v.bare.qualified v.bare.decl = checkDeclaration v.qualified v.decl := by
    rw [qualified_bare, decl_bare]
    cases v.decl <;> rfl
  rw [Checked, Checked, henclosing, hdecl]

theorem Program.nodup_of_validate (h : p.validate = .ok ()) : p.DistinctNames := by
  simp only [Program.validate, bind_eq_ok, throwIf_eq_ok] at h
  obtain ⟨_, _, hvisits, _⟩ := h
  exact (checkVisits_eq_ok.1 hvisits).1

namespace Program.Reordered

variable {p p' : Program}

private theorem isRemote_visit? (h : p.Reordered p') (hd : p.DistinctNames) (q : String) :
    (p.visit? q).map (·.decl.isRemote) = (p'.visit? q).map (·.decl.isRemote) := by
  have := congrArg (Option.map fun v : Visit => v.decl.isRemote) (h.visit? hd q)
  simpa [Option.map_map, Function.comp_def] using this

private theorem checkAliases (h : p.Reordered p') (hd : p.DistinctNames) (taken : List (String × String))
    (keys : List String) : Contract.checkAliases p taken keys = Contract.checkAliases p' taken keys := by
  induction keys generalizing taken with
  | nil => rfl
  | cons key keys ih =>
    have haliases : p'.aliasesOf key = p.aliasesOf key := by
      obtain ⟨_, _, rfl⟩ := h
      rfl
    have hremote := h.isRemote_visit? hd key
    rw [Contract.checkAliases, Contract.checkAliases, haliases]
    cases hv : p.visit? key with
    | none =>
      rw [hv] at hremote
      rw [Option.map_eq_none_iff.1 hremote.symm]
    | some v =>
      rw [hv] at hremote
      obtain ⟨v', hv', heq⟩ := Option.map_eq_some_iff.1 hremote.symm
      rw [hv']
      simp only [heq, ih]

private theorem remoteNames (h : p.Reordered p') (hd : p.DistinctNames) :
    p.remoteNames = p'.remoteNames := by
  rw [Program.remoteNames, Program.remoteNames, h.qualifiedNames]
  congr 1
  funext q
  have hany : ∀ p : Program, (p.visit? q).any (·.decl.isRemote) = ((p.visit? q).map (·.decl.isRemote)).any id := by
    intro p
    cases p.visit? q <;> rfl
  rw [hany, hany, h.isRemote_visit? hd q]

/-- Reordered programs are valid together. -/
theorem validate (h : p.Reordered p') (hv : p.validate = .ok ()) : p'.validate = .ok () := by
  have hd := nodup_of_validate hv
  have haliases := h.checkAliases hd
  have hremote := h.remoteNames hd
  simp only [Program.validate, bind_eq_ok, throwIf_eq_ok] at hv ⊢
  obtain ⟨hname, _, hvisits, hrest⟩ := hv
  have hvisits' : checkVisits [] p'.visits = .ok () := by
    have hchecked := (checkVisits_eq_ok.1 hvisits).2.2
    refine checkVisits_eq_ok.2 ⟨h.nodup_qualified hd, by simp, fun v' hv' => ?_⟩
    obtain ⟨v, hv, heq⟩ := mem_map.1 (h.visits.mem_iff.2 (mem_map_of_mem hv'))
    rw [← v'.checked_bare, ← heq, v.checked_bare]
    exact hchecked v hv
  rw [hremote] at hrest
  obtain ⟨ds, _, rfl⟩ := h
  refine ⟨hname, (), hvisits', ?_⟩
  rw [← haliases]
  exact hrest

end Program.Reordered

/-- Every alias is listed once, for one declaration. -/
structure Program.DistinctAliases (p : Program) : Prop where
  nodup : ∀ q, (p.aliasesOf q).Nodup
  owner : ∀ {a q q' : String}, a ∈ p.aliasesOf q → a ∈ p.aliasesOf q' → q = q'

private theorem claimAliases_eq_ok {decl : String} {taken taken' : List (String × String)} {aliases : List String} :
    claimAliases decl taken aliases = .ok taken' ↔
      aliases.Nodup ∧ (∀ a ∈ aliases, aliasDefect? a = none ∧ a ∉ taken.map (·.1)) ∧
        taken' = aliases.reverse.map (·, decl) ++ taken := by
  induction aliases generalizing taken with
  | nil => simp [claimAliases, eq_comm]
  | cons a aliases ih =>
    rw [claimAliases]
    split
    · rename_i hdefect
      simp [hdefect]
    · rename_i hdefect hfound
      have hmem : a ∈ taken.map (·.1) := by
        by_contra hmem
        rw [Text.lookup_eq_none_iff.2 hmem] at hfound
        cases hfound
      refine iff_of_false (by simp) fun h => ?_
      exact (h.2.1 a (.head _)).2 hmem
    · rename_i hdefect hfree
      have hfree := Text.lookup_eq_none_iff.1 hfree
      rw [ih, nodup_cons, reverse_cons, map_append, append_assoc]
      simp only [map_cons, mem_cons, not_or, forall_eq_or_imp]
      constructor
      · rintro ⟨hnodup, hnew, rfl⟩
        refine ⟨⟨fun ha => (hnew a ha).2.1 rfl, hnodup⟩, ⟨⟨hdefect, hfree⟩, fun b hb => ?_⟩, rfl⟩
        exact ⟨(hnew b hb).1, (hnew b hb).2.2⟩
      · rintro ⟨⟨ha, hnodup⟩, ⟨_, hnew⟩, rfl⟩
        refine ⟨hnodup, fun b hb => ⟨(hnew b hb).1, fun heq => ha (heq ▸ hb), (hnew b hb).2⟩, rfl⟩

/-- Aliases pass if their keys are remote declarations and they can be wire names, all of them new and distinct. -/
theorem checkAliases_eq_ok {taken : List (String × String)} {keys : List String} :
    checkAliases p taken keys = .ok () ↔
      (∀ q ∈ keys, ∃ v, p.visit? q = some v ∧ v.decl.isRemote = true) ∧
        (∀ a ∈ keys.flatMap p.aliasesOf, aliasDefect? a = none ∧ a ∉ taken.map (·.1)) ∧
        (keys.flatMap p.aliasesOf).Nodup := by
  induction keys generalizing taken with
  | nil => simp [checkAliases]
  | cons key keys ih =>
    rw [checkAliases]
    cases hv : p.visit? key with
    | none => simp [hv]
    | some v =>
      by_cases hremote : v.decl.isRemote = true
      · simp only [hremote, ↓reduceIte, bind_eq_ok, claimAliases_eq_ok, ih, flatMap_cons, nodup_append,
          forall_mem_cons, forall_mem_append, hv, Option.some.injEq, exists_eq_left', true_and]
        constructor
        · rintro ⟨_, ⟨hnodup, hnew, rfl⟩, hkeys, hrest, hdistinct⟩
          simp only [map_append, map_map, mem_append, Function.comp_def, map_id', mem_reverse,
            not_or] at hrest
          refine ⟨hkeys, ⟨hnew, fun a ha => ⟨(hrest a ha).1, (hrest a ha).2.2⟩⟩, hnodup, hdistinct, ?_⟩
          rintro a ha b hb rfl
          exact (hrest a hb).2.1 ha
        · rintro ⟨hkeys, ⟨hnew, hrest⟩, hnodup, hdistinct, hapart⟩
          refine ⟨_, ⟨hnodup, hnew, rfl⟩, hkeys, fun a ha => ⟨(hrest a ha).1, ?_⟩, hdistinct⟩
          simp only [map_append, map_map, mem_append, Function.comp_def, map_id', mem_reverse,
            not_or]
          exact ⟨fun ha' => hapart a ha' a ha rfl, (hrest a ha).2⟩
      · simp [hremote, hv]

theorem Program.mem_aliasKeys {a q : String} (h : a ∈ p.aliasesOf q) : q ∈ p.aliasKeys := by
  rw [aliasKeys, mem_sortedSet]
  by_contra hq
  rw [aliasesOf, Text.lookup_eq_none_iff.2 hq] at h
  cases h

theorem Program.validate_eq_ok :
    p.validate = .ok () ↔
      isIdentifier p.name = true ∧ checkVisits [] p.visits = .ok () ∧
        checkAliases p p.remoteNames p.aliasKeys = .ok () := by
  have haliases : (if !p.aliases.isEmpty then checkAliases p p.remoteNames p.aliasKeys else pure ()) = .ok () ↔
      checkAliases p p.remoteNames p.aliasKeys = .ok () := by
    cases hp : p.aliases with
    | nil => simp [aliasKeys, hp, sortedSet, sorted, sortBy, checkAliases, pure, Except.pure]
    | cons a as => simp
  have hname : (!isIdentifier p.name) = true ↔ ¬isIdentifier p.name = true := by simp
  simp only [validate, bind_eq_ok, throwIf_eq_ok, haliases, hname, not_not]
  constructor
  · rintro ⟨hname, _, hvisits, haliases⟩
    exact ⟨hname, hvisits, haliases⟩
  · rintro ⟨hname, hvisits, haliases⟩
    exact ⟨hname, (), hvisits, haliases⟩

/-- In a valid program no alias is listed twice. -/
theorem Program.distinctAliases_of_validate (h : p.validate = .ok ()) : p.DistinctAliases := by
  have hnodup := (checkAliases_eq_ok.1 (validate_eq_ok.1 h).2.2).2.2
  obtain ⟨hnodup, hdisjoint⟩ := nodup_flatMap.1 hnodup
  constructor
  · intro q
    by_cases hq : q ∈ p.aliasKeys
    · exact hnodup q hq
    · rw [eq_nil_iff_forall_not_mem.2 fun a ha => hq (mem_aliasKeys ha)]
      exact nodup_nil
  · intro a q q' ha ha'
    by_contra hne
    have hsymm : Std.Symm (Function.onFun Disjoint p.aliasesOf) := ⟨fun _ _ h _ hl hr => h hr hl⟩
    exact hdisjoint.forall (mem_aliasKeys ha) (mem_aliasKeys ha') hne ha ha'

/-- How a declaration is called, if it can be. -/
def Visit.call? (v : Visit) : Option (Kind × String) :=
  (v.decl.kind?.filter Kind.isRemote).map (·, v.qualified)

theorem Visit.call?_bare (v : Visit) : v.bare.call? = v.call? := by
  rw [call?, call?, v.qualified_bare, v.decl_bare, Declaration.kind?, Declaration.kind?, v.decl.body?_bare]

private theorem Visit.call?_eq_some {v : Visit} {c : Kind × String} :
    v.call? = some c ↔ v.decl.kind? = some c.1 ∧ c.1.isRemote = true ∧ v.qualified = c.2 := by
  obtain ⟨kind, q⟩ := c
  simp only [call?, Option.map_eq_some_iff, Option.filter_eq_some_iff, Prod.mk.injEq]
  constructor
  · rintro ⟨_, ⟨hkind, hremote⟩, rfl, hq⟩
    exact ⟨hkind, hremote, hq⟩
  · rintro ⟨hkind, hremote, hq⟩
    exact ⟨kind, ⟨hkind, hremote⟩, rfl, hq⟩

namespace Program

variable {p p' : Program}

theorem calls_eq (p : Program) : p.calls = p.kept.filterMap Visit.call? := by
  rw [calls, kept, filterMap_filter]
  refine filterMap_congr fun v _ => ?_
  rw [Visit.call?, Declaration.kind?]
  cases v.decl with
  | enum head members => simp [Declaration.body?]
  | type head body nested =>
    cases hexcluded : v.isExcluded <;> cases hremote : body.kind.isRemote <;>
      simp [Declaration.body?, Option.filter, hremote]

theorem mem_calls {c : Kind × String} :
    c ∈ p.calls ↔ ∃ v ∈ p.kept, v.decl.kind? = some c.1 ∧ c.1.isRemote = true ∧ v.qualified = c.2 := by
  rw [calls_eq, mem_filterMap]
  simp only [Visit.call?_eq_some]

theorem nodup_calls (hd : p.DistinctNames) : (p.calls.map (·.2)).Nodup := by
  have hsublist : ∀ vs : List Visit, ((vs.filterMap Visit.call?).map (·.2)).Sublist (vs.map (·.qualified)) := by
    intro vs
    induction vs with
    | nil => exact .refl _
    | cons v vs ih =>
      rw [filterMap_cons]
      split
      · exact ih.cons _
      · rename_i call hcall
        rw [map_cons, map_cons, ← (Visit.call?_eq_some.1 hcall).2.2]
        exact ih.cons_cons _
  rw [calls_eq]
  exact hd.sublist ((hsublist p.kept).trans (filter_sublist.map _))

private theorem Reordered.calls (h : p.Reordered p') : p.calls.Perm p'.calls := by
  rw [calls_eq, calls_eq]
  exact perm_filterMap_bare Visit.call?_bare h.kept

theorem nodup_aliasCalls (hd : p.DistinctNames) (ha : p.DistinctAliases) :
    (p.calls.flatMap fun c => p.aliasesOf c.2).Nodup := by
  refine nodup_flatMap.2 ⟨fun c _ => ha.nodup c.2, ?_⟩
  refine (pairwise_map.1 (nodup_calls hd)).imp fun hne a hl hr => ?_
  exact hne (ha.owner hl hr)

theorem Reordered.routes (h : p.Reordered p') (hd : p.DistinctNames) (ha : p.DistinctAliases) :
    p.routes = p'.routes := by
  have haliases : p'.aliasesOf = p.aliasesOf := by
    obtain ⟨_, _, rfl⟩ := h
    rfl
  rw [Program.routes, Program.routes, haliases, byKey, byKey, byKey, byKey]
  congr 1
  · refine sortBy_key_eq_of_perm Route.key (h.calls.map _) ?_
    rw [map_map]
    exact nodup_calls hd
  · refine sortBy_key_eq_of_perm Route.key (h.calls.flatMap_right _) ?_
    rw [map_flatMap]
    simp only [map_map, Function.comp_def, map_id']
    exact nodup_aliasCalls hd ha

theorem visit_of_route {r : Route} (h : r ∈ p.routes) :
    ∃ v ∈ p.kept, v.qualified = r.target ∧
      ∃ body, v.decl.body? = some body ∧ body.kind = r.kind ∧ body.kind.isRemote = true := by
  have hcall : (r.kind, r.target) ∈ p.calls := by
    rcases mem_append.1 h with h | h
    · obtain ⟨⟨kind, q⟩, hcall, rfl⟩ := mem_map.1 (mem_sortBy.1 h)
      exact hcall
    · obtain ⟨⟨kind, q⟩, hcall, halias⟩ := mem_flatMap.1 (mem_sortBy.1 h)
      obtain ⟨a, _, rfl⟩ := mem_map.1 halias
      exact hcall
  obtain ⟨v, hv, hkind, hremote, hq⟩ := mem_calls.1 hcall
  obtain ⟨body, hbody, hkind⟩ := Option.map_eq_some_iff.1 hkind
  exact ⟨v, hv, hq, body, hbody, hkind, hkind ▸ hremote⟩

theorem aliases_exclude (p : Program) (rules : ExcludeRules) :
    (p.exclude rules).1.aliases = p.aliases.filter fun a => a.1 ∉ (p.exclude rules).2 := by
  have hmem : ∀ q, q ∈ (p.exclude rules).2 ↔ q ∈ p.declarations.flatMap fun d => rules.removed false d.ns d.name d :=
    fun _ => mem_sortBy
  refine filter_congr fun a _ => ?_
  simp only [hmem, contains_eq_mem, decide_not]

theorem aliasesOf_exclude (p : Program) (rules : ExcludeRules) (q : String) :
    (p.exclude rules).1.aliasesOf q = if q ∈ (p.exclude rules).2 then [] else p.aliasesOf q := by
  rw [aliasesOf, aliases_exclude, lookup_filter_key fun k => decide (k ∉ (p.exclude rules).2)]
  by_cases hq : q ∈ (p.exclude rules).2 <;> simp [hq, aliasesOf]

theorem mem_aliasesOf_exclude {rules : ExcludeRules} {a q : String} (h : a ∈ (p.exclude rules).1.aliasesOf q) :
    a ∈ p.aliasesOf q := by
  rw [aliasesOf_exclude] at h
  split at h
  · cases h
  · exact h

theorem distinctAliases_exclude (ha : p.DistinctAliases) (rules : ExcludeRules) :
    (p.exclude rules).1.DistinctAliases := by
  refine ⟨fun q => ?_, fun h h' => ha.owner (mem_aliasesOf_exclude h) (mem_aliasesOf_exclude h')⟩
  rw [aliasesOf_exclude]
  split
  · exact nodup_nil
  · exact ha.nodup q

end Program

end Covenant.Contract
