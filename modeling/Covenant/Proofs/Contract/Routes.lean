import Covenant.Proofs.Contract.Exclusion

/-!
# Routes after exclusion

Exclusion leaves no flagged declaration, so the calls of what it leaves are its commands, queries and operations.  In
a valid program keys and paths are distinct: an alias is no qualified name of a call, and does not start with a slash
as the paths of calls do.
-/

namespace Covenant.Contract

open List
open Text

private theorem Visit.isExcluded_eq_true {v : Visit} : v.isExcluded = true ↔ ∃ d ∈ v.chain, d.isExcluded = true := by
  simp only [isExcluded, chain, Bool.or_eq_true, any_eq_true, mem_append, mem_singleton]
  constructor
  · rintro (h | ⟨d, hd, h⟩)
    · exact ⟨v.decl, .inr rfl, h⟩
    · exact ⟨d, .inl hd, h⟩
  · rintro ⟨d, hd | rfl, h⟩
    · exact .inr ⟨d, hd, h⟩
    · exact .inl h

private theorem ExcludeRules.covers_of_isExcluded (rules : ExcludeRules) {v : Visit} (h : v.isExcluded = true) :
    rules.Covers v.chain := by
  obtain ⟨d, hd, hflag⟩ := Visit.isExcluded_eq_true.1 h
  obtain ⟨before, after, hchain⟩ := append_of_mem hd
  refine ⟨⟨d, before⟩, ⟨after, ?_⟩, .flagged hflag⟩
  rw [hchain, Visit.chain, append_assoc, singleton_append]

private theorem ExcludeRules.covers_none {v : Visit} : ({} : ExcludeRules).Covers v.chain ↔ v.isExcluded = true := by
  refine ⟨?_, covers_of_isExcluded _⟩
  rintro ⟨u, hu, hselects⟩
  refine Visit.isExcluded_eq_true.2 ⟨u.decl, hu.subset (mem_append_right _ (.head _)), ?_⟩
  cases hselects with
  | flagged h => exact h
  | named h => cases h
  | located h _ => cases h
  | below h _ => cases h

namespace Program

variable {p : Program}

/-- Exclusion leaves nothing that is flagged. -/
theorem kept_exclude (p : Program) (rules : ExcludeRules) :
    (p.exclude rules).1.kept = (p.exclude rules).1.visits := by
  refine filter_eq_self.2 fun v hv => ?_
  obtain ⟨u, _, hleft, hbare⟩ := exists_of_mem_visits_exclude hv
  rw [Bool.not_eq_true', ← Bool.not_eq_true]
  intro hv
  rw [← v.isExcluded_bare, ← hbare, u.isExcluded_bare] at hv
  exact hleft (rules.covers_of_isExcluded hv)

/-- Without rules exclusion leaves what is kept anyway. -/
theorem kept_exclude_none (p : Program) : ((p.exclude {}).1.kept).map Visit.bare = p.kept.map Visit.bare := by
  rw [kept_exclude, visits_exclude]
  refine congrArg (List.map Visit.bare) (filter_congr fun v _ => ?_)
  simp only [ExcludeRules.covers_none, decide_not, Bool.decide_eq_true]

private theorem calls_exclude_none (p : Program) : (p.exclude {}).1.calls = p.calls := by
  rw [calls_eq, calls_eq, ← filterMap_map_bare Visit.call?_bare, kept_exclude_none,
    filterMap_map_bare Visit.call?_bare]

private theorem not_mem_removed_none (hd : p.DistinctNames) {v : Visit} (hv : v ∈ p.kept) :
    v.qualified ∉ (p.exclude {}).2 := by
  intro hmem
  obtain ⟨u, hu, heq⟩ := mem_map.1 ((p.perm_removed_exclude {}).mem_iff.1 hmem)
  obtain ⟨hu, hcovers⟩ := mem_filter.1 hu
  obtain ⟨hv, hkept⟩ := mem_filter.1 hv
  have huv : u = v := inj_on_of_nodup_map hd hu hv heq
  have hexcluded := ExcludeRules.covers_none.1 (of_decide_eq_true hcovers)
  simp [← huv, hexcluded] at hkept

def ownRoute (c : Kind × String) : Route :=
  { kind := c.1, key := c.2, path := routePath c.1 c.2, target := c.2 }

def aliasRoute (c : Kind × String) (a : String) : Route :=
  { kind := c.1, key := a, path := a, target := c.2, isAlias := true }

private theorem routes_eq (p : Program) :
    p.routes = byKey (p.calls.map ownRoute) ++
      byKey (p.calls.flatMap fun c => (p.aliasesOf c.2).map (aliasRoute c)) :=
  rfl

theorem routes_exclude_none (hd : p.DistinctNames) : (p.exclude {}).1.routes = p.routes := by
  have haliases : ∀ c ∈ p.calls, (p.exclude {}).1.aliasesOf c.2 = p.aliasesOf c.2 := by
    intro c hc
    obtain ⟨v, hv, _, _, hq⟩ := mem_calls.1 hc
    rw [aliasesOf_exclude, if_neg (hq ▸ not_mem_removed_none hd hv)]
  rw [routes_eq, routes_eq, calls_exclude_none]
  refine congrArg₂ (· ++ ·) rfl (congrArg byKey (flatMap_congr fun c hc => ?_))
  rw [haliases c hc]

end Program

end Covenant.Contract
