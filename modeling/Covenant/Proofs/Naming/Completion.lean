import Covenant.Proofs.Contract.Completion
import Covenant.Proofs.Naming.Reordering

/-!
# Names do not depend on namespaces that are left out

Names go by the namespaces of top-level declarations, which are not filled in.
-/

namespace Covenant

open Contract (Declaration DeclHead Program Visit)
open List

namespace Contract

private theorem DeclHead.within_empty (h : DeclHead) : h.within "" = h := by
  obtain ⟨ns, name, excluded⟩ := h
  exact congrArg (DeclHead.mk · name excluded) (DeclHead.ns_within_empty ⟨ns, name, excluded⟩)

theorem Visit.bare_completed {v : Visit} (h : v.parents = []) : v.completed.bare = v.bare := by
  obtain ⟨d, ps⟩ := v
  subst h
  have hbare : (d.within "").bare = d.bare := by
    cases d with
    | enum h members => exact congrArg (Declaration.enum · members) h.within_empty
    | type h body nested => exact congrArg (Declaration.type · body []) h.within_empty
  exact congrArg (Visit.mk · []) hbare

end Contract

namespace Naming

/-- The entry whose declaration states its namespaces. -/
@[simps] def Entry.completed (e : Entry) : Entry := { e with decl := e.decl.within e.ns }

namespace Table

def completed (t : Table) : Table :=
  { t with entries := t.entries.map Entry.completed, resolved := t.resolved.map Entry.completed }

private theorem lookup_completed (t : Table) (q : String) :
    t.completed.lookup q = (t.lookup q).map Entry.completed := by
  rw [lookup, completed, find?_map]
  rfl

theorem Coherent.completed {t : Table} (h : t.Coherent) : t.completed.Coherent := by
  intro q
  rw [lookup_completed, ← h q, Table.completed, find?_map]
  rfl

section

variable {p : Policy} {vs : List Visit} (hvs : ∀ v ∈ vs, v.completed.decl = v.decl.within v.ns)
include hvs

private theorem topEntry_completed (names : List (String × String)) :
    (vs.map Visit.completed).map (topEntry names) = (vs.map (topEntry names)).map Entry.completed := by
  rw [map_map, map_map]
  refine map_congr_left fun v hv => ?_
  simp [topEntry, Entry.completed, hvs v hv]

private theorem addNested_completed (done : List Entry) :
    addNested p (done.map Entry.completed) (vs.map Visit.completed) =
      List.map Entry.completed <$> addNested p done vs := by
  induction vs generalizing done with
  | nil => rfl
  | cons v vs ih =>
    have hparent : (v.parentQualified?.bind fun q => (done.map Entry.completed).find? (·.qualified == q)) =
        (v.parentQualified?.bind fun q => done.find? (·.qualified == q)).map Entry.completed := by
      cases v.parentQualified? with
      | none => rfl
      | some q => exact find?_map ..
    rw [map_cons, addNested, addNested, Visit.parentQualified?_completed, hparent]
    cases v.parentQualified?.bind fun q => done.find? (·.qualified == q) with
    | none => simp
    | some parent =>
      simp only [Option.map_some]
      rw [← ih fun w hw => hvs w (mem_cons_of_mem v hw)]
      simp [Entry.completed, hvs v mem_cons_self]

end

/-- Completing namespaces changes no name and no conflict. -/
theorem resolve_completes {p q : Program} (h : p.Completes q) (hp : ∀ v ∈ p.visits, v.Checked)
    (hd : p.DistinctNames) (policy : Policy) : resolve q policy = completed <$> resolve p policy := by
  have hfilter : ∀ (P : Visit → Bool), (∀ v : Visit, P v.completed = P v) → ∀ vs : List Visit,
      (vs.map Visit.completed).filter P = (vs.filter P).map Visit.completed := by
    intro P hP vs
    rw [filter_map]
    congr 1
    exact filter_congr fun v _ => hP v
  have hempty : ∀ v : Visit, v.completed.parents.isEmpty = v.parents.isEmpty := by
    rintro ⟨d, _ | _⟩ <;> rfl
  have hdecl : ∀ vs : List Visit, vs.Sublist p.visits → ∀ v ∈ vs, v.completed.decl = v.decl.within v.ns :=
    fun vs hvs v hv => Program.decl_completed hp v (hvs.subset hv)
  simp only [resolve, h.visits]
  rw [hfilter _ (by simp)]
  generalize hkept : p.visits.filter (!·.isExcluded) = kept
  have hsub : kept.Sublist p.visits := hkept ▸ filter_sublist
  rw [hfilter _ (by simp [hempty]), hfilter _ (by simp [hempty])]
  have hassign : assignTop policy.completed ((kept.filter (·.parents.isEmpty)).map Visit.completed) =
      assignTop policy.completed (kept.filter (·.parents.isEmpty)) := by
    refine (assignTop_congr ?_ (hd.sublist ((filter_sublist.trans hsub).map _))).symm
    rw [map_map]
    refine .of_eq (map_congr_left fun v hv => (Visit.bare_completed ?_).symm)
    exact List.isEmpty_iff.1 (mem_filter.1 hv).2
  rw [hassign]
  simp only [map_bind, map_pure]
  refine bind_congr fun names => ?_
  rw [topEntry_completed (hdecl _ (filter_sublist.trans hsub)), ← map_reverse,
    addNested_completed (hdecl _ (filter_sublist.trans hsub)), bind_map_left]
  refine bind_congr fun resolved => ?_
  rw [← map_reverse, checkUnique_map Entry.completed fun _ => ⟨rfl, rfl⟩]
  refine bind_congr fun _ => ?_
  rw [completed, Text.map_sortBy_key Entry.name Entry.name Entry.completed (fun _ => rfl)]

end Table

end Naming

end Covenant
