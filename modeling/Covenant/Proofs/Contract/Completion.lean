import Covenant.Proofs.Contract.Documents
import Covenant.Proofs.Contract.WellFormed

/-!
# Filling in namespaces

A program that states the namespaces it left out has the same declarations under the same qualified names, loses the
same of them to exclusion, has the same routes, and is valid if the program was.
-/

namespace Covenant.Contract

open Outcome
open List
open Text

/-- The second program is the first with its namespaces filled in.  The order in which aliases are held is its own. -/
structure Program.Completes (p q : Program) : Prop where
  name : q.name = p.name
  declarations : q.declarations = withinAll "" p.declarations
  aliases : ∀ k, q.aliases.lookup k = p.aliases.lookup k

private theorem withinAll_eq_map (outer : String) (ds : List Declaration) :
    withinAll outer ds = ds.map (·.within outer) := by
  induction ds with
  | nil => rfl
  | cons d ds ih => rw [withinAll, ih, map_cons]

private theorem DeclHead.ns_within (outer : String) (h : DeclHead) :
    (h.within outer).ns = if h.ns = "" then outer else h.ns := by
  by_cases hns : h.ns = "" <;> simp [within, hns]

@[simp] theorem DeclHead.ns_within_empty (h : DeclHead) : (h.within "").ns = h.ns := by
  rw [ns_within]
  split
  · exact Eq.symm ‹_›
  · rfl

section

variable (outer : String) (d : Declaration)

@[simp] theorem Declaration.head_within : (d.within outer).head = d.head.within outer := by cases d <;> rfl

@[simp] theorem Declaration.name_within : (d.within outer).name = d.name := by cases d <;> rfl

@[simp] theorem Declaration.isExcluded_within : (d.within outer).isExcluded = d.isExcluded := by cases d <;> rfl

@[simp] theorem Declaration.body?_within : (d.within outer).body? = d.body? := by cases d <;> rfl

@[simp] theorem Declaration.isRemote_within : (d.within outer).isRemote = d.isRemote := by simp [isRemote, kind?]

@[simp] theorem Declaration.ns_within_empty : (d.within "").ns = d.ns := by simp [ns]

private theorem Declaration.within_ns : d.within d.ns = d.within "" := by
  have hhead : ∀ h : DeclHead, h.within h.ns = h.within "" := by
    intro h
    by_cases hns : h.ns = "" <;> simp [DeclHead.within, hns]
  cases d with
  | enum h members => exact congrArg (Declaration.enum · members) (hhead h)
  | type h body nested => exact congrArg (fun h' => Declaration.type h' body (withinAll h'.ns nested)) (hhead h)

end

/-- The namespace that declarations hand down to what is nested in them, outermost first. -/
def nsInside (parents : List Declaration) : String := parents.foldl (fun outer d => (d.head.within outer).ns) ""

def completeParents (outer : String) : List Declaration → List Declaration
  | [] => []
  | d :: ds => d.within outer :: completeParents (d.head.within outer).ns ds

private theorem nsInside_append (parents : List Declaration) (d : Declaration) :
    nsInside (parents ++ [d]) = (d.head.within (nsInside parents)).ns := by
  rw [nsInside, foldl_append]
  rfl

private theorem completeParents_append_aux (outer : String) (parents : List Declaration) (d : Declaration) :
    completeParents outer (parents ++ [d]) = completeParents outer parents ++
      [d.within (parents.foldl (fun outer d => (d.head.within outer).ns) outer)] := by
  induction parents generalizing outer with
  | nil => rfl
  | cons p ps ih => rw [cons_append, completeParents, ih, completeParents, foldl_cons, cons_append]

private theorem completeParents_append (parents : List Declaration) (d : Declaration) :
    completeParents "" (parents ++ [d]) = completeParents "" parents ++ [d.within (nsInside parents)] :=
  completeParents_append_aux "" parents d

private theorem map_completeParents {α : Type} {f : Declaration → α} (hf : ∀ outer d, f (d.within outer) = f d)
    (outer : String) (parents : List Declaration) : (completeParents outer parents).map f = parents.map f := by
  induction parents generalizing outer with
  | nil => rfl
  | cons p ps ih => rw [completeParents, map_cons, map_cons, hf, ih]

namespace Visit

variable {u v : Visit}

def completed (v : Visit) : Visit :=
  { decl := v.decl.within (nsInside v.parents), parents := completeParents "" v.parents }

@[simp] theorem names_completed (v : Visit) : v.completed.names = v.names := by
  rw [names, names, completed, map_completeParents fun _ _ => Declaration.name_within .., Declaration.name_within]

@[simp] theorem path_completed (v : Visit) : v.completed.path = v.path := by simp [path]

@[simp] theorem ns_completed (v : Visit) : v.completed.ns = v.ns := by
  obtain ⟨d, ps⟩ := v
  cases ps with
  | nil => exact d.ns_within_empty
  | cons p ps => exact p.ns_within_empty

@[simp] theorem qualified_completed (v : Visit) : v.completed.qualified = v.qualified := by simp [qualified]

@[simp] theorem isRemote_completed (v : Visit) : v.completed.decl.isRemote = v.decl.isRemote :=
  Declaration.isRemote_within ..

@[simp] theorem isExcluded_completed (v : Visit) : v.completed.isExcluded = v.isExcluded := by
  have hany : ∀ ps : List Declaration, ps.any (·.isExcluded) = (ps.map (·.isExcluded)).any id := by simp
  rw [isExcluded, isExcluded, hany, hany, completed, map_completeParents fun _ _ => Declaration.isExcluded_within ..,
    Declaration.isExcluded_within]

private theorem outer?_completed (v : Visit) : v.completed.outer? = v.outer?.map completed := by
  obtain ⟨d, ps⟩ := v
  rcases eq_nil_or_concat ps with rfl | ⟨qs, e, rfl⟩
  · rfl
  · rw [concat_eq_append]
    simp [outer?, completed, completeParents_append]

@[simp] theorem parentQualified?_completed (v : Visit) : v.completed.parentQualified? = v.parentQualified? := by
  rw [parentQualified?_eq, parentQualified?_eq, outer?_completed, Option.map_map]
  simp [Function.comp_def]

private theorem nsInside_of_outer? (h : v.outer? = some u) : nsInside v.parents = u.completed.decl.ns := by
  rw [outer?_eq_some.1 h, nsInside_append, completed, Declaration.ns, Declaration.head_within]

private theorem ns_of_outer? (h : v.outer? = some u) : v.ns = u.ns := by
  obtain ⟨d, ps⟩ := v
  obtain ⟨e, qs⟩ := u
  obtain rfl : ps = qs ++ [e] := outer?_eq_some.1 h
  cases qs <;> rfl

end Visit

mutual

private theorem Declaration.visits_within (parents : List Declaration) :
    ∀ d : Declaration, (d.within (nsInside parents)).visits (completeParents "" parents) =
      (d.visits parents).map Visit.completed
  | .enum h members => rfl
  | .type h body nested => by
    have hnested := visitsOf_within (parents ++ [.type h body nested]) nested
    rw [nsInside_append, completeParents_append] at hnested
    rw [Declaration.visits, map_cons, ← hnested]
    rfl

private theorem visitsOf_within (parents : List Declaration) :
    ∀ ds : List Declaration, visitsOf (completeParents "" parents) (withinAll (nsInside parents) ds) =
      (visitsOf parents ds).map Visit.completed
  | [] => rfl
  | d :: ds => by
    rw [withinAll, visitsOf, visitsOf, map_append, d.visits_within parents, visitsOf_within parents ds]

end

private theorem Program.inductVisits {p : Program} {P : Visit → Prop} (top : ∀ v ∈ p.visits, v.parents = [] → P v)
    (nested : ∀ v ∈ p.visits, ∀ u ∈ p.visits, v.outer? = some u → P u → P v) : ∀ v ∈ p.visits, P v := by
  -- The induction is on how deep a declaration is nested.
  have hlength : ∀ n, ∀ v ∈ p.visits, v.parents.length = n → P v := by
    intro n
    induction n with
    | zero => exact fun v hv hn => top v hv (length_eq_zero_iff.1 hn)
    | succ n ih =>
      intro v hv hn
      cases hu : v.outer? with
      | none =>
        rw [Visit.outer?_eq_none.1 hu] at hn
        cases hn
      | some u =>
        have hmem := (p.grounded_visits.mem_of_outer? hv hu).resolve_left not_mem_nil
        have hlen : u.parents.length = n := by
          rw [Visit.outer?_eq_some.1 hu, length_append] at hn
          exact Nat.succ.inj hn
        exact nested v hv u hmem hu (ih u hmem hlen)
  exact fun v hv => hlength _ v hv rfl

theorem Declaration.WellFormed.within {d : Declaration} (h : d.WellFormed) {outer : String}
    (hhead : (d.head.within outer).WellFormed) : (d.within outer).WellFormed := by
  cases h with
  | enum _ hmembers => exact .enum hhead hmembers
  | type _ hbody => exact .type hhead hbody

section

variable {p : Program} (hp : ∀ v ∈ p.visits, v.Checked)
include hp

private theorem Program.ns_decl_completed : ∀ v ∈ p.visits, v.completed.decl.ns = v.ns := by
  refine inductVisits (fun v _ htop => ?_) fun v hv u _ hu ih => ?_
  · obtain ⟨d, ps⟩ := v
    subst htop
    exact d.ns_within_empty
  · have hns : v.completed.decl.ns = if v.decl.ns = "" then u.completed.decl.ns else v.decl.ns := by
      rw [← Visit.nsInside_of_outer? hu, Visit.completed, Declaration.ns, Declaration.head_within, DeclHead.ns_within]
      rfl
    rw [hns, Visit.ns_of_outer? hu, ← ih]
    split
    · rfl
    · -- A nested declaration may only state what the one around it states too.
      rename_i hne
      have heq := ((Visit.checked_iff.1 (hp v hv)).1 u hu).resolve_left hne
      have hstated : u.decl.head.ns ≠ "" := fun h => hne (heq.trans h)
      rw [heq, Visit.completed, Declaration.ns, Declaration.ns, Declaration.head_within, DeclHead.ns_within,
        if_neg hstated]

/-- The namespace that is filled in is the one of the qualified name. -/
theorem Program.decl_completed : ∀ v ∈ p.visits, v.completed.decl = v.decl.within v.ns := by
  intro v hv
  cases hu : v.outer? with
  | none =>
    obtain ⟨d, ps⟩ := v
    obtain rfl := Visit.outer?_eq_none.1 hu
    exact d.within_ns.symm
  | some u =>
    have hmem := (p.grounded_visits.mem_of_outer? hv hu).resolve_left not_mem_nil
    rw [Visit.completed, Visit.nsInside_of_outer? hu, ns_decl_completed hp u hmem, Visit.ns_of_outer? hu]

private theorem Program.checked_completed : ∀ v ∈ p.visits, v.completed.Checked := by
  have hsegments : ∀ v ∈ p.visits, v.ns ≠ "" → ∀ segment ∈ split '.' v.ns, isIdentifier segment = true := by
    refine inductVisits (fun v hv htop => ?_) fun v _ u _ hu ih => ?_
    · obtain ⟨d, ps⟩ := v
      subst htop
      exact (Visit.checked_iff.1 (hp _ hv)).2.head.segments
    · rw [Visit.ns_of_outer? hu]
      exact ih
  intro v hv
  refine Visit.checked_iff.2 ⟨fun u' hu' => ?_, ?_⟩
  · rw [Visit.outer?_completed, Option.map_eq_some_iff] at hu'
    obtain ⟨u, hu, rfl⟩ := hu'
    have hmem := (p.grounded_visits.mem_of_outer? hv hu).resolve_left not_mem_nil
    rw [ns_decl_completed hp v hv, ns_decl_completed hp u hmem, Visit.ns_of_outer? hu]
    exact .inr rfl
  · have hns : v.completed.decl.head.ns = v.ns := ns_decl_completed hp v hv
    have hname : v.completed.decl.head.name = v.decl.head.name := Declaration.name_within ..
    have hwf := (Visit.checked_iff.1 (hp v hv)).2
    refine hwf.within ⟨?_, ?_⟩
    · rw [← Declaration.head_within]
      exact hname ▸ hwf.head.name
    · rw [← Declaration.head_within]
      exact hns ▸ hsegments v hv

end

namespace ExcludeRules

variable (rules : ExcludeRules)

private theorem drops_within (ns path outer : String) (d : Declaration) :
    rules.drops ns path (d.within outer) = rules.drops ns path d := by
  rw [drops, drops, Declaration.isExcluded_within]

mutual

private theorem keep?_within (ns path outer : String) :
    ∀ d : Declaration, rules.keep? ns path (d.within outer) = (rules.keep? ns path d).map (·.within outer)
  | .enum h members => by
    have hdrops := rules.drops_within ns path outer (.enum h members)
    rw [Declaration.within] at hdrops ⊢
    rw [keep?, keep?, hdrops]
    split <;> rfl
  | .type h body nested => by
    have hdrops := rules.drops_within ns path outer (.type h body nested)
    rw [Declaration.within] at hdrops ⊢
    rw [keep?, keep?, hdrops, keepAll_within ns path (h.within outer).ns nested]
    split <;> rfl

private theorem keepAll_within (ns path outer : String) :
    ∀ ds : List Declaration, rules.keepAll ns path (withinAll outer ds) = withinAll outer (rules.keepAll ns path ds)
  | [] => rfl
  | d :: ds => by
    rw [withinAll, keepAll, keepAll, Declaration.name_within, keep?_within ns (path ++ "." ++ d.name) outer d,
      keepAll_within ns path outer ds]
    cases rules.keep? ns (path ++ "." ++ d.name) d <;> rfl

end

mutual

private theorem removed_within (dropped : Bool) (ns path outer : String) :
    ∀ d : Declaration, rules.removed dropped ns path (d.within outer) = rules.removed dropped ns path d
  | .enum h members => by
    have hdrops := rules.drops_within ns path outer (.enum h members)
    rw [Declaration.within] at hdrops ⊢
    rw [removed, removed, hdrops]
  | .type h body nested => by
    have hdrops := rules.drops_within ns path outer (.type h body nested)
    rw [Declaration.within] at hdrops ⊢
    rw [removed, removed, hdrops, removedAll_within _ ns path (h.within outer).ns nested]

private theorem removedAll_within (dropped : Bool) (ns path outer : String) :
    ∀ ds : List Declaration,
      rules.removedAll dropped ns path (withinAll outer ds) = rules.removedAll dropped ns path ds
  | [] => rfl
  | d :: ds => by
    rw [withinAll, removedAll, removedAll, Declaration.name_within,
      removed_within dropped ns (path ++ "." ++ d.name) outer d, removedAll_within dropped ns path outer ds]

end

end ExcludeRules

namespace Program.Completes

variable {p q : Program}

theorem visits (h : p.Completes q) : q.visits = p.visits.map Visit.completed := by
  rw [Program.visits, h.declarations]
  exact visitsOf_within [] p.declarations

private theorem aliasesOf (h : p.Completes q) : q.aliasesOf = p.aliasesOf := by
  funext k
  rw [Program.aliasesOf, h.aliases, Program.aliasesOf]

private theorem aliasKeys (h : p.Completes q) : q.aliasKeys = p.aliasKeys := by
  refine sortedSet_congr fun k => not_iff_not.1 ?_
  rw [← Text.lookup_eq_none_iff, ← Text.lookup_eq_none_iff, h.aliases]

theorem qualified (h : p.Completes q) : q.visits.map (·.qualified) = p.visits.map (·.qualified) := by
  rw [h.visits, map_map]
  exact map_congr_left fun v _ => v.qualified_completed

/-- A valid program stays valid. -/
theorem validate (h : p.Completes q) (hv : p.validate = .ok ()) : q.validate = .ok () := by
  obtain ⟨hname, hvisits, haliases⟩ := validate_eq_ok.1 hv
  obtain ⟨hd, _, hchecked⟩ := checkVisits_eq_ok.1 hvisits
  have hd' : (q.visits.map (·.qualified)).Nodup := h.qualified ▸ hd
  refine validate_eq_ok.2 ⟨h.name ▸ hname, checkVisits_eq_ok.2 ⟨hd', by simp, ?_⟩, ?_⟩
  · rw [h.visits, forall_mem_map]
    exact checked_completed hchecked
  · rw [checkAliases_iff hd] at haliases
    rw [checkAliases_iff hd', h.aliasKeys, h.aliasesOf, h.visits]
    simpa using haliases

theorem routes (h : p.Completes q) : q.routes = p.routes := by
  have hcalls : q.calls = p.calls := by
    rw [calls, calls, h.visits, filterMap_map]
    congr 1
    funext v
    rw [Function.comp_apply, Visit.isExcluded_completed, Visit.qualified_completed, Visit.completed]
    cases v.decl <;> rfl
  rw [Program.routes, Program.routes, hcalls, h.aliasesOf]

theorem exclude (h : p.Completes q) (rules : ExcludeRules) :
    (p.exclude rules).1.Completes (q.exclude rules).1 ∧ (q.exclude rules).2 = (p.exclude rules).2 := by
  have hremoved : (q.declarations.flatMap fun d => rules.removed false d.ns d.name d) =
      p.declarations.flatMap fun d => rules.removed false d.ns d.name d := by
    rw [h.declarations, withinAll_eq_map, flatMap_map]
    simp only [Declaration.ns_within_empty, Declaration.name_within, rules.removed_within]
  refine ⟨⟨h.name, ?_, fun k => ?_⟩, congrArg sorted hremoved⟩
  · show q.declarations.filterMap (fun d => rules.keep? d.ns d.name d) =
      withinAll "" (p.declarations.filterMap fun d => rules.keep? d.ns d.name d)
    rw [h.declarations, withinAll_eq_map, withinAll_eq_map, filterMap_map, map_filterMap]
    simp only [Function.comp_def, Declaration.ns_within_empty, Declaration.name_within, rules.keep?_within]
  · have hlookup : ∀ (removed : List String) (r : Program),
        (r.aliases.filter fun a => !removed.contains a.1).lookup k =
          if !removed.contains k then r.aliases.lookup k else none :=
      fun removed r => lookup_filter_key (fun a => !removed.contains a) r.aliases k
    simp only [Program.exclude, hremoved, hlookup, h.aliases]

end Program.Completes

end Covenant.Contract
