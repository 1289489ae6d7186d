import Mathlib.Data.List.Nodup
import Covenant.Naming.Table
import Covenant.Proofs.Contract.Reordering
import Covenant.Proofs.Outcome

/-!
# Resolution of names

With distinct qualified names, the table is determined by the names of the top-level declarations: the entry of every
other declaration can be written down at once, its name being that of the outermost declaration followed by the short
names on the way in (`entryOf`).
-/

namespace Covenant.Naming

open Contract (Grounded Program Visit)
open Outcome
open List

namespace Table

variable {sep : String} {names : List (String × String)}

def emittedName (sep : String) (names : List (String × String)) (v : Visit) : String :=
  (v.names.drop 1).foldl (fun outer short => outer ++ sep ++ short)
    ((names.lookup v.outermost.qualified).getD "")

def entryOf (sep : String) (names : List (String × String)) (v : Visit) : Entry :=
  { name := emittedName sep names v, qualified := v.qualified, ns := v.ns, path := v.path, decl := v.decl
    parent? := v.parentQualified? }

private theorem topEntry_eq {v : Visit} (hv : v.parents = []) : topEntry names v = entryOf sep names v := by
  obtain ⟨d, ps⟩ := v
  obtain rfl : ps = [] := hv
  rfl

theorem emittedName_of_outer? {u v : Visit} (h : v.outer? = some u) :
    emittedName sep names v = emittedName sep names u ++ sep ++ v.decl.name := by
  have hu : 1 ≤ u.names.length := by simp [Visit.names]
  rw [emittedName, emittedName, Visit.names_of_outer? h, Visit.outermost_of_outer? h, drop_append_of_le_length hu,
    foldl_append]
  rfl

private theorem find?_entryOf {vs : List Visit} (hvs : (vs.map (·.qualified)).Nodup) {v : Visit} (hv : v ∈ vs) :
    (vs.map (entryOf sep names)).find? (·.qualified == v.qualified) = some (entryOf sep names v) := by
  have hnodup : ((vs.map (entryOf sep names)).map (·.qualified)).Nodup := by
    rw [map_map]
    exact hvs
  exact (Text.find?_key_eq_some hnodup).2 ⟨mem_map_of_mem hv, rfl⟩

private theorem addNested_eq {p : Policy} {seen vs : List Visit} (hg : Grounded seen vs)
    (hvs : ∀ v ∈ vs, v.parents ≠ []) (hd : ((vs.reverse ++ seen).map (·.qualified)).Nodup) :
    addNested p (seen.map (entryOf p.nestedSeparator names)) vs =
      .ok ((vs.reverse ++ seen).map (entryOf p.nestedSeparator names)) := by
  induction vs generalizing seen with
  | nil => rfl
  | cons v vs ih =>
    rw [reverse_cons, append_assoc] at hd
    have hseen : (seen.map (·.qualified)).Nodup := by
      refine hd.sublist (Sublist.map _ ?_)
      exact (sublist_cons_self v seen).trans (sublist_append_right vs.reverse _)
    obtain ⟨u, hu⟩ := Option.ne_none_iff_exists'.1 fun h => hvs v (.head _) (Visit.outer?_eq_none.1 h)
    -- the entry around `v` is there, so that of `v` can be made from it
    have hstep : addNested p (seen.map (entryOf p.nestedSeparator names)) (v :: vs) =
        addNested p ((v :: seen).map (entryOf p.nestedSeparator names)) vs := by
      rw [addNested, Visit.parentQualified?_eq, hu, Option.map_some, Option.bind_some,
        find?_entryOf hseen (hg.1 u hu), map_cons]
      nth_rewrite 2 [entryOf]
      rw [emittedName_of_outer? hu, Visit.parentQualified?_eq, hu]
      rfl
    rw [hstep, ih hg.2 (fun w hw => hvs w (mem_cons_of_mem v hw)) hd, reverse_cons, append_assoc]
    rfl

private theorem checkUnique_eq_ok {owners : List (String × String)} {es : List Entry} :
    checkUnique owners es = .ok () ↔
      (es.map (·.name)).Nodup ∧ ∀ e ∈ es, e.name ∉ owners.map (·.1) := by
  induction es generalizing owners with
  | nil => simp [checkUnique]
  | cons e es ih =>
    rw [checkUnique]
    cases h : owners.lookup e.name with
    | some other =>
      have hmem : e.name ∈ owners.map (·.1) := by
        by_contra hmem
        rw [Text.lookup_eq_none_iff.2 hmem] at h
        cases h
      simp only [reduceCtorEq, false_iff]
      exact fun h => h.2 e (.head _) hmem
    | none =>
      have hmem := Text.lookup_eq_none_iff.1 h
      simp only [ih, map_cons, nodup_cons, mem_cons, mem_map, not_or, forall_eq_or_imp]
      constructor
      · rintro ⟨hnodup, hes⟩
        refine ⟨⟨?_, hnodup⟩, by simpa using hmem, fun e' he' => (hes e' he').2⟩
        rintro ⟨e', he', heq⟩
        exact (hes e' he').1 heq
      · rintro ⟨⟨hne, hnodup⟩, _, hes⟩
        exact ⟨hnodup, fun e' he' => ⟨fun heq => hne ⟨e', he', heq⟩, hes e' he'⟩⟩

/-- The top-level declarations that are not excluded. -/
def tops (program : Program) : List Visit := program.kept.filter (·.parents.isEmpty)

/-- The declarations that are not excluded in the order of resolution, latest first: top-level ones come before the
others. -/
def order (program : Program) : List Visit :=
  (program.kept.filter (!·.parents.isEmpty)).reverse ++ (tops program).reverse

theorem perm_order (program : Program) : (order program).Perm program.kept := by
  refine ((reverse_perm _).append (reverse_perm _)).trans (perm_append_comm.trans ?_)
  exact filter_append_perm (fun v : Visit => v.parents.isEmpty) program.kept

/-- The table that the names of top-level declarations determine. -/
def ofNames (p : Policy) (names : List (String × String)) (program : Program) : Table :=
  let resolved := (order program).map (entryOf p.nestedSeparator names)
  { policy := p, entries := Text.sortBy (fun a b => Text.before a.name b.name) resolved, resolved }

variable {program : Program} {policy : Policy}

/-- Resolution gives names to top-level declarations and then checks all names. -/
theorem resolve_eq (hd : program.DistinctKept) :
    resolve program policy = do
      let names ← assignTop policy.completed (tops program)
      checkUnique [] (ofNames policy.completed names program).resolved.reverse
      return ofNames policy.completed names program := by
  unfold resolve
  refine bind_congr fun names => ?_
  have htop : (tops program).map (topEntry names) =
      (tops program).map (entryOf policy.completed.nestedSeparator names) :=
    map_congr_left fun v hv => topEntry_eq (by simpa using (mem_filter.1 hv).2)
  have hgrounded : Grounded (tops program).reverse (program.kept.filter (!·.parents.isEmpty)) := by
    rw [Program.kept, filter_filter]
    refine program.grounded_visits.filter (fun _ _ _ _ hu => by cases hu) ?_
    intro v _ hPv u hu hou
    simp only [Bool.and_eq_true, Bool.not_eq_true'] at hPv ⊢
    have hkept := Visit.isExcluded_of_outer? hou hPv.2
    by_cases htop : u.parents.isEmpty = true
    · refine .inr (mem_reverse.2 (mem_filter.2 ⟨mem_filter.2 ⟨hu, ?_⟩, htop⟩))
      simpa using hkept
    · exact .inl ⟨by simpa using htop, hkept⟩
  have hnodup : (((program.kept.filter (!·.parents.isEmpty)).reverse ++ (tops program).reverse).map
      (·.qualified)).Nodup := ((perm_order program).map _).nodup_iff.2 hd
  show (addNested _ ((tops program).map (topEntry names)).reverse
    (program.kept.filter (!·.parents.isEmpty)) >>= _) = _
  rw [htop, ← map_reverse]
  rw [addNested_eq hgrounded (fun v hv => by simpa using (mem_filter.1 hv).2) hnodup]
  rfl

theorem mem_entries_of_lookup {t : Table} (h : resolve program policy = .ok t) {q : String} {e : Entry}
    (he : t.lookup q = some e) : e ∈ t.entries := by
  obtain ⟨_, _, h⟩ := bind_eq_ok.1 h
  obtain ⟨resolved, _, h⟩ := bind_eq_ok.1 h
  obtain ⟨_, _, h⟩ := bind_eq_ok.1 h
  obtain rfl := pure_eq_ok.1 h
  exact Text.mem_sortBy.2 (mem_of_find?_eq_some he)

theorem resolve_eq_ok (hd : program.DistinctKept) {t : Table} :
    resolve program policy = .ok t ↔
      ∃ names, assignTop policy.completed (tops program) = .ok names ∧
        ((order program).map (emittedName policy.completed.nestedSeparator names)).Nodup ∧
        t = ofNames policy.completed names program := by
  rw [resolve_eq hd, bind_eq_ok]
  refine exists_congr fun names => and_congr_right fun _ => ?_
  have hunique : checkUnique [] (ofNames policy.completed names program).resolved.reverse = .ok () ↔
      ((order program).map (emittedName policy.completed.nestedSeparator names)).Nodup := by
    rw [checkUnique_eq_ok, map_reverse, nodup_reverse, ofNames, map_map]
    simp [Function.comp_def, entryOf]
  rw [bind_eq_ok, ← hunique]
  constructor
  · rintro ⟨_, h, ht⟩
    exact ⟨h, (pure_eq_ok.1 ht).symm⟩
  · rintro ⟨h, rfl⟩
    exact ⟨(), h, rfl⟩

end Table

/-- Members get their identifiers just if these are there, new and distinct. -/
theorem Policy.membersAfter_eq_ok {p : Policy} {owner : String} {used : List (String × String)}
    {wires idents : List String} :
    p.membersAfter owner used wires = .ok idents ↔
      idents = wires.map p.member ∧ (∀ wire ∈ wires, p.member wire ≠ "" ∧ p.member wire ∉ used.map (·.1)) ∧
        (wires.map p.member).Nodup := by
  induction wires generalizing used idents with
  | nil =>
    rw [membersAfter, Except.ok.injEq, eq_comm]
    simp
  | cons wire wires ih =>
    have hstep : p.membersAfter owner used (wire :: wires) = .ok idents ↔
        p.member wire ≠ "" ∧ used.lookup (p.member wire) = none ∧
          ∃ rest, p.membersAfter owner ((p.member wire, wire) :: used) wires = .ok rest ∧
            p.member wire :: rest = idents := by
      rw [membersAfter, errorIf_eq_ok, String.isEmpty_iff]
      refine and_congr_right fun _ => ?_
      cases used.lookup (p.member wire) with
      | some first => simp
      | none => simp only [bind_eq_ok, pure_eq_ok, true_and]
    rw [hstep, Text.lookup_eq_none_iff]
    simp only [ih, map_cons, mem_cons, nodup_cons, mem_map]
    grind

end Covenant.Naming
