import Mathlib.Tactic.Simps.Basic
import Covenant.Proofs.Naming.Resolution

/-!
# Names do not depend on the order of declarations

Every choice in the assignment of names goes by the short names, the identities and the namespaces of declarations in
their own order.  The tables of reordered programs are the same up to what is nested in the declarations and up to the
order of resolution; the bare form of a table leaves both out.
-/

namespace Covenant.Naming

open Contract (Program Visit perm_filter_bare perm_map_bare)
open Outcome
open List
open Text

@[simps] def Entry.bare (e : Entry) : Entry := { e with decl := e.decl.bare }

namespace Table

theorem checkUnique_map (f : Entry → Entry) (hf : ∀ e, (f e).name = e.name ∧ (f e).qualified = e.qualified)
    (owners : List (String × String)) (es : List Entry) : checkUnique owners (es.map f) = checkUnique owners es := by
  induction es generalizing owners with
  | nil => rfl
  | cons e es ih => rw [map_cons, checkUnique, checkUnique, ih, (hf e).1, (hf e).2]

/-- The table with bare entries, in order of their names throughout. -/
def bare (t : Table) : Table :=
  { policy := t.policy, entries := t.entries.map Entry.bare, resolved := t.entries.map Entry.bare }

/-- An entry is found in the order of names just as in the order of resolution. -/
def Coherent (t : Table) : Prop := ∀ q, t.entries.find? (·.qualified == q) = t.lookup q

theorem lookup_bare {t : Table} (ht : t.Coherent) (q : String) : t.bare.lookup q = (t.lookup q).map Entry.bare := by
  rw [← ht q, lookup, bare, find?_map]
  rfl

section

variable {p : Policy} {top top' : List Visit}

private theorem segments_bare (v : Visit) : segments v.bare = segments v := by rw [segments, segments, v.ns_bare]

theorem assignSingles_single {a : Assignment} {short : String} {rest : List String} {v : Visit}
    (hv : groupOf top short = [v]) :
    assignSingles p top a (short :: rest) =
      assignSingles p top (a.give v.qualified (if p.isUnmangled short then short else p.identifier short)) rest := by
  rw [assignSingles, hv]
  cases p.isUnmangled short <;> rfl

theorem assignSingles_shared {a : Assignment} {short : String} {rest : List String}
    (hne : ∀ v, groupOf top short ≠ [v]) :
    assignSingles p top a (short :: rest) =
      if p.isUnmangled short then .error (.unmangledTwice short (identities (groupOf top short)))
      else assignSingles p top a rest >>= fun r => pure (r.1, short :: r.2) := by
  rw [assignSingles]
  cases p.isUnmangled short with
  | true =>
    split
    · exact absurd ‹_› (hne _)
    · rfl
    · cases ‹true = false›
    · cases ‹true = false›
  | false =>
    split
    · cases ‹false = true›
    · cases ‹false = true›
    · exact absurd ‹_› (hne _)
    · rfl

variable (h : (top.map Visit.bare).Perm (top'.map Visit.bare))

include h

private theorem identities_congr : identities top = identities top' :=
  sorted_eq_of_perm (perm_map_bare (fun v => v.qualified_bare) h)

private theorem maxDepth_congr : maxDepth top = maxDepth top' := by
  have hperm : (top.map fun v => (segments v).length).Perm (top'.map fun v => (segments v).length) :=
    perm_map_bare (fun v => by rw [segments_bare]) h
  exact hperm.foldl_eq 0

private theorem sorted_candidates_congr (short : String) (depth : Nat) (hd : (top.map (·.qualified)).Nodup) :
    sortedByKey (candidates p short top depth) = sortedByKey (candidates p short top' depth) := by
  refine sortBy_key_eq_of_perm Prod.fst (perm_map_bare (fun v => ?_) h) ?_
  · rw [segments_bare, v.qualified_bare]
  · rw [candidates, map_map]
    exact hd

private theorem mangle_congr (short : String) (taken : List (String × String)) (hd : (top.map (·.qualified)).Nodup) :
    mangle p short top taken = mangle p short top' taken := by
  have hfrom : ∀ count depth clash,
      mangleFrom p short top taken count depth clash = mangleFrom p short top' taken count depth clash := by
    intro count
    induction count with
    | zero =>
      intro depth clash
      rw [mangleFrom, mangleFrom, identities_congr h]
    | succ count ih =>
      intro depth clash
      simp only [mangleFrom, sorted_candidates_congr h short depth hd, ih]
  rw [mangle, mangle, maxDepth_congr h, hfrom]

private theorem perm_groupOf (short : String) :
    ((groupOf top short).map Visit.bare).Perm ((groupOf top' short).map Visit.bare) :=
  perm_filter_bare (fun v => by rw [Visit.decl_bare, Contract.Declaration.name_bare]) h

private theorem single_congr :
    (∃ v v', top = [v] ∧ top' = [v'] ∧ v.qualified = v'.qualified) ∨
      (∀ v, top ≠ [v]) ∧ ∀ v', top' ≠ [v'] := by
  have hlen : top.length = top'.length := by simpa using h.length_eq
  match top, top', hlen with
  | [], [], _ => exact .inr ⟨by simp, by simp⟩
  | [v], [v'], _ =>
    have hbare : v.bare = v'.bare := by simpa using h
    exact .inl ⟨v, v', rfl, rfl, by rw [← v.qualified_bare, hbare, v'.qualified_bare]⟩
  | _ :: _ :: _, _ :: _ :: _, _ => exact .inr ⟨by simp, by simp⟩

private theorem assignSingles_congr (a : Assignment) (shorts : List String) :
    assignSingles p top a shorts = assignSingles p top' a shorts := by
  induction shorts generalizing a with
  | nil => rfl
  | cons short rest ih =>
    have hgroup := perm_groupOf h short
    rcases single_congr hgroup with ⟨v, v', hv, hv', hq⟩ | ⟨hne, hne'⟩
    · rw [assignSingles_single hv, assignSingles_single hv', hq, ih]
    · rw [assignSingles_shared hne, assignSingles_shared hne', identities_congr hgroup, ih]

/-- The order of declarations does not change names. -/
theorem assignTop_congr (hd : (top.map (·.qualified)).Nodup) : assignTop p top = assignTop p top' := by
  have hgroups : ∀ shorts a, assignGroups p top a shorts = assignGroups p top' a shorts := by
    intro shorts
    induction shorts with
    | nil => exact fun _ => rfl
    | cons short rest ih =>
      intro a
      have hnodup : ((groupOf top short).map (·.qualified)).Nodup := hd.sublist (filter_sublist.map _)
      rw [assignGroups, assignGroups, mangle_congr (perm_groupOf h short) short a.owners hnodup]
      exact bind_congr fun names => ih _
  have hshorts : sortedSet (top.map (·.decl.name)) = sortedSet (top'.map (·.decl.name)) :=
    sortedSet_eq_of_perm
      (perm_map_bare (fun v => by rw [Visit.decl_bare, Contract.Declaration.name_bare]) h)
  rw [assignTop, assignTop, hshorts, assignSingles_congr h]
  exact bind_congr fun (a, shared) => congrArg (· >>= fun r => pure r.names) (hgroups shared a)

end

section

variable {program program' : Program} {policy : Policy} {t : Table}

theorem entryOf_bare (sep : String) (names : List (String × String)) (v : Visit) :
    entryOf sep names v.bare = (entryOf sep names v).bare := by
  have hname : emittedName sep names v.bare = emittedName sep names v := by
    rw [emittedName, emittedName, v.names_bare, v.outermost_bare, Visit.qualified_bare]
  rw [entryOf, hname, v.qualified_bare, v.ns_bare, v.path_bare, v.parentQualified?_bare]
  rfl

/-- Resolution gives coherent tables. -/
theorem coherent_of_resolve (hd : program.DistinctKept) (ht : resolve program policy = .ok t) :
    t.Coherent := by
  obtain ⟨names, _, _, rfl⟩ := (resolve_eq_ok hd).1 ht
  intro q
  refine find?_key_perm (perm_sortBy _ _) ?_ q
  refine ((perm_sortBy _ _).map _).nodup_iff.2 ?_
  rw [map_map]
  exact ((perm_order program).map _).nodup_iff.2 hd

/-- Reordered programs have the same bare table. -/
theorem resolve_reordered (h : program.Reordered program') (hd : program.DistinctKept)
    (ht : resolve program policy = .ok t) :
    ∃ t', resolve program' policy = .ok t' ∧ t'.bare = t.bare := by
  obtain ⟨names, hnames, hn, rfl⟩ := (resolve_eq_ok hd).1 ht
  have hd' : program'.DistinctKept :=
    (perm_map_bare (fun v => v.qualified_bare) h.kept).nodup_iff.1 hd
  have horder : ((order program).map Visit.bare).Perm ((order program').map Visit.bare) :=
    ((perm_order program).map _).trans (h.kept.trans ((perm_order program').map _).symm)
  have htops : ((tops program).map Visit.bare).Perm ((tops program').map Visit.bare) :=
    perm_filter_bare (fun v => by simp) h.kept
  have hentries : ∀ p : Program, ((order p).map Visit.bare).map (entryOf policy.completed.nestedSeparator names) =
      (ofNames policy.completed names p).resolved.map Entry.bare := by
    intro p
    rw [ofNames, map_map, map_map]
    exact map_congr_left fun v _ => entryOf_bare _ _ v
  have hnodup : (((ofNames policy.completed names program).resolved.map Entry.bare).map (·.name)).Nodup := by
    rw [ofNames, map_map, map_map]
    exact hn
  have hperm : ((ofNames policy.completed names program').resolved.map Entry.bare).Perm
      ((ofNames policy.completed names program).resolved.map Entry.bare) := by
    rw [← hentries, ← hentries]
    exact (horder.map _).symm
  -- the same names are assigned, and sorting by them undoes the reordering
  refine ⟨ofNames policy.completed names program', (resolve_eq_ok hd').2 ⟨names, ?_, ?_, rfl⟩, ?_⟩
  · rw [← hnames]
    exact (assignTop_congr htops (hd.sublist (filter_sublist.map _))).symm
  · have := (hperm.map (·.name)).nodup_iff.2 hnodup
    rw [ofNames, map_map, map_map] at this
    exact this
  · have hsorted : ∀ p : Program, (ofNames policy.completed names p).entries.map Entry.bare =
        sortBy (fun a b => Text.before a.name b.name)
          ((ofNames policy.completed names p).resolved.map Entry.bare) := by
      intro p
      exact map_sortBy_key Entry.name Entry.name Entry.bare (fun _ => rfl) _
    have hbare := sortBy_key_eq_of_perm Entry.name hperm ((hperm.map _).nodup_iff.2 hnodup)
    rw [bare, bare, hsorted, hsorted, hbare]
    rfl

end

end Table

end Covenant.Naming
