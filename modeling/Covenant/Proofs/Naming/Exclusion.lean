import Covenant.Proofs.Contract.Routes
import Covenant.Proofs.Naming.Reordering

/-!
# Flagged declarations have no names

Resolution reads the declarations that are not flagged, in their order, and of each what is around it but not what is
nested in it.  So a program and what exclusion without rules leaves of it get the same names.
-/

namespace Covenant.Naming

open Contract (Program Visit map_filter_bare)
open Outcome
open List

namespace Table

section

variable {program program' : Program} (h : program.kept.map Visit.bare = program'.kept.map Visit.bare)
include h

private theorem tops_bare_congr : (tops program).map Visit.bare = (tops program').map Visit.bare := by
  rw [tops, tops, map_filter_bare (by simp), map_filter_bare (by simp), h]

private theorem order_bare_congr : (order program).map Visit.bare = (order program').map Visit.bare := by
  rw [order, order, map_append, map_append, map_reverse, map_reverse, map_reverse,
    map_reverse, tops_bare_congr h, map_filter_bare (by simp), map_filter_bare (by simp), h]

private theorem resolved_bare_congr (p : Policy) (names : List (String × String)) :
    (ofNames p names program).resolved.map Entry.bare = (ofNames p names program').resolved.map Entry.bare := by
  have hentries : ∀ vs : List Visit, (vs.map (entryOf p.nestedSeparator names)).map Entry.bare =
      (vs.map Visit.bare).map (entryOf p.nestedSeparator names) := by
    intro vs
    rw [map_map, map_map]
    exact map_congr_left fun v _ => (entryOf_bare _ _ v).symm
  rw [ofNames, ofNames, hentries, hentries, order_bare_congr h]

private theorem ofNames_bare_congr (p : Policy) (names : List (String × String)) :
    (ofNames p names program).bare = (ofNames p names program').bare := by
  have hsorted : ∀ program : Program, (ofNames p names program).entries.map Entry.bare =
      Text.sortBy (fun a b => Text.before a.name b.name) ((ofNames p names program).resolved.map Entry.bare) := by
    intro program
    exact Text.map_sortBy_key Entry.name Entry.name Entry.bare (fun _ => rfl) _
  rw [bare, bare, hsorted, hsorted, resolved_bare_congr h]
  rfl

/-- Names depend on the bare declarations that are kept. -/
theorem resolve_bare_congr (hd : program.DistinctKept) (policy : Policy) :
    bare <$> resolve program policy = bare <$> resolve program' policy := by
  have hd' : (program'.kept.map (·.qualified)).Nodup := by
    have hmap := congrArg (List.map Visit.qualified) h
    simp only [map_map, Function.comp_def, Visit.qualified_bare] at hmap
    rwa [← hmap]
  have hassign : assignTop policy.completed (tops program) = assignTop policy.completed (tops program') :=
    assignTop_congr (.of_eq (tops_bare_congr h)) (hd.sublist (filter_sublist.map _))
  have hcheck : ∀ names, checkUnique [] (ofNames policy.completed names program).resolved.reverse =
      checkUnique [] (ofNames policy.completed names program').resolved.reverse := by
    intro names
    have hbare := checkUnique_map Entry.bare (fun _ => ⟨rfl, rfl⟩) []
    rw [← hbare, ← hbare (ofNames policy.completed names program').resolved.reverse, map_reverse,
      map_reverse, resolved_bare_congr h]
  rw [resolve_eq hd, resolve_eq hd', hassign]
  simp only [map_bind, map_pure, hcheck, ofNames_bare_congr h]

end

/-- Names, routes and exclusion leave out the same declarations.  Resolution of a program and of what exclusion
without rules leaves of it fails alike or gives the same entries, up to what is nested in their declarations, and the
routes are the same. -/
theorem exclusion_agrees (p : Program) (hd : (p.visits.map (·.qualified)).Nodup) (policy : Policy) :
    ((∃ c, resolve p policy = .error c ∧ resolve (p.exclude {}).1 policy = .error c) ∨
      ∃ t t', resolve p policy = .ok t ∧ resolve (p.exclude {}).1 policy = .ok t' ∧
        t.entries.map Entry.bare = t'.entries.map Entry.bare) ∧
      p.routes = (p.exclude {}).1.routes := by
  refine ⟨?_, (Program.routes_exclude_none hd).symm⟩
  have hbare := resolve_bare_congr p.kept_exclude_none.symm (Program.DistinctNames.kept hd) policy
  cases hp : resolve p policy <;> cases hq : resolve (p.exclude {}).1 policy <;> rw [hp, hq] at hbare
  case error.error c c' => exact .inl ⟨c, rfl, congrArg Except.error (Except.error.inj hbare).symm⟩
  case ok.ok t t' => exact .inr ⟨t, t', rfl, rfl, congrArg Table.entries (Except.ok.inj hbare)⟩
  all_goals cases hbare

/-- Two entries, of which one is flagged together with its state, and a flagged line in the other. -/
def journals : Program :=
  { name := "Journals", aliases := [("Audit.Entry", ["audit"]), ("Books.Close", ["close"])]
    declarations :=
      [.type { ns := "Audit", name := "Entry", excluded := true } { kind := .command } [.enum { name := "State" } []],
        .type { ns := "Books", name := "Entry" } {}
          [.type { name := "Line", excluded := true } {} [.enum { name := "Unit" } []], .enum { name := "State" } []],
        .type { ns := "Books", name := "Close" } { kind := .command } []] }

/-- The flagged parts of the journals get no names and no routes. -/
theorem exclusion_agrees_journals :
    (journals.exclude {}).2 = ["Audit.Entry", "Audit.Entry.State", "Books.Entry.Line", "Books.Entry.Line.Unit"] ∧
      (∃ t t', resolve journals {} = .ok t ∧ resolve (journals.exclude {}).1 {} = .ok t' ∧
        t.entries.map (·.name) = ["Close", "Entry", "Entry_State"] ∧
        t.entries.map Entry.bare = t'.entries.map Entry.bare) ∧
      journals.routes.map (·.key) = ["Books.Close", "close"] ∧
      journals.routes = (journals.exclude {}).1.routes := by
  have hnames : ((resolve journals {}).toOption.map fun t => t.entries.map (·.name)) =
      some ["Close", "Entry", "Entry_State"] := by
    decide +kernel
  obtain ⟨t, ht, hnames⟩ := toOption_map_eq_some.1 hnames
  obtain ⟨⟨c, hc, _⟩ | ⟨t', t'', ht', ht'', hentries⟩, hroutes⟩ := exclusion_agrees journals (by decide +kernel) {}
  · cases ht.symm.trans hc
  · obtain rfl := Except.ok.inj (ht.symm.trans ht')
    exact ⟨by decide +kernel, ⟨t, t'', ht, ht'', hnames, hentries⟩, by decide +kernel, hroutes⟩

end Table

end Covenant.Naming
