import Covenant.Proofs.Compile.Generation
import Covenant.Proofs.Emit.Core

/-!
# The output does not depend on the order of declarations

Reordered programs are valid together, lose the same declarations to exclusion, get the same names and have the same
routes; what their declarations are printed from is the core of one binder.
-/

namespace Covenant.Compile

open Binding (Binder)
open Contract (Declaration Program Visit)
open Emit (Language Settings)
open Naming (Table)
open Outcome
open List

def emittedNames (t : Table) : List (String × String) := t.entries.map fun e => (e.qualified, e.name)

/-- Two languages got the same files and the same names. -/
structure Emitted.Alike (e e' : Emitted) : Prop where
  language : e'.language = e.language
  files : e'.files = e.files
  names : emittedNames e'.table = emittedNames e.table
  lookup : ∀ q, (e'.table.lookup q).map (·.name) = (e.table.lookup q).map (·.name)

section

variable {p p' : Program} {o : Options} {settings : Settings} {l : Language} {e : Emitted}

private theorem emitLanguage_reordered (h : p.Reordered p') (hd : p.DistinctNames)
    (ha : p.DistinctAliases) (he : emitLanguage o settings p l = .ok e) :
    ∃ e', emitLanguage o settings p' l = .ok e' ∧ e.Alike e' := by
  have hkept : p.DistinctKept := hd.kept
  have hkept' : p'.DistinctKept := (h.nodup_qualified hd).kept
  obtain ⟨b, files, hb, hfiles, rfl⟩ := emitLanguage_eq_ok.1 he
  obtain ⟨htypes, htable⟩ := Binder.build_eq_ok.1 hb
  obtain ⟨t', ht', hbare⟩ := Table.resolve_reordered h hkept htable
  have hcoherent := Table.coherent_of_resolve hkept htable
  have hcoherent' := Table.coherent_of_resolve hkept' ht'
  -- the two tables may differ in what is nested in their entries, which the core leaves out
  let b' : Binder := { table := t', types := b.types }
  have hb' : Binder.build l.targets o.typeOverrides (l.policy.extend o.unmangled) p' = .ok b' :=
    Binder.build_eq_ok.2 ⟨htypes, ht'⟩
  have hfiles' : l.emit b' settings p' = .ok files := by
    have hname : p.name = p'.name := by
      obtain ⟨_, _, rfl⟩ := h
      rfl
    have hbinder : b'.core = b.core := congrArg (Binder.mk · b.types) (Table.core_eq_of_bare hbare)
    rw [← l.emit_core (b := b') hcoherent', hbinder, l.emit_core hcoherent,
      ← emit_congr l b settings hname (h.routes hd ha)]
    exact hfiles
  have hnames : ∀ t : Table, emittedNames t = emittedNames t.bare := by
    intro t
    rw [emittedNames, emittedNames, Table.bare, map_map]
    rfl
  have hlookup : ∀ {t : Table}, t.Coherent → ∀ q, (t.bare.lookup q).map (·.name) = (t.lookup q).map (·.name) := by
    intro t ht q
    rw [Table.lookup_bare ht, Option.map_map]
    rfl
  refine ⟨.ofFiles o l b' files, emitLanguage_eq_ok.2 ⟨b', files, hb', hfiles', rfl⟩, rfl, rfl, ?_, fun q => ?_⟩
  · show emittedNames t' = emittedNames b.table
    rw [hnames t', hnames b.table, hbare]
  · show (t'.lookup q).map (·.name) = (b.table.lookup q).map (·.name)
    rw [← hlookup hcoherent, ← hlookup hcoherent', hbare]

end

/-- Generation succeeds for a program in every order of its declarations or in none, with the same files in the same
order, the same names and the same excluded declarations. -/
theorem generate_reordered {p p' : Program} {o : Options} {out : Output} (h : p.Reordered p')
    (hg : generate p o = .ok out) :
    ∃ out', generate p' o = .ok out' ∧ out'.files = out.files ∧ out'.excluded = out.excluded ∧
      Forall₂ Emitted.Alike out.emitted out'.emitted := by
  have hname : p'.name = p.name := by
    obtain ⟨_, _, rfl⟩ := h
    rfl
  obtain ⟨hkept, hexcluded⟩ := h.exclude o.exclude
  simp only [generate, bind_eq_ok, mapError_eq_ok, pure_eq_ok] at hg
  obtain ⟨languages, hlanguages, _, hvalid, emitted, hemitted, rfl⟩ := hg
  have hd : (p.exclude o.exclude).1.DistinctNames := by
    have hsublist := (p.visits_exclude_sublist o.exclude).map (·.qualified)
    rw [map_map, map_map] at hsublist
    simp only [Function.comp_def, Visit.qualified_bare] at hsublist
    exact (Program.nodup_of_validate hvalid).sublist hsublist
  have ha := Program.distinctAliases_exclude (Program.distinctAliases_of_validate hvalid) o.exclude
  obtain ⟨emitted', hemitted', halike⟩ := mapM_transfer
    (fun l => (emitLanguage o ⟨p.name, o.containerName⟩ (p'.exclude o.exclude).1 l).mapError
      (·.within (l.name ++ " generator"))) hemitted fun l e he => by
    obtain ⟨e', he', hee'⟩ := emitLanguage_reordered hkept hd ha (mapError_eq_ok.1 he)
    exact ⟨e', mapError_eq_ok.2 he', hee'⟩
  refine ⟨{ program := p.name, emitted := emitted', excluded := (p'.exclude o.exclude).2 }, ?_, ?_, hexcluded, halike⟩
  · simp only [generate, bind_eq_ok, mapError_eq_ok, pure_eq_ok, hname]
    exact ⟨languages, hlanguages, (), h.validate hvalid, emitted', hemitted', rfl⟩
  · show emitted'.flatMap (·.files) = emitted.flatMap (·.files)
    clear hemitted hemitted'
    induction halike with
    | nil => rfl
    | cons hee' _ ih => rw [flatMap_cons, flatMap_cons, ih, hee'.files]

/-- A help desk: tickets with states and priorities, and a query with an alias.  The order is given by what stands
first. -/
def desk (queryFirst stateFirst : Bool) : Program :=
  let state : Declaration := .enum { name := "State" } [some { name := "Open", value := 1 }]
  let priority : Declaration := .enum { name := "Priority" } []
  let ticket : Declaration :=
    .type { ns := "Desk", name := "Ticket" }
      { fields := [some { name := "Subject", type := some (.named "string") },
          some { name := "State", type := some (.named "Ticket.State") }] }
      (if stateFirst then [state, priority] else [priority, state])
  let query : Declaration :=
    .type { ns := "Desk", name := "FindTicket" } { kind := .query, result := some (.named "Ticket") } []
  { name := "Desk", aliases := [("Desk.FindTicket", ["find"])]
    declarations := if queryFirst then [query, ticket] else [ticket, query] }

/-- Two orders of the help desk give the same files. -/
theorem generate_reordered_desk :
    ∃ out out', (desk false true).Reordered (desk true false) ∧ generate (desk false true) {} = .ok out ∧
      generate (desk true false) {} = .ok out' ∧ out'.files = out.files := by
  have hreordered : (desk false true).Reordered (desk true false) :=
    ⟨_, .trans (.type _ _ (.swap _ _ _) (.refl _)) (.swap _ _ _), rfl⟩
  have hok : (match generate (desk false true) {} with
      | .ok _ => true
      | .error _ => false) = true := by decide +kernel
  split at hok
  · rename_i out hout
    obtain ⟨out', hout', hfiles, _⟩ := generate_reordered hreordered hout
    exact ⟨out, out', hreordered, hout, hout', hfiles⟩
  · cases hok

end Covenant.Compile
