import Covenant.Proofs.Binding.Nameless
import Covenant.Proofs.Compile.Generation
import Covenant.Proofs.Emit.Rendering

/-!
# All languages speak the same wire format

Each language resolves names and binds references with its own reserved words, targets and name table.  None of this
reaches the wire (`shapes_agree`).
-/

namespace Covenant.Compile

open Binding (Binder)
open Contract (Program TypeRef)
open Emit (Language)
open Naming (Table)
open List

private theorem unmangled_policy (l l' : Language) (unmangled : List String) :
    (l.policy.extend unmangled).unmangled = (l'.policy.extend unmangled).unmangled := by
  cases l <;> cases l' <;> rfl

/-- Whatever languages a compilation has emitted, each declaration has an entry in both tables, and each type has a
shape in both that is the same up to names. -/
theorem shapes_agree {p : Program} {o : Options} {out : Output} (h : generate p o = .ok out) {d d' : Emitted}
    (hd : d ∈ out.emitted) (hd' : d' ∈ out.emitted) :
    ∃ b b', binderOf o (p.exclude o.exclude).1 d.language = .ok b ∧ b.table = d.table ∧
      binderOf o (p.exclude o.exclude).1 d'.language = .ok b' ∧ b'.table = d'.table ∧
      ∀ v ∈ (p.exclude o.exclude).1.kept, ∃ e e', d.table.lookup v.qualified = some e ∧ e.decl = v.decl ∧
        d'.table.lookup v.qualified = some e' ∧ e.unnamed = e'.unnamed ∧
        (v.decl.body?.isSome = true → ∃ s s', b.shapeOf o.containerName e = .ok s ∧
          b'.shapeOf o.containerName e' = .ok s' ∧ s.unnamed = s'.unnamed) := by
  obtain ⟨b, files, hb, hfiles, heq⟩ := emitted_of_generate h hd
  obtain ⟨b', files', hb', hfiles', heq'⟩ := emitted_of_generate h hd'
  have htable : b.table = d.table := congrArg Emitted.table heq
  have htable' : b'.table = d'.table := congrArg Emitted.table heq'
  have hkept := nodup_kept_of_generate h
  -- the two languages leave the same names unmangled
  have hparallel := Binder.parallel_of_build hkept (unmangled_policy _ _ _) hb hb'
  refine ⟨b, b', hb, htable, hb', htable', fun v hv => ?_⟩
  rw [← htable, ← htable']
  obtain ⟨e, he, hdecl⟩ := Table.lookup_of_mem_kept hkept (Binder.build_eq_ok.1 hb).2 hv
  obtain ⟨e', he', _⟩ := Table.lookup_of_mem_kept hkept (Binder.build_eq_ok.1 hb').2 hv
  have hunnamed : e.unnamed = e'.unnamed := by
    have hlookup := hparallel.lookup v.qualified
    rw [he, he'] at hlookup
    exact Option.some.inj hlookup
  refine ⟨e, e', he, hdecl, he', hunnamed, fun htype => ?_⟩
  have hmem := Table.mem_entries_of_lookup (Binder.build_eq_ok.1 hb).2 he
  have hmem' := Table.mem_entries_of_lookup (Binder.build_eq_ok.1 hb').2 he'
  have htype' : e'.decl.body?.isSome = true := by
    rw [← (Naming.Entry.unnamed_eq_iff.1 hunnamed).2.2.2.1, hdecl, htype]
  obtain ⟨s, hs⟩ := Language.shapeOf_of_emit hfiles hmem (hdecl ▸ htype)
  obtain ⟨s', hs'⟩ := Language.shapeOf_of_emit hfiles' hmem' htype'
  exact ⟨s, s', hs, hs', Binder.shapeOf_parallel hparallel hunnamed hs hs'⟩

/-- A market: a generic page, a record that one language has to rename, and a query for a page of them with error
codes. -/
def market : Program :=
  { name := "Market"
    declarations :=
      [.type { ns := "Market", name := "Page" }
          { typeParameters := [some { name := "T" }]
            fields := [some { name := "Items", type := some (.listOf (.named "T")) }] } [],
        .type { ns := "Market", name := "Record" }
          { fields := [some { name := "Value", type := some (TypeRef.named "DateTime").orNull }] } [],
        .type { ns := "Market", name := "Records" }
          { kind := .query, baseTypes := [some (.named "IQuery"), some (.within "Market" "Page" [.named "Record"])]
            result := some (.within "Market" "Page" [.named "Record"]) }
          [.type { name := "ErrorCodes" } { constants := [{ name := "Closed", value := some (.int 7) }] } []]] }

/-- TypeScript renames the record of the market, and the shape is the same. -/
theorem shapes_agree_market :
    ∃ out d d' b b' e e' s s', generate market {} = .ok out ∧ out.emitted = [d, d'] ∧ d.language = .dart ∧
      d'.language = .typescript ∧ binderOf {} (market.exclude {}).1 .dart = .ok b ∧
      binderOf {} (market.exclude {}).1 .typescript = .ok b' ∧ e.name = "Record" ∧ e'.name = "Record_" ∧
      b.shapeOf "ErrorCodes" e = .ok s ∧ b'.shapeOf "ErrorCodes" e' = .ok s' ∧ s.unnamed = s'.unnamed := by
  have hrun : (generate market {}).toOption.map (fun out => out.emitted.map fun d =>
      (d.language, (d.table.lookup "Market.Record").map (·.name))) =
      some [(.dart, some "Record"), (.typescript, some "Record_")] := by decide +kernel
  have hkept : (((market.exclude {}).1.kept.find? (·.qualified == "Market.Record")).map (·.decl.body?.isSome)) =
      some true := by decide +kernel
  obtain ⟨v, hfind, htype⟩ := Option.map_eq_some_iff.1 hkept
  have hv := mem_of_find?_eq_some hfind
  have hq : v.qualified = "Market.Record" := by simpa using find?_some hfind
  obtain ⟨out, hout, hrun⟩ := Outcome.toOption_map_eq_some.1 hrun
  simp only [map_eq_cons_iff, map_eq_nil_iff, Prod.mk.injEq] at hrun
  obtain ⟨d, _, hemitted, ⟨hdart, hname⟩, d', _, rfl, ⟨htypescript, hname'⟩, rfl⟩ := hrun
  obtain ⟨b, b', hb, _, hb', _, hagree⟩ := shapes_agree hout (hemitted ▸ mem_cons_self)
    (hemitted ▸ mem_cons_of_mem d (.head _))
  obtain ⟨e, e', he, _, he', _, hshapes⟩ := hagree v hv
  obtain ⟨s, s', hs, hs', hunnamed⟩ := hshapes htype
  rw [hq] at he he'
  rw [he] at hname
  rw [he'] at hname'
  rw [hdart] at hb
  rw [htypescript] at hb'
  exact ⟨out, d, d', b, b', e, e', s, s', hout, hemitted, hdart, htypescript, hb, hb', Option.some.inj hname,
    Option.some.inj hname', hs, hs', hunnamed⟩

end Covenant.Compile
