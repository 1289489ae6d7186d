import Covenant.Compile.Generate
import Covenant.Proofs.Contract.Exclusion

/-!
# What a compilation goes through

A compilation that succeeds has validated the program, and each language has built its binder for what exclusion left
and emitted its files.  The preamble of a language stands in front of them if it is given under the name of the
language as it is spelled.
-/

namespace Covenant.Compile

open Binding (Binder)
open Contract (Program)
open Emit (Language Settings)
open Outcome
open List
open Text

def binderOf (o : Options) (p : Program) (l : Language) : Except Failure Binder :=
  Binder.build l.targets o.typeOverrides (l.policy.extend o.unmangled) p

def Emitted.ofFiles (o : Options) (l : Language) (b : Binder) (files : List Emit.OutputFile) : Emitted :=
  { language := l
    files := files.map fun f => { f with language := l.name, content := o.preambleOf l ++ f.content }
    table := b.table
    shadowed := b.table.entries.filter fun e => (b.types.category? e.decl.name).isSome }

variable {l : Language}

theorem emitLanguage_eq_ok {o : Options} {settings : Settings} {p : Program} {e : Emitted} :
    emitLanguage o settings p l = .ok e ↔
      ∃ b files, binderOf o p l = .ok b ∧
        l.emit b settings p = .ok files ∧ Emitted.ofFiles o l b files = e := by
  simp only [emitLanguage, bind_eq_ok, pure_eq_ok]
  constructor
  · rintro ⟨b, hb, files, hfiles, rfl⟩
    exact ⟨b, files, hb, hfiles, rfl⟩
  · rintro ⟨b, files, hb, hfiles, rfl⟩
    exact ⟨b, hb, files, hfiles, rfl⟩

/-- Of the program itself, emission sees the name and the routes. -/
theorem emit_congr (l : Language) (b : Binder) (settings : Settings) {p p' : Program} (hname : p.name = p'.name)
    (hroutes : p.routes = p'.routes) : l.emit b settings p = l.emit b settings p' := by
  cases l with
  | dart =>
    show Emit.Dart.emit b settings p = Emit.Dart.emit b settings p'
    unfold Emit.Dart.emit Emit.Dart.header
    rw [hname]
  | typescript =>
    show Emit.TypeScript.emit b settings p = Emit.TypeScript.emit b settings p'
    unfold Emit.TypeScript.emit Emit.TypeScript.clientText Emit.TypeScript.header
    rw [hname, hroutes]

variable {p : Program} {o : Options} {out : Output}

theorem validate_of_generate (h : generate p o = .ok out) : p.validate = .ok () := by
  simp only [generate, bind_eq_ok, mapError_eq_ok, pure_eq_ok] at h
  obtain ⟨_, _, _, hvalid, _⟩ := h
  exact hvalid

theorem nodup_exclude (h : p.validate = .ok ()) (rules : Contract.ExcludeRules) :
    (p.exclude rules).1.DistinctNames :=
  Program.nodup_of_validate (Program.validate_exclude h rules)

private theorem nodup_of_generate (h : generate p o = .ok out) : (p.exclude o.exclude).1.DistinctNames :=
  nodup_exclude (validate_of_generate h) o.exclude

/-- The qualified names that are left are distinct. -/
theorem nodup_kept_of_generate (h : generate p o = .ok out) : (p.exclude o.exclude).1.DistinctKept :=
  (nodup_of_generate h).kept

/-- Each language has built a binder for what exclusion left. -/
theorem emitted_of_generate (h : generate p o = .ok out) {e : Emitted} (he : e ∈ out.emitted) :
    ∃ b files, binderOf o (p.exclude o.exclude).1 e.language = .ok b ∧
      e.language.emit b ⟨p.name, o.containerName⟩ (p.exclude o.exclude).1 = .ok files ∧
      Emitted.ofFiles o e.language b files = e := by
  simp only [generate, bind_eq_ok, mapError_eq_ok, pure_eq_ok] at h
  obtain ⟨languages, _, _, _, emitted, hemitted, rfl⟩ := h
  obtain ⟨l, _, hl⟩ := exists_of_mem_right (mapM_eq_ok.1 hemitted) he
  obtain ⟨b, files, hb, hfiles, rfl⟩ := emitLanguage_eq_ok.1 (mapError_eq_ok.1 hl)
  exact ⟨b, files, hb, hfiles, rfl⟩

/-- The only preamble whose key, without blanks around it and in lower case, is the name of the language. -/
def Options.IsPreambleOf (o : Options) (l : Language) (key text : String) : Prop :=
  ∀ entry, entry ∈ o.preambles ∧ Text.lower (trim entry.1) = l.name ↔ entry = (key, text)

/-- No key of a preamble is read as the name of the language. -/
def Options.HasNoPreamble (o : Options) (l : Language) : Prop :=
  ∀ entry ∈ o.preambles, Text.lower (trim entry.1) ≠ l.name

private theorem lower_trim_name (l : Language) : Text.lower (trim l.name) = l.name := by
  cases l with
  | dart => decide +kernel
  | typescript => decide +kernel

private theorem preambleOf_eq_empty (h : o.HasNoPreamble l) : o.preambleOf l = "" := by
  have hlookup : o.preambles.lookup l.name = none := by
    refine Text.lookup_eq_none_iff.2 fun hmem => ?_
    obtain ⟨entry, hentry, hname⟩ := mem_map.1 hmem
    exact h entry hentry (hname ▸ lower_trim_name l)
  rw [Options.preambleOf, hlookup]
  rfl

private theorem preambleOf_eq {key text : String} (h : o.IsPreambleOf l key text) :
    o.preambleOf l = if key = l.name then text else "" := by
  unfold Options.preambleOf
  cases hlookup : o.preambles.lookup l.name with
  | none =>
    have hkey : key ≠ l.name := by
      rintro rfl
      exact Text.lookup_eq_none_iff.1 hlookup (mem_map.2 ⟨_, ((h _).2 rfl).1, rfl⟩)
    rw [if_neg hkey]
    rfl
  | some found =>
    have hentry := (h (l.name, found)).1 ⟨mem_of_lookup hlookup, lower_trim_name l⟩
    obtain ⟨hkey, htext⟩ := Prod.mk.inj hentry
    rw [if_pos hkey.symm, ← htext]
    rfl

private theorem forall₂_files (l : Language) (b : Binder) (files : List Emit.OutputFile) :
    Forall₂ (fun f r => f.language = l.name ∧ f.name = r.name ∧ f.content = o.preambleOf l ++ r.content)
      (Emitted.ofFiles o l b files).files files := by
  rw [Emitted.ofFiles, forall₂_map_left_iff, forall₂_same]
  exact fun f _ => ⟨rfl, rfl, rfl⟩

/-- A preamble whose key is read as the name of a language stands in front of what was emitted for the language iff
the key is that name as it is spelled, unless its text is empty.  With any other spelling, or without a preamble, the
files are as they were emitted. -/
theorem preamble_applied_iff (h : generate p o = .ok out) {e : Emitted} (he : e ∈ out.emitted) :
    ∃ b rendered, binderOf o (p.exclude o.exclude).1 e.language = .ok b ∧
      e.language.emit b ⟨p.name, o.containerName⟩ (p.exclude o.exclude).1 = .ok rendered ∧
      (∀ key text, o.IsPreambleOf e.language key text →
        Forall₂ (fun f r => f.language = e.language.name ∧ f.name = r.name ∧
          (f.content = text ++ r.content ↔ key = e.language.name ∨ text = "") ∧
          (key ≠ e.language.name → f.content = r.content)) e.files rendered) ∧
      (o.HasNoPreamble e.language →
        Forall₂ (fun f r => f.language = e.language.name ∧ f.name = r.name ∧ f.content = r.content)
          e.files rendered) := by
  obtain ⟨b, rendered, hb, hrendered, heq⟩ := emitted_of_generate h he
  have hfiles := forall₂_files (o := o) e.language b rendered
  rw [heq] at hfiles
  refine ⟨b, rendered, hb, hrendered, fun key text honly => ?_, fun hnone => ?_⟩
  · rw [preambleOf_eq honly] at hfiles
    refine hfiles.imp fun f r hf => ⟨hf.1, hf.2.1, ?_, fun hkey => by simpa [hkey] using hf.2.2⟩
    rw [hf.2.2]
    by_cases hkey : key = e.language.name
    · simp [hkey]
    · -- nothing stands in front of the file, so only an empty text does
      rw [if_neg hkey, String.append_left_inj]
      simp [hkey, eq_comm]
  · rw [preambleOf_eq_empty hnone] at hfiles
    exact hfiles.imp fun f r hf => ⟨hf.1, hf.2.1, by simpa using hf.2.2⟩

private theorem isPreambleOf_of_filter {key text : String}
    (h : (o.preambles.filter fun entry => Text.lower (trim entry.1) == l.name) = [(key, text)]) :
    o.IsPreambleOf l key text := by
  intro entry
  have hmem : entry ∈ [(key, text)] ↔ entry = (key, text) := mem_singleton
  rw [← hmem, ← h, mem_filter, beq_iff_eq]

def stall : Program :=
  { name := "Stall"
    declarations :=
      [.type { ns := "App", name := "Fruit" }
        { fields := [some { name := "Name", type := some (.named "string") }] } []] }

/-- A preamble for each language, one of them under a name that is spelled in another way. -/
def greetings : Options := { preambles := [("dart", "// hello\n"), ("TypeScript ", "// welcome\n")] }

private theorem languages_stall :
    (generate stall greetings).toOption.map (·.emitted.map fun e => (e.language, e.files.length)) =
    some [(.dart, 1), (.typescript, 2)] := by
  decide +kernel

/-- The preamble of the language stands in front of its file. -/
theorem preamble_applied_iff_stall :
    ∃ out e b rendered, generate stall greetings = .ok out ∧ e ∈ out.emitted ∧ e.language = .dart ∧
      greetings.IsPreambleOf .dart "dart" "// hello\n" ∧ binderOf greetings (stall.exclude {}).1 .dart = .ok b ∧
      Language.dart.emit b ⟨"Stall", "ErrorCodes"⟩ (stall.exclude {}).1 = .ok rendered ∧ e.files.length = 1 ∧
      Forall₂ (fun f r => f.content = "// hello\n" ++ r.content) e.files rendered := by
  obtain ⟨out, hout, hlanguages⟩ := toOption_map_eq_some.1 languages_stall
  obtain ⟨e, rest, hemitted, hlanguage, -⟩ := map_eq_cons_iff.1 hlanguages
  obtain ⟨hdart, hlength⟩ := Prod.mk.inj hlanguage
  have he : e ∈ out.emitted := hemitted ▸ mem_cons_self
  have honly : greetings.IsPreambleOf .dart "dart" "// hello\n" := isPreambleOf_of_filter (by decide +kernel)
  obtain ⟨b, rendered, hb, hrendered, hpreamble, -⟩ := preamble_applied_iff hout he
  rw [hdart] at hb hrendered hpreamble
  refine ⟨out, e, b, rendered, hout, he, hdart, honly, hb, hrendered, hlength, ?_⟩
  exact (hpreamble "dart" "// hello\n" honly).imp fun f r hf => hf.2.2.1.2 (.inl rfl)

/-- A preamble that is accepted and dropped: its key is the name of the second language, in other letters and with a
blank behind it. -/
theorem preamble_dropped_stall :
    ∃ out e b rendered, generate stall greetings = .ok out ∧ e ∈ out.emitted ∧ e.language = .typescript ∧
      greetings.IsPreambleOf .typescript "TypeScript " "// welcome\n" ∧
      binderOf greetings (stall.exclude {}).1 .typescript = .ok b ∧
      Language.typescript.emit b ⟨"Stall", "ErrorCodes"⟩ (stall.exclude {}).1 = .ok rendered ∧ e.files.length = 2 ∧
      Forall₂ (fun f r => f.content = r.content ∧ f.content ≠ "// welcome\n" ++ r.content) e.files rendered := by
  obtain ⟨out, hout, hlanguages⟩ := toOption_map_eq_some.1 languages_stall
  obtain ⟨d, rest, hemitted, -, hrest⟩ := map_eq_cons_iff.1 hlanguages
  obtain ⟨e, rest', hrestEq, hlanguage, -⟩ := map_eq_cons_iff.1 hrest
  obtain ⟨htypescript, hlength⟩ := Prod.mk.inj hlanguage
  have he : e ∈ out.emitted := by simp [hemitted, hrestEq]
  have honly : greetings.IsPreambleOf .typescript "TypeScript " "// welcome\n" :=
    isPreambleOf_of_filter (by decide +kernel)
  obtain ⟨b, rendered, hb, hrendered, heq⟩ := emitted_of_generate hout he
  have hfiles := forall₂_files (o := greetings) e.language b rendered
  rw [heq, htypescript, preambleOf_eq honly, if_neg (by decide)] at hfiles
  rw [htypescript] at hb hrendered
  refine ⟨out, e, b, rendered, hout, he, htypescript, honly, hb, hrendered, hlength, ?_⟩
  refine hfiles.imp fun f r hf => ?_
  have hcontent : f.content = r.content := by simpa using hf.2.2
  rw [hcontent]
  exact ⟨rfl, fun happlied => by simpa using congrArg String.length happlied⟩

end Covenant.Compile
