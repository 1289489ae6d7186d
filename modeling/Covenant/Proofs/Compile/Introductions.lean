import Covenant.Proofs.Compile.Generation
import Covenant.Proofs.Emit.ClientOutline
import Covenant.Proofs.Emit.Rendering

/-!
# What emitted files introduce

The outlines of emitted files, written down from the table of names alone: an entry introduces a class with its
members, in TypeScript with the functions beside it (`Language.introductions`), and a container of error codes only
its class and constructor.
-/

namespace Covenant

open Binding (Binder Shape)
open Contract (Declaration EnumMember Program)
open Emit (Grammar Item Language Rendered Settings)
open Naming (Entry Table)
open Outcome
open Text
open List

def Naming.Entry.isContainer (codesName : String) (e : Entry) : Bool :=
  e.decl.body?.isSome && e.parent?.isSome && e.decl.name == codesName

namespace Emit

namespace Dart

def introductions (codesName : String) (e : Entry) : List Item :=
  match e.decl with
  | .enum .. => [.type e.name, .member "_", .member "fromJson", .member "toJson", .member "toString"]
  | .type _ body _ =>
    if e.isContainer codesName then [.type e.name, .member "_"]
    else .type e.name :: (memberNames e.name body.kind.isRemote body.result.isSome).map .member

end Dart

namespace TypeScript

def introductions (codesName : String) (e : Entry) : List Item :=
  match e.decl with
  | .enum .. =>
    [.type e.name, .member "constructor", .member "fromJson", .member "toJson", .member "equals", .member "hashCode"]
  | .type _ body _ =>
    if e.isContainer codesName then [.type e.name, .member "constructor"]
    else .type e.name :: (memberNames body.kind.isRemote).map .member ++ [.value (decoderName e.name)] ++
      (if body.result.isSome then [.value (resultFactoryName e.name)] else [])

end TypeScript

namespace Language

def grammar : Language → Grammar
  | dart => Dart.grammar
  | typescript => TypeScript.grammar

/-- What the block of an entry introduces. -/
def introductions : Language → String → Entry → List Item
  | dart => Dart.introductions
  | typescript => TypeScript.introductions

def helperNames : Language → String → List String
  | dart => Dart.helperNames
  | typescript => TypeScript.helperNames

/-- The file of declarations: a header, the helpers that the blocks call, and the blocks. -/
def contractsText (l : Language) (p : Program) (texts : List String) : String :=
  match l with
  | dart => Text.joinBlocks [Dart.header p, Dart.helpers (Text.joinBlocks texts), Text.joinBlocks texts] ++ "\n"
  | typescript =>
    Text.joinBlocks [TypeScript.header p, TypeScript.helpers (Text.joinBlocks texts), Text.joinBlocks texts] ++ "\n"

def Block (l : Language) (b : Binder) (settings : Settings) (e : Entry) (text : String) : Prop :=
  match l with
  | dart => Rendered b settings Dart.enumText (Dart.typeText b settings) e text
  | typescript => Rendered b settings TypeScript.enumText (fun s => .ok (TypeScript.typeText s)) e text

end Language

section

variable {b : Binder} {settings : Settings} {e : Entry} {text : String}

/-- The shape of an entry repeats what its declaration says. -/
theorem shape_flags {s : Shape} (h : b.shapeOf settings.errorCodesName e = .ok s) :
    s.entry = e ∧ (∃ head nested, e.decl = .type head s.body nested) ∧
      s.errorCodes = e.isContainer settings.errorCodesName ∧ s.result?.isSome = s.body.result.isSome := by
  obtain ⟨head, nested, inherited, own, parts⟩ := Binder.shapeOf_eq_ok h
  refine ⟨parts.entry, ⟨head, nested, parts.decl⟩, ?_, ?_⟩
  · rw [parts.errorCodes, Entry.isContainer, parts.decl]
    simp [Declaration.body?, Declaration.name, Declaration.head]
  · have hresult := parts.result
    unfold Binder.shapeResult at hresult
    split at hresult
    · rename_i r hr
      obtain ⟨t, _, hresult⟩ := bind_eq_ok.1 hresult
      rw [← pure_eq_ok.1 hresult, hr]
      rfl
    · rename_i hr
      split at hresult
      · cases hresult
      · rw [← Except.ok.inj hresult, hr]
        rfl

private theorem isWord_of_enumMembers (hb : b.Worded) {members : List (Option EnumMember)}
    {named : List (String × EnumMember)} (h : enumMembers b e members = .ok named) :
    ∀ m ∈ named, IsWord m.1 := by
  obtain ⟨idents, hidents, h⟩ := bind_eq_ok.1 h
  rw [← pure_eq_ok.1 h]
  exact fun m hm =>
    Naming.Policy.isWord_of_membersAfter hb.policy (mapError_eq_ok.1 hidents) (of_mem_zip hm).1

theorem Dart.typeText_eq_ok {s : Shape} (h : typeText b settings s = .ok text) :
    text = if s.errorCodes then errorCodesText s else classText s := by
  unfold typeText at h
  split at h
  · rename_i hc
    rw [if_pos hc, Except.ok.inj h]
  · rename_i hc
    rw [if_neg hc]
    split at h
    · obtain ⟨_, _, h⟩ := bind_eq_ok.1 h
      exact (pure_eq_ok.1 h).symm
    · exact (pure_eq_ok.1 h).symm

private theorem Dart.outline_of_rendered (hb : b.Worded) (he : e ∈ b.table.entries)
    (h : Rendered b settings enumText (typeText b settings) e text) :
    grammar.outline text = introductions settings.errorCodesName e := by
  cases h with
  | enum hdecl hnamed =>
    rw [outline_enumText (hb.names e he) (isWord_of_enumMembers hb hnamed), introductions, hdecl]
  | @type s _ hbody hs htext =>
    obtain ⟨hentry, ⟨head, nested, hdecl⟩, hcontainer, hresult⟩ := shape_flags hs
    have hworded := Binder.worded_of_shapeOf hb he hs
    rw [typeText_eq_ok htext, introductions, hdecl, hcontainer]
    dsimp only
    split
    · rw [outline_errorCodesText hworded, hentry]
    · rw [outline_classText hworded, hentry, hresult]
      rfl

private theorem TypeScript.outline_of_rendered (hb : b.Worded) (he : e ∈ b.table.entries)
    (h : Rendered b settings enumText (fun s => .ok (typeText s)) e text) :
    grammar.outline text = introductions settings.errorCodesName e := by
  cases h with
  | enum hdecl hnamed =>
    rw [outline_enumText (hb.names e he) (isWord_of_enumMembers hb hnamed), introductions, hdecl]
  | @type s _ hbody hs htext =>
    obtain ⟨hentry, ⟨head, nested, hdecl⟩, hcontainer, hresult⟩ := shape_flags hs
    have hworded := Binder.worded_of_shapeOf hb he hs
    rw [← Except.ok.inj htext, introductions, hdecl, typeText, hcontainer]
    dsimp only
    split
    · rw [outline_errorCodesText hworded, hentry]
    · rw [Grammar.outline_joinBlocks, ← hresult, flatMap_append]
      simp only [flatMap_cons, flatMap_nil, append_nil, outline_classText hworded,
        outline_fromJson hworded, hentry]
      cases hr : s.result? with
      | none => rfl
      | some result =>
        have hfactory := outline_resultFactory hworded (hworded.types _ (Shape.result_mem_types hr))
        simp [hfactory, hentry, Shape.isRemote]

end

section

variable {b : Binder} {settings : Settings} {p : Program} {texts : List String}

private theorem flatMap_outline {g : Grammar} {R : Entry → String → Prop} {introduced : Entry → List Item}
    {entries : List Entry} (h : Forall₂ R entries texts)
    (hR : ∀ e ∈ entries, ∀ text, R e text → g.outline text = introduced e) :
    texts.flatMap g.outline = entries.flatMap introduced := by
  induction h with
  | nil => rfl
  | cons htext _ ih =>
    rw [flatMap_cons, flatMap_cons, hR _ mem_cons_self _ htext,
      ih fun e he => hR e (.tail _ he)]

/-- The file of declarations introduces its helpers and then what each entry does. -/
theorem Language.outline_contracts {l : Language} (hb : b.Worded) (hname : IsWord p.name)
    (h : Forall₂ (l.Block b settings) b.table.entries texts) :
    l.grammar.outline (l.contractsText p texts) =
      (l.helperNames (Text.joinBlocks texts)).map .value ++
        b.table.entries.flatMap (l.introductions settings.errorCodesName) := by
  cases l with
  | dart =>
    simp only [grammar, contractsText, helperNames, introductions]
    rw [Dart.grammar.outline_file (Dart.outline_header hname) (Dart.outline_helpers _),
      flatMap_outline h fun e he text htext => Dart.outline_of_rendered hb he htext]
  | typescript =>
    simp only [grammar, contractsText, helperNames, introductions]
    rw [TypeScript.grammar.outline_file (TypeScript.outline_header _ hname) (TypeScript.outline_helpers _),
      flatMap_outline h fun e he text htext => TypeScript.outline_of_rendered hb he htext]

end

end Emit

namespace Compile

variable {p : Program} {o : Options} {out : Output} {l : Language}

private theorem isIdentifier_of_check {languages : List Language} (h : o.check = .ok languages) {name : String}
    (hname : name ∈ o.unmangled) : isIdentifier name = true := by
  unfold Options.check at h
  obtain ⟨_, _, h⟩ := bind_eq_ok.1 h
  rw [throwIf_eq_ok] at h
  obtain ⟨_, _, h⟩ := bind_eq_ok.1 h.2
  rw [throwIf_eq_ok] at h
  have h := h.2
  split at h
  · obtain ⟨_, hthrow, _⟩ := bind_eq_ok.1 h
    exact absurd hthrow throw_ne_ok
  · rename_i hnone
    have hfind : o.unmangled.find? (!isIdentifier ·) = none := by
      cases hfound : o.unmangled.find? (!isIdentifier ·) with
      | none => rfl
      | some found => exact absurd hfound (hnone found)
    simpa using find?_eq_none.1 hfind name hname

private theorem isWord_markerNames : ∀ name ∈ Naming.markerNames, IsWord name := by
  have h : ∀ name ∈ Naming.markerNames, isIdentifier name = true := by decide +kernel
  exact fun name hname => isWord_of_isIdentifier (h name hname)

private theorem isWord_targets (l : Language) (category : Typing.Primitive) : IsWord (l.targets category) := by
  have h : isIdentifier (l.targets category) = true := by cases l <;> cases category <;> decide +kernel
  exact isWord_of_isIdentifier h

/-- All names of a binder are words. -/
theorem worded_of_generate (h : generate p o = .ok out) {b : Binder}
    (hb : binderOf o (p.exclude o.exclude).1 l = .ok b) : b.Worded := by
  have hvalid := validate_of_generate h
  have hchecked : ∀ v ∈ (p.exclude o.exclude).1.visits, v.Checked :=
    fun v hv => Program.checked_of_validate hvalid o.exclude hv
  have hd := nodup_kept_of_generate h
  have htable := (Binder.build_eq_ok.1 hb).2
  obtain ⟨names, _, _, hnames⟩ := (Table.resolve_eq_ok hd).1 htable
  have hpolicy : b.table.policy = (l.policy.extend o.unmangled).completed := by rw [hnames]; rfl
  have hplain := Naming.plain_policy l o.unmangled
  refine ⟨fun q e he => Table.mem_entries_of_lookup htable he,
    fun e he => isWord_of_isIdentifier (Table.isIdentifier_name hplain hchecked hd htable he),
    fun e he name hname => ?_, fun name hname => ?_, fun category => ?_, hpolicy ▸ hplain⟩
  · rw [hnames] at he
    obtain ⟨v, hv, rfl⟩ := Table.mem_entries_ofNames.1 he
    cases hbody : v.decl.body? with
    | none => simp [Binding.Scope.inside, Table.entryOf, hbody] at hname
    | some body =>
      refine (hchecked v (mem_filter.1 hv).1).isWord_param hbody ?_
      simpa [Binding.Scope.inside, Table.entryOf, hbody] using hname
  · simp only [generate, bind_eq_ok, mapError_eq_ok] at h
    obtain ⟨languages, hcheck, _⟩ := h
    rw [hpolicy] at hname
    have hmem : name ∈ Naming.markerNames ++ o.unmangled := by
      have hname := contains_iff_mem.1 hname
      cases l <;> exact hname
    rcases mem_append.1 hmem with hmem | hmem
    · exact isWord_markerNames name hmem
    · exact isWord_of_isIdentifier (isIdentifier_of_check hcheck hmem)
  · rw [Binder.targets_of_build hb]
    exact isWord_targets l category

/-- Emitted names stand in increasing order. -/
theorem increasing_names_of_generate (h : generate p o = .ok out) {b : Binder}
    (hb : binderOf o (p.exclude o.exclude).1 l = .ok b) : (b.table.entries.map (·.name)).Pairwise (· < ·) := by
  have hd := nodup_kept_of_generate h
  obtain ⟨names, _, hn, hnames⟩ := (Table.resolve_eq_ok hd).1 (Binder.build_eq_ok.1 hb).2
  rw [hnames]
  exact pairwise_map.2 (Table.faithful_ofNames hd hn).increasing

private theorem nodup_names_of_generate (h : generate p o = .ok out) {b : Binder}
    (hb : binderOf o (p.exclude o.exclude).1 l = .ok b) : (b.table.entries.map (·.name)).Nodup :=
  (increasing_names_of_generate h hb).imp ne_of_lt

/-- What a language emits for a program: a file of declarations with a block for every entry, and the clients. -/
structure Emission (p : Program) (o : Options) (e : Emitted) (b : Binder) (texts clients : List String) : Prop where
  binder : binderOf o (p.exclude o.exclude).1 e.language = .ok b
  table : e.table = b.table
  kept : ((p.exclude o.exclude).1.kept.map (·.qualified)).Nodup
  worded : b.Worded
  distinct : (b.table.entries.map (·.name)).Nodup
  unclashed : e.language = .typescript → Emit.TypeScript.functionClash? b.table = none
  files : e.files.map (·.content) =
    (e.language.contractsText (p.exclude o.exclude).1 texts :: clients).map (o.preambleOf e.language ++ ·)
  blocks : Forall₂ (e.language.Block b ⟨p.name, o.containerName⟩) b.table.entries texts
  contracts : e.language.grammar.outline (e.language.contractsText (p.exclude o.exclude).1 texts) =
    (e.language.helperNames (Text.joinBlocks texts)).map .value ++
      b.table.entries.flatMap (e.language.introductions o.containerName)
  clients : ∀ client ∈ clients, e.language = .typescript ∧ ∃ routed,
    Emit.TypeScript.routedClasses b (p.exclude o.exclude).1.routes = .ok routed ∧
    Emit.TypeScript.clientGrammar.outline client =
      (Emit.TypeScript.importedNames routed).map .imported ++ [.type "CQRS", .value "routes", .value "createClient"]

/-- What a compilation emits for a language, apart by its steps. -/
theorem emission_of_generate (h : generate p o = .ok out) {e : Emitted} (he : e ∈ out.emitted) :
    ∃ b texts clients, Emission p o e b texts clients := by
  obtain ⟨b, files, hb, hfiles, heq⟩ := emitted_of_generate h he
  have hkept := nodup_kept_of_generate h
  have hworded := worded_of_generate h hb
  have hdistinct := nodup_names_of_generate h hb
  have hname : IsWord p.name := Program.isWord_name (validate_of_generate h)
  generalize e.language = l at hb hfiles heq
  subst heq
  cases l with
  | dart =>
    obtain ⟨texts, htexts, rfl⟩ := Emit.Dart.emit_eq_ok hfiles
    have hblocks : Forall₂ (Language.dart.Block b ⟨p.name, o.containerName⟩) b.table.entries texts := htexts
    have houtline := Language.outline_contracts (p := (p.exclude o.exclude).1) hworded hname hblocks
    exact ⟨b, texts, [], hb, rfl, hkept, hworded, hdistinct, nofun, rfl, hblocks, houtline, nofun⟩
  | typescript =>
    obtain ⟨hclash, texts, client, htexts, hclient, rfl⟩ := Emit.TypeScript.emit_eq_ok hfiles
    obtain ⟨routed, hrouted, _⟩ := bind_eq_ok.1 hclient
    have hblocks : Forall₂ (Language.typescript.Block b ⟨p.name, o.containerName⟩) b.table.entries texts := htexts
    have houtline := Language.outline_contracts (p := (p.exclude o.exclude).1) hworded hname hblocks
    have hwords : ∀ name ∈ Emit.TypeScript.importedNames routed, IsWord name := by
      intro name hmem
      obtain ⟨r, _, d, hd, rfl | ⟨_, rfl⟩⟩ := (Emit.TypeScript.mem_importedNames hrouted).1 hmem
      · exact hworded.names d (hworded.found _ d hd)
      · exact Emit.TypeScript.isWord_resultFactoryName (hworded.names d (hworded.found _ d hd))
    have hclients := Emit.TypeScript.outline_client hclient hname hrouted hwords
    refine ⟨b, texts, [_], hb, rfl, hkept, hworded, hdistinct, fun _ => hclash, rfl, hblocks, houtline,
      fun text htext => ?_⟩
    rw [mem_singleton.1 htext]
    exact ⟨rfl, routed, hrouted, hclients⟩

end Compile

end Covenant
