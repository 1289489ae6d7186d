import Covenant.Proofs.Binding.Ancestry
import Covenant.Proofs.Compile.Introductions
import Covenant.Proofs.Compile.WireFormat

/-!
# Names at the top level of emitted files

The name table keeps the names of declarations apart, and emission refuses a declaration that has the name of a
function beside a class.  A name still occurs twice if a declaration has the name of a helper, or a routed class that
of what the client introduces itself (`topLevel_nodup_iff`).

Declarations stand in the order of their names, so a class comes after its base exactly if its name does
(`class_order`).
-/

namespace Covenant

open Binding (Binder)
open Contract (Program)
open Emit (Grammar Item Language)
open Emit.TypeScript (clientNames decoderName resultFactoryName)
open Naming (Entry Table)
open Outcome
open Text (Occurs)
open List

/-- The names that an entry gives to the top level of the file of declarations. -/
def Naming.Entry.topNames (l : Language) (codesName : String) (e : Entry) : List String :=
  match l, e.decl with
  | .dart, _ | .typescript, .enum .. => [e.name]
  | .typescript, .type _ body _ =>
    if e.isContainer codesName then [e.name]
    else e.name :: decoderName e.name :: if body.result.isSome then [resultFactoryName e.name] else []

/-- What an entry introduces at the top level, and its one type. -/
theorem Emit.Language.names_introductions (l : Language) (codesName : String) (e : Entry) :
    (l.introductions codesName e).filterMap Item.topLevel? = e.topNames l codesName ∧
      (l.introductions codesName e).filterMap Item.type? = [e.name] := by
  have hmembers (names : List String) : (names.map Item.member).filterMap Item.topLevel? = [] ∧
      (names.map Item.member).filterMap Item.type? = [] := by
    simp [filterMap_map, Function.comp_def, Item.topLevel?, Item.type?]
  unfold Entry.topNames
  cases l with
  | dart =>
    simp only [Language.introductions, Emit.Dart.introductions]
    split
    · exact ⟨rfl, rfl⟩
    · split
      · exact ⟨rfl, rfl⟩
      · exact (hmembers _).imp (congrArg (e.name :: ·)) (congrArg (e.name :: ·))
  | typescript =>
    simp only [Language.introductions, Emit.TypeScript.introductions]
    cases e.decl with
    | enum _ _ => exact ⟨rfl, rfl⟩
    | type _ body _ =>
      simp only
      split
      · exact ⟨rfl, rfl⟩
      · cases body.result <;> simp [filterMap_append, hmembers, Item.topLevel?, Item.type?]

/-- A name is that of a class, or of a function beside it. -/
theorem Naming.Entry.of_mem_topNames {l : Language} {codesName name : String} {e : Entry}
    (h : name ∈ e.topNames l codesName) :
    name = e.name ∨ l = .typescript ∧ e.decl.body?.isSome = true ∧
      (name = decoderName e.name ∨ name = resultFactoryName e.name) := by
  unfold Entry.topNames at h
  split at h
  · exact .inl (mem_singleton.1 h)
  · exact .inl (mem_singleton.1 h)
  · rename_i hdecl
    rw [hdecl]
    split at h
    · exact .inl (mem_singleton.1 h)
    · rcases mem_cons.1 h with rfl | h
      · exact .inl rfl
      · rcases mem_cons.1 h with rfl | h
        · exact .inr ⟨rfl, rfl, .inl rfl⟩
        · split at h
          · exact .inr ⟨rfl, rfl, .inr (mem_singleton.1 h)⟩
          · cases h

namespace Emit.TypeScript

theorem decoderName_ne_resultFactoryName (a b : String) : decoderName a ≠ resultFactoryName b := by
  intro h
  have hlast := congrArg (fun s : String => s.toList.getLast?) h
  simp [decoderName, resultFactoryName, getLast?_append] at hlast

private theorem name_ne_of_functionClash? {t : Table} (h : functionClash? t = none) {d e : Entry} (hd : d ∈ t.entries)
    (he : e ∈ t.entries) (htype : e.decl.body?.isSome = true) :
    d.name ≠ decoderName e.name ∧ d.name ≠ resultFactoryName e.name := by
  have h := findSome?_eq_none_iff.1 h e he
  split at h
  · rename_i hdecl
    rw [hdecl] at htype
    cases htype
  · simp only [findSome?_eq_none_iff, functionNames, forall_mem_cons, Option.map_eq_none_iff,
      find?_eq_none, beq_iff_eq] at h
    exact ⟨h.1 d hd, h.2.1 d hd⟩

theorem function_ne_own (name : String) {own : String}
    (hown : own ∈ ["_double", "_encodeKey", "_encode"] ++ clientNames) :
    own ≠ decoderName name ∧ own ≠ resultFactoryName name := by
  have hshort : ∀ n ∈ ["_double", "_encodeKey", "_encode"] ++ clientNames,
      n.toList.getLast? ≠ some 'n' ∧ n.length < "ResultFactory".length := by decide +kernel
  obtain ⟨hlast, hlength⟩ := hshort own hown
  constructor
  · rintro rfl
    simp [decoderName, getLast?_append] at hlast
  · rintro rfl
    rw [resultFactoryName, String.length_append] at hlength
    omega

end Emit.TypeScript

theorem Emit.Language.helperNames_sublist (l : Language) (body : String) :
    (l.helperNames body).Sublist ["_double", "_encodeKey", "_encode"] := by
  cases l with
  | dart =>
    simp only [Language.helperNames, Emit.Dart.helperNames]
    split <;> split <;> decide +kernel
  | typescript =>
    simp only [Language.helperNames, Emit.TypeScript.helperNames]
    split <;> split <;> split <;> decide +kernel

/-- A helper that is called is there. -/
theorem Emit.Language.called_helperNames (l : Language) (body : String) :
    (Occurs "_double(" body → "_double" ∈ l.helperNames body) ∧
      (Occurs "_encode(" body → "_encode" ∈ l.helperNames body ∧ "_encodeKey" ∈ l.helperNames body) := by
  simp only [← Text.contains_eq_true]
  cases l <;>
    simp +contextual [Language.helperNames, Emit.Dart.helperNames, Emit.TypeScript.helperNames]

section

open Emit.TypeScript

variable {t : Table} {l : Language} {codesName : String}

private theorem name_eq_of_mem_topNames (hclash : l = .typescript → functionClash? t = none) {d e : Entry}
    (hd : d ∈ t.entries) (he : e ∈ t.entries) {name : String} (hname : name ∈ d.topNames l codesName)
    (hname' : name ∈ e.topNames l codesName) : d.name = e.name := by
  rcases Entry.of_mem_topNames hname with rfl | ⟨hl, htype, hfunction⟩
  · rcases Entry.of_mem_topNames hname' with heq | ⟨hl, htype, hfunction⟩
    · exact heq
    · obtain ⟨hdecoder, hfactory⟩ := name_ne_of_functionClash? (hclash hl) hd he htype
      exact absurd hfunction (not_or.2 ⟨hdecoder, hfactory⟩)
  · rcases Entry.of_mem_topNames hname' with rfl | ⟨_, _, hfunction'⟩
    · obtain ⟨hdecoder, hfactory⟩ := name_ne_of_functionClash? (hclash hl) he hd htype
      exact absurd hfunction (not_or.2 ⟨hdecoder, hfactory⟩)
    · rcases hfunction with rfl | rfl <;> rcases hfunction' with heq | heq
      · exact (String.append_left_inj _).1 heq
      · exact absurd heq (decoderName_ne_resultFactoryName _ _)
      · exact absurd heq.symm (decoderName_ne_resultFactoryName _ _)
      · exact (String.append_left_inj _).1 heq

private theorem nodup_topNames (hnames : (t.entries.map (·.name)).Nodup)
    (hclash : l = .typescript → functionClash? t = none) :
    (t.entries.flatMap (·.topNames l codesName)).Nodup := by
  refine nodup_flatMap.2 ⟨fun e he => ?_, ?_⟩
  · unfold Entry.topNames
    split
    · exact nodup_singleton _
    · exact nodup_singleton _
    · rename_i hdecl
      obtain ⟨hdecoder, hfactory⟩ := name_ne_of_functionClash? (hclash rfl) he he (by rw [hdecl]; rfl)
      split
      · exact nodup_singleton _
      · split <;> simp [hdecoder, hfactory, decoderName_ne_resultFactoryName]
  · refine (pairwise_map.1 hnames).imp_of_mem fun {d e} hd he hne name hname hname' => ?_
    exact hne (name_eq_of_mem_topNames hclash hd he hname hname')

end

def Emit.TypeScript.classHead (s : Binding.Shape) (base : Entry) : String :=
  "export class " ++ s.entry.name ++ Emit.TypeScript.typeParams s.params ++ " extends " ++ base.name

private theorem Emit.TypeScript.occurs_classText_head {s : Binding.Shape} {base : Entry}
    (h : s.base?.bind (·.declared?) = some base) : Occurs (classHead s base) (Emit.TypeScript.classText s) := by
  obtain ⟨t, ht, hdeclared⟩ := Option.bind_eq_some_iff.1 h
  cases t with
  | named occ entry as =>
    obtain rfl : entry = base := Option.some.inj hdeclared
    unfold Emit.TypeScript.classText Emit.TypeStyle.classText classHead
    rw [ht]
    refine .append_right (.append_right (.append_right (.append_right ?_ _) _) _) _
    simp only [Emit.TypeStyle.baseType, ← String.append_assoc]
    exact (Occurs.refl _).append_right _
  | _ => cases hdeclared

namespace Compile

/-- The top level of a text has names of its own and names made from declarations, and repeats a name exactly if one
of its own is that of a declaration. -/
structure Introduces (e : Emitted) (text : String) (own made : List String) : Prop where
  names : (e.language.grammar.topLevel text).Perm (own ++ made)
  nodup_iff : (e.language.grammar.topLevel text).Nodup ↔ ∀ d ∈ e.table.entries, d.name ∈ made → d.name ∉ own

variable {e : Emitted} {b : Binder}

private theorem Introduces.of_perm {text : String} {own made : List String}
    (h : (e.language.grammar.topLevel text).Perm (own ++ made)) (hown : own.Nodup) (hmade : made.Nodup)
    (hclash : ∀ name ∈ made, name ∈ own → ∃ d ∈ e.table.entries, d.name = name) : Introduces e text own made where
  names := h
  nodup_iff := by
    rw [h.nodup_iff, nodup_append]
    constructor
    · rintro ⟨_, _, hne⟩ d _ hd hd'
      exact hne d.name hd' d.name hd rfl
    · refine fun hne => ⟨hown, hmade, fun name hname name' hname' heq => ?_⟩
      subst heq
      obtain ⟨d, hd, rfl⟩ := hclash name hname' hname
      exact hne d hd hname' hname

namespace Emission

variable {p : Program} {o : Options} {e : Emitted} {b : Binder} {texts clients : List String}
  (E : Emission p o e b texts clients)

include E

abbrev text (_ : Emission p o e b texts clients) : String := e.language.contractsText (p.exclude o.exclude).1 texts

private theorem introduces_contracts :
    Introduces e E.text (e.language.helperNames (Text.joinBlocks texts))
      (e.table.entries.flatMap (·.topNames e.language o.containerName)) := by
  have hsublist := e.language.helperNames_sublist (Text.joinBlocks texts)
  rw [E.table]
  refine .of_perm ?_ (Nodup.sublist hsublist (by decide +kernel)) (nodup_topNames E.distinct E.unclashed) ?_
  · have hhelpers : ∀ names : List String, (names.map Item.value).filterMap Item.topLevel? = names := fun names => by
      simp [filterMap_map, Function.comp_def, Item.topLevel?]
    have htop : e.language.grammar.topLevel E.text =
        e.language.helperNames (Text.joinBlocks texts) ++
          b.table.entries.flatMap (·.topNames e.language o.containerName) := by
      rw [Grammar.topLevel, E.contracts, filterMap_append, hhelpers, filterMap_flatMap]
      simp only [(Language.names_introductions _ _ _).1]
    rw [htop]
  · intro name hmade hown
    obtain ⟨d, hd, hname⟩ := mem_flatMap.1 hmade
    rcases Entry.of_mem_topNames hname with rfl | ⟨_, _, hfunction⟩
    · exact ⟨d, E.table ▸ hd, rfl⟩
    · obtain ⟨hdecoder, hfactory⟩ := Emit.TypeScript.function_ne_own d.name (mem_append_left _ (hsublist.mem hown))
      exact absurd hfunction (not_or.2 ⟨hdecoder, hfactory⟩)

private theorem introduces_client {client : String} (hclient : client ∈ clients) :
    ∃ routed, Emit.TypeScript.routedClasses b (p.exclude o.exclude).1.routes = .ok routed ∧
      Introduces e client clientNames (Emit.TypeScript.importedNames routed) := by
  obtain ⟨hl, routed, hrouted, houtline⟩ := E.clients client hclient
  refine ⟨routed, hrouted, .of_perm ?_ (by decide +kernel) (Text.nodup_sortedSet _) ?_⟩
  · have himports : ∀ names : List String, (names.map Item.imported).filterMap Item.topLevel? = names :=
      fun names => by simp [filterMap_map, Function.comp_def, Item.topLevel?]
    have htop : e.language.grammar.topLevel client = Emit.TypeScript.importedNames routed ++ clientNames := by
      rw [hl, Language.grammar, Emit.TypeScript.topLevel_eq_client, Grammar.topLevel, houtline,
        filterMap_append, himports]
      rfl
    rw [htop]
    exact perm_append_comm
  · intro name hmade hown
    obtain ⟨r, _, d, hd, rfl | ⟨_, hfactory⟩⟩ := (Emit.TypeScript.mem_importedNames hrouted).1 hmade
    · exact ⟨d, E.table ▸ E.worded.found _ d hd, rfl⟩
    · exact absurd hfactory (Emit.TypeScript.function_ne_own d.name (mem_append_right _ hown)).2

end Emission

variable {p : Program} {o : Options} {out : Output}

/-- The names at the top level of the files of a language: those of the helpers and of the declarations, and in the
client the imported ones and its own three.  They are distinct exactly if no declaration has the name of a helper that
is added, and no imported class one of the client's own. -/
theorem topLevel_nodup_iff (h : generate p o = .ok out) {e : Emitted} (he : e ∈ out.emitted) :
    ∃ contracts clients helpers,
      e.files.map (·.content) = (contracts :: clients).map (o.preambleOf e.language ++ ·) ∧
      helpers.Sublist ["_double", "_encodeKey", "_encode"] ∧
      Introduces e contracts helpers (e.table.entries.flatMap (·.topNames e.language o.containerName)) ∧
      ∀ client ∈ clients, ∃ imported,
        (∀ name, name ∈ imported ↔ ∃ r ∈ (p.exclude o.exclude).1.routes, ∃ d, e.table.lookup r.target = some d ∧
          (name = d.name ∨ r.kind ≠ .command ∧ name = resultFactoryName d.name)) ∧
        Introduces e client ["CQRS", "routes", "createClient"] imported := by
  obtain ⟨b, texts, clients, E⟩ := emission_of_generate h he
  refine ⟨_, clients, _, E.files, e.language.helperNames_sublist (Text.joinBlocks texts), E.introduces_contracts,
    fun client hclient => ?_⟩
  obtain ⟨routed, hrouted, hintroduces⟩ := E.introduces_client hclient
  rw [E.table]
  exact ⟨_, fun name => Emit.TypeScript.mem_importedNames hrouted, hintroduces⟩

theorem contents_default {texts : List String}
    (h : e.files.map (·.content) = texts.map (({} : Options).preambleOf e.language ++ ·)) :
    e.files.map (·.content) = texts := by
  rw [h]
  simp [Options.preambleOf]

/-- No name of the market occurs twice. -/
theorem topLevel_nodup_market :
    ∃ out, generate market {} = .ok out ∧ out.emitted.map (·.language) = [.dart, .typescript] ∧
      ∀ e ∈ out.emitted, ∀ file ∈ e.files, (e.language.grammar.topLevel file.content).Nodup := by
  have hrun : (match generate market {} with
      | .error _ => none
      | .ok out => some (out.emitted.map (·.language), out.emitted.all fun e => e.table.entries.all fun d =>
          !(["_double", "_encodeKey", "_encode"] ++ clientNames).contains d.name)) =
      some ([.dart, .typescript], true) := by decide +kernel
  split at hrun
  · cases hrun
  · rename_i out hout
    simp only [Option.some.injEq, Prod.mk.injEq, all_eq_true, Bool.not_eq_true', contains_eq_mem,
      decide_eq_false_iff_not, mem_append, not_or] at hrun
    obtain ⟨hlanguages, hnames⟩ := hrun
    refine ⟨out, hout, hlanguages, fun e he file hfile => ?_⟩
    obtain ⟨contracts, clients, helpers, hfiles, hhelpers, hcontracts, hclients⟩ := topLevel_nodup_iff hout he
    have hmem : file.content ∈ contracts :: clients := contents_default hfiles ▸ mem_map_of_mem hfile
    rcases mem_cons.1 hmem with heq | hmem
    · rw [heq]
      exact hcontracts.nodup_iff.2 fun d hd _ hown => (hnames e he d hd).1 (hhelpers.mem hown)
    · obtain ⟨imported, _, hclient⟩ := hclients _ hmem
      exact hclient.nodup_iff.2 fun d hd _ hown => (hnames e he d hd).2 hown

private theorem occurs_constructor {settings : Emit.Settings} {d : Entry} {text : String}
    (h : Language.dart.Block b settings d text) (htype : d.decl.body?.isSome = true)
    (hcontainer : d.isContainer settings.errorCodesName = false) : Occurs (d.name ++ "(") text := by
  cases h with
  | enum hdecl _ => simp [hdecl, Contract.Declaration.body?] at htype
  | @type s _ _ hs htext =>
    obtain ⟨hentry, _, hflag, _⟩ := Emit.shape_flags hs
    have hlast : (d.name ++ "(").toList.getLast? = some '(' := by simp [getLast?_append]
    have hconstructor : Occurs (d.name ++ "(") (Emit.Dart.constructor s) := by
      unfold Emit.Dart.constructor
      rw [hentry]
      split
      · exact ⟨[' ', ' '], [')', ';'], by simp⟩
      · refine .append_right (.append_right ?_ _) _
        exact ⟨[' ', ' '], ['\x7b', '\n'], by simp⟩
    have hmember : Emit.Dart.constructor s ∈ Emit.Dart.classMembers s := by simp [Emit.Dart.classMembers]
    rw [Emit.Dart.typeText_eq_ok htext, hflag, hcontainer, if_neg Bool.false_ne_true]
    exact ((hconstructor.joinBlocks hmember hlast rfl).append_left _).append_right _

private theorem Emission.not_nodup_of_double {texts clients : List String} (E : Emission p o e b texts clients)
    (hl : e.language = .dart) {d : Entry} (hd : d ∈ e.table.entries) (htype : d.decl.body?.isSome = true)
    (hcontainer : d.isContainer o.containerName = false) (hname : d.name = "_double") :
    ¬ (e.language.grammar.topLevel E.text).Nodup := by
  intro hnodup
  have hmade : d.name ∈ e.table.entries.flatMap (·.topNames e.language o.containerName) :=
    mem_flatMap.2 ⟨d, hd, by rw [hl]; exact mem_singleton_self d.name⟩
  refine E.introduces_contracts.nodup_iff.1 hnodup d hd hmade ?_
  obtain ⟨text, htext, hblock⟩ := exists_of_mem_right E.blocks.flip (E.table ▸ hd)
  rw [hl] at hblock
  have hoccurs := occurs_constructor hblock htype hcontainer
  rw [hname] at hoccurs ⊢
  exact (e.language.called_helperNames _).1 (hoccurs.joinBlocks htext rfl rfl)

/-- A shop whose class has the name of a helper, and whose command has that of what the client exports. -/
def twins : Program :=
  { name := "Shop"
    declarations :=
      [.type { ns := "App", name := "_double" }
        { fields := [some { name := "Size", type := some (.named "int") }] } [],
        .type { ns := "App", name := "routes" } { kind := .command } []] }

/-- In both languages a name of the shop occurs twice. -/
theorem topLevel_repeats_twins :
    ∃ out d t, generate twins {} = .ok out ∧ out.emitted = [d, t] ∧ d.language = .dart ∧ t.language = .typescript ∧
      (∃ file ∈ d.files, ¬ (d.language.grammar.topLevel file.content).Nodup) ∧
      ∃ file ∈ t.files, ¬ (t.language.grammar.topLevel file.content).Nodup := by
  have hrun : (generate twins {}).toOption.map (fun out => out.emitted.map fun e => (e.language, e.files.length,
      (e.table.lookup "App._double").any (fun d =>
        d.name == "_double" && d.decl.body?.isSome && !d.isContainer "ErrorCodes"),
      (e.table.lookup "App.routes").any (·.name == "routes"))) =
      some [(.dart, 1, true, true), (.typescript, 2, true, true)] := by decide +kernel
  have hroutes : (twins.exclude {}).1.routes.any (·.target == "App.routes") = true := by decide +kernel
  obtain ⟨r, hr, htarget⟩ := any_eq_true.1 hroutes
  obtain ⟨out, hout, hrun⟩ := toOption_map_eq_some.1 hrun
  simp only [map_eq_cons_iff, map_eq_nil_iff, Prod.mk.injEq, Option.any_eq_true, Bool.and_eq_true, beq_iff_eq,
    Bool.not_eq_true'] at hrun
  obtain ⟨d, _, hemitted, ⟨hdart, _, ⟨c, hc, ⟨hname, htype⟩, hcontainer⟩, _⟩, t, _, rfl,
    ⟨htypescript, hlength, _, c', hc', hname'⟩, rfl⟩ := hrun
  refine ⟨out, d, t, hout, hemitted, hdart, htypescript, ?_, ?_⟩
  · obtain ⟨b, texts, clients, E⟩ := emission_of_generate hout (hemitted ▸ mem_cons_self)
    obtain ⟨file, hfile, heq⟩ := mem_map.1 ((contents_default E.files).symm ▸ mem_cons_self)
    have hmem : c ∈ d.table.entries := E.table ▸ E.worded.found _ c (E.table ▸ hc)
    exact ⟨file, hfile, heq ▸ E.not_nodup_of_double hdart hmem htype hcontainer hname⟩
  · have ht : t ∈ out.emitted := hemitted ▸ .tail d (.head _)
    obtain ⟨b, texts, clients, E⟩ := emission_of_generate hout ht
    obtain ⟨client, hclient⟩ : ∃ client, client ∈ clients := by
      have hlength' := congrArg length E.files
      refine exists_mem_of_length_pos ?_
      simp only [length_map, length_cons, hlength] at hlength'
      omega
    obtain ⟨file, hfile, heq⟩ :=
      mem_map.1 ((contents_default E.files).symm ▸ mem_cons_of_mem _ hclient)
    obtain ⟨routed, hrouted, hintroduces⟩ := E.introduces_client hclient
    have hmem : c' ∈ t.table.entries := E.table ▸ E.worded.found _ c' (E.table ▸ hc')
    have himported : c'.name ∈ Emit.TypeScript.importedNames routed := by
      rw [Emit.TypeScript.mem_importedNames hrouted]
      exact ⟨r, hr, c', by rw [beq_iff_eq.1 htarget, ← E.table]; exact hc', .inl rfl⟩
    refine ⟨file, hfile, fun hnodup => ?_⟩
    rw [heq] at hnodup
    exact hintroduces.nodup_iff.1 hnodup c' hmem himported (by rw [hname']; decide +kernel)

namespace Emission

variable {e : Emitted} {b : Binder} {texts clients : List String} (E : Emission p o e b texts clients)

include E

private theorem typeNames_contracts :
    e.language.grammar.typeNames (e.language.contractsText (p.exclude o.exclude).1 texts) =
      e.table.entries.map (·.name) := by
  have hhelpers : ∀ names : List String, (names.map Item.value).filterMap Item.type? = [] := fun names => by
    simp [filterMap_map, Function.comp_def, Item.type?]
  rw [Grammar.typeNames, E.contracts, filterMap_append, hhelpers, nil_append, filterMap_flatMap, E.table]
  simp only [(Language.names_introductions _ _ _).2]
  exact map_eq_flatMap.symm

private theorem occurs_classHead (hl : e.language = .typescript) {d base : Entry} (hd : d ∈ b.table.entries)
    (hbase : b.base? o.containerName d = some base) (hcontainer : d.isContainer o.containerName = false) :
    ∃ s, b.shapeOf o.containerName d = .ok s ∧ Occurs (Emit.TypeScript.classHead s base) E.text := by
  unfold text
  have hnamed := E.worded.names base (E.worded.found _ base (Binder.lookup_of_base? hbase).1)
  obtain ⟨text, htext, hblock⟩ := exists_of_mem_right E.blocks.flip hd
  rw [hl] at hblock ⊢
  cases hblock with
  | enum hdecl _ => simp [Binder.base?, Binder.shapeOf, hdecl] at hbase
  | @type s _ _ hs hrendered =>
    refine ⟨s, hs, ?_⟩
    obtain ⟨_, _, hflag, _⟩ := Emit.shape_flags hs
    obtain ⟨c, hc, hblank⟩ := hnamed.exists_getLast?
    have hlast : (Emit.TypeScript.classHead s base).toList.getLast? = some c := by
      unfold Emit.TypeScript.classHead
      rw [String.toList_append, getLast?_append, hc]
      rfl
    have hclass := Emit.TypeScript.occurs_classText_head ((Binder.base?_eq hs).symm.trans hbase)
    have hblock : Occurs (Emit.TypeScript.classHead s base) text := by
      rw [← Except.ok.inj hrendered]
      unfold Emit.TypeScript.typeText
      rw [hflag, hcontainer, if_neg Bool.false_ne_true]
      exact hclass.joinBlocks (by simp) hlast hblank
    exact ((hblock.joinBlocks htext hlast hblank).joinBlocks (by simp) hlast hblank).append_right _

end Emission

/-- The file of declarations has the classes of all entries in the increasing order of their names.  A class whose
declaration names a base comes after the base exactly if it does so in that order. -/
theorem class_order (h : generate p o = .ok out) {e : Emitted} (he : e ∈ out.emitted)
    (hl : e.language = .typescript) :
    ∃ b contracts clients, binderOf o (p.exclude o.exclude).1 .typescript = .ok b ∧ e.table = b.table ∧
      e.files.map (·.content) = (contracts :: clients).map (o.preambleOf .typescript ++ ·) ∧
      Emit.TypeScript.grammar.typeNames contracts = e.table.entries.map (·.name) ∧
      (e.table.entries.map (·.name)).Pairwise (· < ·) ∧
      ∀ d ∈ e.table.entries, ∀ base, b.base? o.containerName d = some base →
        (d.isContainer o.containerName = false →
          ∃ s, b.shapeOf o.containerName d = .ok s ∧ Occurs (Emit.TypeScript.classHead s base) contracts) ∧
        ([base.name, d.name].Sublist (Emit.TypeScript.grammar.typeNames contracts) ↔ base.name < d.name) := by
  obtain ⟨b, texts, clients, E⟩ := emission_of_generate h he
  have hincreasing : (e.table.entries.map (·.name)).Pairwise (· < ·) := by
    rw [E.table]
    exact increasing_names_of_generate h E.binder
  have hgrammar : Emit.TypeScript.grammar = e.language.grammar := by
    rw [hl]
    rfl
  refine ⟨b, e.language.contractsText (p.exclude o.exclude).1 texts, clients, hl ▸ E.binder, E.table, hl ▸ E.files,
    hgrammar ▸ E.typeNames_contracts, hincreasing, fun d hd base hbase => ⟨?_, ?_⟩⟩
  · exact E.occurs_classHead hl (E.table ▸ hd) hbase
  · have hmem : base ∈ e.table.entries := E.table ▸ E.worded.found _ base (Binder.lookup_of_base? hbase).1
    rw [hgrammar, E.typeNames_contracts]
    exact Text.pair_sublist_iff hincreasing (mem_map_of_mem hmem) (mem_map_of_mem hd)

/-- The names of classes, each with the name of one that extends it. -/
def bases (b : Binder) (codesName : String) : List (String × String) :=
  b.table.entries.filterMap fun d => (b.base? codesName d).map fun base => (base.name, d.name)

private theorem mem_bases {codesName : String} {x : String × String} :
    x ∈ bases b codesName ↔
      ∃ d ∈ b.table.entries, ∃ base, b.base? codesName d = some base ∧ (base.name, d.name) = x := by
  simp only [bases, mem_filterMap, Option.map_eq_some_iff]

/-- Users of two kinds: the name of the one comes before that of what it extends, the name of the other after. -/
def users : Program :=
  { name := "Staff"
    declarations :=
      [.type { ns := "App", name := "User" }
        { fields := [some { name := "Name", type := some (.named "string") }] } [],
        .type { ns := "App", name := "Admin" } { baseTypes := [some (.named "User")] } [],
        .type { ns := "App", name := "Visitor" } { baseTypes := [some (.named "User")] } []] }

private theorem generate_users :
    ∃ out e, generate users { languages := ["typescript"] } = .ok out ∧ out.emitted = [e] ∧ e.language = .typescript ∧
      e.table.entries.map (·.name) = ["Admin", "User", "Visitor"] := by
  have hrun : ((generate users { languages := ["typescript"] }).toOption.map fun out =>
      out.emitted.map fun e => (e.language, e.table.entries.map (·.name))) =
        some [(.typescript, ["Admin", "User", "Visitor"])] := by
    decide +kernel
  obtain ⟨out, hout, hemitted⟩ := toOption_map_eq_some.1 hrun
  obtain ⟨e, hemitted, he⟩ := map_eq_singleton_iff.1 hemitted
  exact ⟨out, e, hout, hemitted, congrArg Prod.fst he, congrArg Prod.snd he⟩

private theorem bases_users (hb : binderOf { languages := ["typescript"] } (users.exclude {}).1 .typescript = .ok b) :
    bases b "ErrorCodes" = [("User", "Admin"), ("User", "Visitor")] := by
  have hrun : ((binderOf { languages := ["typescript"] } (users.exclude {}).1 .typescript).toOption.map fun b =>
      bases b "ErrorCodes") = some [("User", "Admin"), ("User", "Visitor")] := by
    decide +kernel
  obtain ⟨b', hb', hbases⟩ := toOption_map_eq_some.1 hrun
  obtain rfl := Except.ok.inj (hb.symm.trans hb')
  exact hbases

/-- One class of users comes before its base, and the other one after it. -/
theorem class_order_users :
    ∃ out e contracts clients, generate users { languages := ["typescript"] } = .ok out ∧ out.emitted = [e] ∧
      e.files.map (·.content) = contracts :: clients ∧
      ["User", "Visitor"].Sublist (Emit.TypeScript.grammar.typeNames contracts) ∧
      ¬["User", "Admin"].Sublist (Emit.TypeScript.grammar.typeNames contracts) := by
  obtain ⟨out, e, hout, hemitted, hl, _⟩ := generate_users
  obtain ⟨b, contracts, clients, hb, htable, hfiles, _, _, horder⟩ :=
    class_order hout (hemitted ▸ mem_singleton_self e) hl
  have hpair : ∀ x ∈ bases b "ErrorCodes",
      ([x.1, x.2].Sublist (Emit.TypeScript.grammar.typeNames contracts) ↔ x.1 < x.2) := by
    intro x hx
    obtain ⟨d, hd, base, hbase, rfl⟩ := mem_bases.1 hx
    exact (horder d (htable ▸ hd) base hbase).2
  rw [bases_users hb] at hpair
  refine ⟨out, e, contracts, clients, hout, hemitted, ?_, ?_, ?_⟩
  · rw [hfiles]
    simp [Options.preambleOf]
  · exact (hpair ("User", "Visitor") (by simp)).2 (by decide)
  · exact fun h => absurd ((hpair ("User", "Admin") (by simp)).1 h) (by decide)

/-- A class can come before the class that it extends. -/
theorem derived_class_first :
    ∃ out e b contracts clients, generate users { languages := ["typescript"] } = .ok out ∧ out.emitted = [e] ∧
      binderOf { languages := ["typescript"] } (users.exclude {}).1 .typescript = .ok b ∧
      e.files.map (·.content) = contracts :: clients ∧ ("User", "Admin") ∈ bases b "ErrorCodes" ∧
      Emit.TypeScript.grammar.typeNames contracts = ["Admin", "User", "Visitor"] := by
  obtain ⟨out, e, hout, hemitted, hl, hnames⟩ := generate_users
  obtain ⟨b, texts, clients, E⟩ := emission_of_generate hout (hemitted ▸ mem_singleton_self e)
  have hbinder := E.binder
  have htypes := E.typeNames_contracts
  rw [hl] at hbinder htypes
  refine ⟨out, e, b, _, clients, hout, hemitted, hbinder, ?_, ?_, htypes.trans hnames⟩
  · rw [E.files, hl]
    simp [Options.preambleOf]
  · rw [bases_users hbinder]
    exact .head _

end Compile

end Covenant
