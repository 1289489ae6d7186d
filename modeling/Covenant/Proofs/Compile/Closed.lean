import Covenant.Proofs.Compile.TopLevel
import Covenant.Proofs.Emit.Calls

/-!
# Emitted code is closed up to containers

The codecs of a class call the decoders of the classes and enumerations in its types, a class with a base calls the
method of the base, and the client takes classes and result functions from the file of declarations.  The file
declares all of them but the codecs of containers of error codes, which have none (`declared_iff_of_uses`).
-/

namespace Covenant

open Binding (Binder Bound Shape)
open Contract (Kind Program Route TypeBody)
open Emit (Expr Grammar Item Language Symbol)
open Emit.TypeScript (decoderName resultFactoryName)
open Naming (Entry Table)
open Outcome
open Text (Occurs)
open List

namespace Emit

/-- The symbols that items declare, where members belong to the type before them. -/
def symbolsFrom : String → List Item → List Symbol
  | _, [] => []
  | _, .type name :: items => .type name :: symbolsFrom name items
  | cls, .member name :: items => .method cls name :: symbolsFrom cls items
  | cls, .value name :: items => .value name :: symbolsFrom cls items
  | cls, .imported _ :: items => symbolsFrom cls items

def Grammar.symbols (g : Grammar) (text : String) : List Symbol := symbolsFrom "" (g.outline text)

private theorem symbolsFrom_append (cls : String) (xs ys : List Item) :
    ∃ cls', symbolsFrom cls (xs ++ ys) = symbolsFrom cls xs ++ symbolsFrom cls' ys := by
  induction xs generalizing cls with
  | nil => exact ⟨cls, rfl⟩
  | cons x xs ih =>
    cases x with
    | type name =>
      obtain ⟨cls', h⟩ := ih name
      exact ⟨cls', congrArg _ h⟩
    | value name | member name =>
      obtain ⟨cls', h⟩ := ih cls
      exact ⟨cls', congrArg _ h⟩
    | imported name => exact ih cls

private theorem symbolsFrom_members (cls : String) (names : List String) (items : List Item) :
    symbolsFrom cls (names.map .member ++ items) = names.map (.method cls) ++ symbolsFrom cls items := by
  induction names with
  | nil => rfl
  | cons name names ih => exact congrArg _ ih

private theorem symbolsFrom_values (cls : String) (names : List String) (items : List Item) :
    symbolsFrom cls (names.map .value ++ items) = names.map .value ++ symbolsFrom cls items := by
  induction names with
  | nil => rfl
  | cons name names ih => exact congrArg _ ih

private theorem symbolsFrom_flatMap {α : Type} {f : α → List Item} (hf : ∀ a, ∃ name items, f a = .type name :: items)
    (cls : String) (as : List α) : symbolsFrom cls (as.flatMap f) = as.flatMap fun a => symbolsFrom "" (f a) := by
  induction as generalizing cls with
  | nil => rfl
  | cons a as ih =>
    obtain ⟨name, items, ha⟩ := hf a
    obtain ⟨cls', happend⟩ := symbolsFrom_append name items (as.flatMap f)
    rw [flatMap_cons, flatMap_cons, ha, cons_append, symbolsFrom, symbolsFrom, happend, ih,
      cons_append]

end Emit

def Naming.Entry.symbols (l : Language) (codesName : String) (e : Entry) : List Symbol :=
  Emit.symbolsFrom "" (l.introductions codesName e)

/-- The codec of a class: what reads and writes it, and in TypeScript what reads the results of calls. -/
def Emit.Language.codecSymbols : Language → String → List Symbol
  | dart, cls => [.method cls "fromJson", .method cls "toJson"]
  | typescript, cls => [.value (decoderName cls), .method cls "toJson", .value (resultFactoryName cls)]

namespace Naming.Entry

variable {l : Language} {codesName : String} {e : Entry} {sym : Symbol}

theorem introductions_eq_cons (l : Language) (codesName : String) (e : Entry) :
    ∃ items, l.introductions codesName e = .type e.name :: items := by
  cases l with
  | dart =>
    simp only [Language.introductions, Emit.Dart.introductions]
    split
    · exact ⟨_, rfl⟩
    · split <;> exact ⟨_, rfl⟩
  | typescript =>
    simp only [Language.introductions, Emit.TypeScript.introductions]
    split
    · exact ⟨_, rfl⟩
    · split <;> exact ⟨_, rfl⟩

theorem type_mem_symbols (l : Language) (codesName : String) (e : Entry) :
    .type e.name ∈ e.symbols l codesName := by
  obtain ⟨items, h⟩ := introductions_eq_cons l codesName e
  rw [symbols, h]
  exact .head _

private theorem symbols_eq (l : Language) (codesName : String) (e : Entry) :
    e.symbols l codesName = .type e.name ::
      match e.decl.body? with
      | none => (match l with
        | .dart => ["_", "fromJson", "toJson", "toString"]
        | .typescript => ["constructor", "fromJson", "toJson", "equals", "hashCode"]).map (.method e.name)
      | some body =>
        if e.isContainer codesName then
          [.method e.name (match l with | .dart => "_" | .typescript => "constructor")]
        else match l with
          | .dart => (Emit.Dart.memberNames e.name body.kind.isRemote body.result.isSome).map (.method e.name)
          | .typescript => (Emit.TypeScript.memberNames body.kind.isRemote).map (.method e.name) ++
              [.value (decoderName e.name)] ++
              (if body.result.isSome then [.value (resultFactoryName e.name)] else []) := by
  unfold symbols
  cases l with
  | dart =>
    simp only [Language.introductions, Emit.Dart.introductions]
    cases e.decl with
    | enum _ _ => rfl
    | type _ body _ =>
      simp only [Contract.Declaration.body?]
      split
      · rfl
      · rw [Emit.symbolsFrom, ← append_nil (List.map Item.member _), Emit.symbolsFrom_members]
        simp [Emit.symbolsFrom]
  | typescript =>
    simp only [Language.introductions, Emit.TypeScript.introductions]
    cases e.decl with
    | enum _ _ => rfl
    | type _ body _ =>
      simp only [Contract.Declaration.body?]
      split
      · rfl
      · rw [cons_append, cons_append, append_assoc, Emit.symbolsFrom, Emit.symbolsFrom_members,
          append_assoc]
        cases body.result <;> rfl

private theorem of_mem_symbols (h : sym ∈ e.symbols l codesName) :
    sym = .type e.name ∨ (∃ name, sym = .method e.name name) ∨
      sym = .value (decoderName e.name) ∨ sym = .value (resultFactoryName e.name) := by
  rw [symbols_eq] at h
  rcases mem_cons.1 h with rfl | h
  · exact .inl rfl
  · refine .inr ?_
    split at h
    · obtain ⟨name, _, rfl⟩ := mem_map.1 h
      exact .inl ⟨name, rfl⟩
    · split at h
      · exact .inl ⟨_, mem_singleton.1 h⟩
      · split at h
        · obtain ⟨name, _, rfl⟩ := mem_map.1 h
          exact .inl ⟨name, rfl⟩
        · rcases mem_append.1 h with h | h
          · rcases mem_append.1 h with h | h
            · obtain ⟨name, _, rfl⟩ := mem_map.1 h
              exact .inl ⟨name, rfl⟩
            · exact .inr (.inl (mem_singleton.1 h))
          · split at h
            · exact .inr (.inr (mem_singleton.1 h))
            · cases h

/-- The codec of a class is declared by the entry of that class. -/
theorem name_eq_of_codec (h : sym ∈ e.symbols l codesName) {cls : String}
    (hcodec : sym ∈ l.codecSymbols cls) :
    e.name = cls := by
  have hcls : (∃ name, sym = .method cls name) ∨ sym = .value (decoderName cls) ∨
      sym = .value (resultFactoryName cls) := by
    cases l <;> simp only [Language.codecSymbols, mem_cons, not_mem_nil, or_false] at hcodec <;>
      rcases hcodec with rfl | rfl | rfl <;> simp
  rcases of_mem_symbols h with rfl | ⟨name, rfl⟩ | rfl | rfl
  · simp at hcls
  · simpa using hcls
  · simp only [reduceCtorEq, exists_false, Symbol.value.injEq, false_or] at hcls
    rcases hcls with heq | heq
    · exact (String.append_left_inj _).1 heq
    · exact absurd heq (Emit.TypeScript.decoderName_ne_resultFactoryName _ _)
  · simp only [reduceCtorEq, exists_false, Symbol.value.injEq, false_or] at hcls
    rcases hcls with heq | heq
    · exact absurd heq.symm (Emit.TypeScript.decoderName_ne_resultFactoryName _ _)
    · exact (String.append_left_inj _).1 heq

/-- A container declares no codec. -/
theorem not_mem_symbols_of_container (hcontainer : e.isContainer codesName = true)
    (hcodec : sym ∈ l.codecSymbols e.name) : sym ∉ e.symbols l codesName := by
  have hbody : e.decl.body?.isSome = true := by
    simp only [isContainer, Bool.and_eq_true] at hcontainer
    exact hcontainer.1.1
  obtain ⟨body, hbody⟩ := Option.isSome_iff_exists.1 hbody
  rw [symbols_eq, hbody]
  simp only [hcontainer, ↓reduceIte]
  cases l <;> simp only [Language.codecSymbols, mem_cons, not_mem_nil, or_false] at hcodec <;>
    rcases hcodec with rfl | rfl | rfl <;> simp

/-- A class declares its codec, with a function for its result if it has one. -/
theorem mem_symbols_of_class {body : TypeBody} (hbody : e.decl.body? = some body)
    (hcontainer : e.isContainer codesName = false) (hcodec : sym ∈ l.codecSymbols e.name)
    (hresult : sym = .value (resultFactoryName e.name) → body.result.isSome = true) :
    sym ∈ e.symbols l codesName := by
  rw [symbols_eq, hbody]
  simp only [hcontainer, Bool.false_eq_true, ↓reduceIte]
  cases l with
  | dart =>
    simp only [Language.codecSymbols, mem_cons, not_mem_nil, or_false] at hcodec
    rcases hcodec with rfl | rfl <;> simp [Emit.Dart.memberNames]
  | typescript =>
    simp only [Language.codecSymbols, mem_cons, not_mem_nil, or_false] at hcodec
    rcases hcodec with rfl | rfl | rfl
    · simp
    · simp [Emit.TypeScript.memberNames]
    · simp [hresult rfl]

theorem mem_symbols_of_enum (h : e.decl.body? = none) {name : String}
    (hname : name ∈ ["fromJson", "toJson"]) :
    .method e.name name ∈ e.symbols l codesName := by
  rw [symbols_eq, h]
  simp only [mem_cons, not_mem_nil, or_false] at hname
  rcases hname with rfl | rfl <;> cases l <;> simp

end Naming.Entry

/-- The declarations whose values are written by their own methods where a value of the type is written. -/
def Binding.Bound.written : Bound → List Entry
  | enum _ e | named _ e _ => [e]
  | list _ element => element.written
  | map _ key value => (match key with | enum _ e => [e] | _ => []) ++ value.written
  | _ => []

theorem Binding.Bound.within_of_written {t : Bound} {c : Entry} (h : c ∈ t.written) :
    ∃ u : Bound, u.Within t ∧ u.entry? = some c := by
  induction t using Bound.inductChildren with
  | step t ih =>
    have hchild : ∀ {t' : Bound}, t' ∈ t.children → c ∈ t'.written → ∃ u : Bound, u.Within t ∧ u.entry? = some c := by
      intro t' ht' hc
      obtain ⟨u, hu, hentry⟩ := ih t' ht' hc
      exact ⟨u, .child ht' hu, hentry⟩
    cases t with
    | enum | named => exact ⟨_, .self _, congrArg some (mem_singleton.1 h).symm⟩
    | list occ element => exact hchild (Bound.element_mem_children occ element) h
    | map occ key value =>
      rcases mem_append.1 h with h | h
      · have hkey : c ∈ key.written := by cases key <;> simp_all [written]
        exact hchild (.head _) hkey
      · exact hchild (Bound.value_mem_children occ key value) h
    | _ => cases h

private theorem Contract.Kind.hasResult_of_isRemote {k : Kind} (h : k.isRemote = true) (hk : k ≠ .command) :
    k.hasResult = true := by
  cases k <;> simp_all [Kind.isRemote, Kind.hasResult]

theorem Emit.Language.exists_shape {l : Language} {b : Binder} {settings : Emit.Settings} {d : Entry}
    {text : String} (h : l.Block b settings d text) (htype : d.decl.body?.isSome = true) :
    ∃ s, b.shapeOf settings.errorCodesName d = .ok s := by
  cases l with
  | dart | typescript => exact Emit.Rendered.exists_shape h htype

namespace Compile

/-- A codec in the class of an entry calls the symbol. -/
def Calls (l : Language) (codesName : String) (b : Binder) (sym : Symbol) : Prop :=
  ∃ d ∈ b.table.entries, ∃ s, b.shapeOf codesName d = .ok s ∧ s.errorCodes = false ∧
    ∃ x ∈ l.codecs s, ∃ u : Expr, u.Within x ∧ u.callee? l = some sym

/-- A type of a class that is emitted names the entry: that of a field, the result, a constraint or the base. -/
def IsNamed (codesName : String) (b : Binder) (c : Entry) : Prop :=
  ∃ d ∈ b.table.entries, ∃ s, b.shapeOf codesName d = .ok s ∧ s.errorCodes = false ∧
    ∃ t ∈ s.types, ∃ u : Bound, u.Within t ∧ u.entry? = some c

/-- A class that is emitted writes values of the entry: it extends it, or has a field of such values. -/
def IsWritten (codesName : String) (b : Binder) (c : Entry) : Prop :=
  ∃ d ∈ b.table.entries, ∃ s, b.shapeOf codesName d = .ok s ∧ s.errorCodes = false ∧
    ((∃ occ as, s.base? = some (.named occ c as)) ∨ ∃ f ∈ s.ownFields, c ∈ f.type.written)

private theorem IsWritten.isNamed {codesName : String} {b : Binder} {c : Entry}
    (h : IsWritten codesName b c) :
    IsNamed codesName b c := by
  obtain ⟨d, hd, s, hs, herror, ⟨occ, as, hbase⟩ | ⟨f, hf, hc⟩⟩ := h
  · exact ⟨d, hd, s, hs, herror, _, Shape.base_mem_types hbase, _, .self _, rfl⟩
  · obtain ⟨u, hu, hentry⟩ := Bound.within_of_written hc
    exact ⟨d, hd, s, hs, herror, _, Shape.type_mem_types (Shape.mem_fields_of_own hf), u, hu, hentry⟩

/-- A client calls the class of the entry. -/
def IsRouted (l : Language) (b : Binder) (p : Program) (r : Route) (d : Entry) : Prop :=
  l = .typescript ∧ r ∈ p.routes ∧ b.table.lookup r.target = some d

/-- What the files of a language use. -/
inductive Uses (l : Language) (codesName : String) (b : Binder) (p : Program) : Symbol → Prop
  | call {sym : Symbol} : Calls l codesName b sym → Uses l codesName b p sym
  /-- The helper that writes any value calls the one that writes keys. -/
  | encodeKey : Calls l codesName b (.value "_encode") → Uses l codesName b p (.value "_encodeKey")
  | named {d : Entry} : IsNamed codesName b d → Uses l codesName b p (.type d.name)
  | written {d : Entry} : IsWritten codesName b d → Uses l codesName b p (.method d.name "toJson")
  /-- The client imports the class, writes its values and reads the results of queries and operations. -/
  | imported {r : Route} {d : Entry} : IsRouted l b p r d → Uses l codesName b p (.type d.name)
  | sent {r : Route} {d : Entry} : IsRouted l b p r d → Uses l codesName b p (.method d.name "toJson")
  | received {r : Route} {d : Entry} : IsRouted l b p r d → r.kind ≠ .command →
      Uses l codesName b p (.value (resultFactoryName d.name))

private theorem result_of_shapeOf {b : Binder} {codesName : String} {d : Entry} {s : Shape}
    (h : b.shapeOf codesName d = .ok s) {body : TypeBody} (hbody : d.decl.body? = some body)
    (hkind : body.kind.hasResult = true) : body.result.isSome = true := by
  obtain ⟨head, nested, inherited, own, parts⟩ := Binder.shapeOf_eq_ok h
  rw [parts.decl] at hbody
  obtain rfl : s.body = body := Option.some.inj hbody
  have hresult := parts.result
  unfold Binder.shapeResult at hresult
  split at hresult
  · rename_i r hr
    rw [hr]
    rfl
  · rw [if_pos hkind] at hresult
    cases hresult

namespace Emission

variable {p : Program} {o : Options} {e : Emitted} {b : Binder} {texts clients : List String}
  (E : Emission p o e b texts clients) {sym : Symbol} {d : Entry}

include E

abbrev symbols : List Symbol := e.language.grammar.symbols E.text

/-- The symbol is not one of the codec of a container of error codes. -/
def IsPlain (_ : Emission p o e b texts clients) (sym : Symbol) : Prop :=
  ∀ c ∈ b.table.entries, c.isContainer o.containerName = true → sym ∉ e.language.codecSymbols c.name

private theorem mem_symbols : sym ∈ E.symbols ↔
      (∃ name ∈ e.language.helperNames (Text.joinBlocks texts), sym = .value name) ∨
        ∃ d ∈ b.table.entries, sym ∈ d.symbols e.language o.containerName := by
  have hgroups : ∀ d : Entry, ∃ name items, e.language.introductions o.containerName d = .type name :: items :=
    fun d => ⟨d.name, Entry.introductions_eq_cons e.language o.containerName d⟩
  rw [symbols, Grammar.symbols, E.contracts, Emit.symbolsFrom_values, Emit.symbolsFrom_flatMap hgroups, mem_append,
    mem_map, mem_flatMap]
  exact or_congr (exists_congr fun name => and_congr_right fun _ => eq_comm) Iff.rfl

theorem not_mem_symbols_of_container (hd : d ∈ b.table.entries)
    (hcontainer : d.isContainer o.containerName = true)
    (hcodec : sym ∈ e.language.codecSymbols d.name) : sym ∉ E.symbols := by
  rw [E.mem_symbols, not_or]
  constructor
  · rintro ⟨name, hname, rfl⟩
    obtain ⟨hdecoder, hfactory⟩ := Emit.TypeScript.function_ne_own d.name
      (mem_append_left _ ((e.language.helperNames_sublist _).mem hname))
    cases hl : e.language with
    | dart => simp [hl, Language.codecSymbols] at hcodec
    | typescript => simp [hl, Language.codecSymbols, hdecoder, hfactory] at hcodec
  · rintro ⟨d', hd', hsym⟩
    have hname := Entry.name_eq_of_codec hsym hcodec
    obtain rfl := inj_on_of_nodup_map E.distinct hd' hd hname
    exact Entry.not_mem_symbols_of_container hcontainer hcodec hsym

omit E in
private theorem occurs_block {l : Language} {settings : Emit.Settings} {text w : String} {s : Shape}
    (hblock : l.Block b settings d text) (hs : b.shapeOf settings.errorCodesName d = .ok s)
    (herror : s.errorCodes = false) {x : Expr} (hx : x ∈ l.codecs s) (hw : Occurs w (l.exprText x)) {c : Char}
    (hlast : w.toList.getLast? = some c) (hc : Text.isBlank c = false) : Occurs w text := by
  cases l with
  | dart =>
    cases hblock with
    | enum hdecl _ => simp [Binder.shapeOf, hdecl] at hs
    | type _ hs' htext =>
      obtain rfl := Except.ok.inj (hs.symm.trans hs')
      rw [Emit.Dart.typeText_eq_ok htext, herror]
      exact Emit.Dart.occurs_classText hx hw hlast hc
  | typescript =>
    cases hblock with
    | enum hdecl _ => simp [Binder.shapeOf, hdecl] at hs
    | type _ hs' htext =>
      obtain rfl := Except.ok.inj (hs.symm.trans hs')
      rw [← Except.ok.inj htext]
      exact Emit.TypeScript.occurs_typeText herror hx hw hlast hc

private theorem occurs_of_calls (h : Calls e.language o.containerName b sym) :
    Occurs sym.mention (Text.joinBlocks texts) := by
  obtain ⟨d, hd, s, hs, herror, x, hx, u, hu, hcallee⟩ := h
  have hlast : sym.mention.toList.getLast? = some '(' := Emit.Expr.getLast?_mention hcallee
  obtain ⟨text, htext, hblock⟩ := exists_of_mem_right E.blocks.flip hd
  have hw := Language.occurs_within hu (Language.occurs_callee hcallee)
  exact (occurs_block hblock hs herror hx hw hlast rfl).joinBlocks htext hlast rfl

theorem mem_symbols_of_class (hd : d ∈ b.table.entries) {body : TypeBody}
    (hbody : d.decl.body? = some body) (hcodec : sym ∈ e.language.codecSymbols d.name)
    (hresult : sym = .value (resultFactoryName d.name) → body.result.isSome = true) (hplain : E.IsPlain sym) :
    sym ∈ E.symbols := by
  have hcontainer : d.isContainer o.containerName = false := by
    rw [Bool.eq_false_iff]
    exact fun hcontainer => hplain d hd hcontainer hcodec
  exact E.mem_symbols.2 (.inr ⟨d, hd, Entry.mem_symbols_of_class hbody hcontainer hcodec hresult⟩)

private theorem mem_symbols_of_calls (h : Calls e.language o.containerName b sym) (hplain : E.IsPlain sym) :
    sym ∈ E.symbols := by
  have hoccurs := E.occurs_of_calls h
  obtain ⟨d, hd, s, hs, _, x, hx, u, hu, hcallee⟩ := h
  obtain ⟨t, ht, hfrom⟩ := Language.from_of_codec hx hu hcallee
  have hbinds := Binder.binds_of_mem_types hs ht
  -- a decoder of members belongs to an enumeration in the type
  have hmember : ∀ name, (∃ occ c, (Bound.enum occ c).Within t ∧ name = c.name) →
      .method name "fromJson" ∈ E.symbols := by
    rintro _ ⟨occ, c, hwithin, rfl⟩
    obtain ⟨⟨q, hq⟩, htype⟩ := hbinds.lookup_entry hwithin rfl
    have hbody : c.decl.body? = none := by simpa using htype
    exact E.mem_symbols.2 (.inr ⟨c, E.worded.found q c hq, Entry.mem_symbols_of_enum hbody (by simp)⟩)
  unfold Expr.callee? at hcallee
  split at hcallee
  case h_1 enum _ | h_2 enum _ =>
    obtain rfl := Option.some.inj hcallee
    exact hmember enum hfrom
  case h_3 =>
    obtain rfl := Option.some.inj hcallee
    exact E.mem_symbols.2 (.inl ⟨_, (e.language.called_helperNames _).1 hoccurs, rfl⟩)
  case h_4 =>
    obtain rfl := Option.some.inj hcallee
    exact E.mem_symbols.2 (.inl ⟨_, ((e.language.called_helperNames _).2 hoccurs).1, rfl⟩)
  case h_5 cls value x as =>
    obtain rfl := Option.some.inj hcallee
    obtain ⟨⟨occ, c, args, hwithin, rfl⟩, _⟩ := hfrom
    obtain ⟨⟨q, hq⟩, htype⟩ := hbinds.lookup_entry hwithin rfl
    obtain ⟨body, hbody⟩ := Option.isSome_iff_exists.1 (htype.2 ⟨occ, args, rfl⟩)
    refine E.mem_symbols_of_class (E.worded.found q c hq) hbody ?_ ?_ hplain
    · cases e.language <;> simp [Language.decoder, Language.codecSymbols]
    · cases e.language with
      | dart => simp [Language.decoder]
      | typescript =>
        intro heq
        exact absurd (Symbol.value.inj heq) (Emit.TypeScript.decoderName_ne_resultFactoryName _ _)
  case h_6 => cases hcallee

private theorem mem_entries_of_isNamed {c : Entry} (h : IsNamed o.containerName b c) : c ∈ b.table.entries := by
  obtain ⟨d, _, s, hs, _, t, ht, u, hu, hentry⟩ := h
  obtain ⟨⟨q, hq⟩, _⟩ := (Binder.binds_of_mem_types hs ht).lookup_entry hu hentry
  exact E.worded.found q c hq

private theorem class_of_isRouted {r : Route} (h : IsRouted e.language b (p.exclude o.exclude).1 r d) :
    d ∈ b.table.entries ∧ ∃ body, d.decl.body? = some body ∧ (r.kind ≠ .command → body.result.isSome = true) := by
  obtain ⟨_, hr, hlookup⟩ := h
  have hd := E.worded.found _ d hlookup
  refine ⟨hd, ?_⟩
  obtain ⟨v, hv, hq, body, hbody, hkind, hremote⟩ := Program.visit_of_route hr
  obtain ⟨d', hd', hdecl⟩ := Table.lookup_of_mem_kept E.kept (Binder.build_eq_ok.1 E.binder).2 hv
  rw [hq, hlookup] at hd'
  obtain rfl := Option.some.inj hd'
  rw [← hdecl] at hbody
  obtain ⟨text, _, hblock⟩ := exists_of_mem_right E.blocks.flip hd
  obtain ⟨s, hs⟩ := Language.exists_shape hblock (by rw [hbody]; rfl)
  refine ⟨body, hbody, fun hcommand => result_of_shapeOf hs hbody ?_⟩
  exact Contract.Kind.hasResult_of_isRemote hremote (hkind ▸ hcommand)

private theorem mem_symbols_of_uses (h : Uses e.language o.containerName b (p.exclude o.exclude).1 sym)
    (hplain : E.IsPlain sym) : sym ∈ E.symbols := by
  have htype : ∀ d ∈ b.table.entries,
      .type d.name ∈ E.symbols :=
    fun d hd => E.mem_symbols.2 (.inr ⟨d, hd, Entry.type_mem_symbols _ _ d⟩)
  have hjson : ∀ cls, .method cls "toJson" ∈ e.language.codecSymbols cls := fun cls => by
    cases e.language <;> simp [Language.codecSymbols]
  cases h with
  | call hcalls => exact E.mem_symbols_of_calls hcalls hplain
  | encodeKey hcalls =>
    have hoccurs := E.occurs_of_calls hcalls
    exact E.mem_symbols.2 (.inl ⟨_, ((e.language.called_helperNames _).2 hoccurs).2, rfl⟩)
  | named hnamed => exact htype _ (E.mem_entries_of_isNamed hnamed)
  | @written d hwritten =>
    have hd := E.mem_entries_of_isNamed hwritten.isNamed
    cases hbody : d.decl.body? with
    | none => exact E.mem_symbols.2 (.inr ⟨d, hd, Entry.mem_symbols_of_enum hbody (by simp)⟩)
    | some body => exact E.mem_symbols_of_class hd hbody (hjson _) nofun hplain
  | imported hrouted => exact htype _ (E.class_of_isRouted hrouted).1
  | sent hrouted =>
    obtain ⟨hd, body, hbody, _⟩ := E.class_of_isRouted hrouted
    exact E.mem_symbols_of_class hd hbody (hjson _) nofun hplain
  | @received r d hrouted hcommand =>
    obtain ⟨hd, body, hbody, hresult⟩ := E.class_of_isRouted hrouted
    refine E.mem_symbols_of_class hd hbody ?_ (fun _ => hresult hcommand) hplain
    rw [hrouted.1]
    simp [Language.codecSymbols]

private theorem occurs_contracts (h : Calls e.language o.containerName b sym) : Occurs sym.mention E.text := by
  have hlast : sym.mention.toList.getLast? = some '(' := by
    obtain ⟨_, _, _, _, _, _, _, u, _, hcallee⟩ := h
    exact Emit.Expr.getLast?_mention hcallee
  have hblocks := E.occurs_of_calls h
  unfold text
  cases e.language with
  | dart | typescript => exact (hblocks.joinBlocks (by simp) hlast rfl).append_right _

end Emission

/-- The files of a language use symbols of the file of declarations, and the calls of codecs stand in its text.  Such
a symbol is declared there exactly if it does not belong to the codec of a container of error codes. -/
theorem declared_iff_of_uses {p : Program} {o : Options} {out : Output} (h : generate p o = .ok out) {e : Emitted}
    (he : e ∈ out.emitted) :
    ∃ b contracts clients, binderOf o (p.exclude o.exclude).1 e.language = .ok b ∧ e.table = b.table ∧
      e.files.map (·.content) = (contracts :: clients).map (o.preambleOf e.language ++ ·) ∧
      (∀ sym, Calls e.language o.containerName b sym → Occurs sym.mention contracts) ∧
      ∀ sym, Uses e.language o.containerName b (p.exclude o.exclude).1 sym →
        (sym ∈ e.language.grammar.symbols contracts ↔
          ∀ d ∈ e.table.entries, d.isContainer o.containerName = true → sym ∉ e.language.codecSymbols d.name) := by
  obtain ⟨b, texts, clients, E⟩ := emission_of_generate h he
  refine ⟨b, e.language.contractsText (p.exclude o.exclude).1 texts, clients, E.binder, E.table, E.files,
    fun sym hcalls => E.occurs_contracts hcalls, fun sym huses => ?_⟩
  rw [E.table]
  exact ⟨fun hsym d hd hcontainer hcodec => E.not_mem_symbols_of_container hd hcontainer hcodec hsym,
    E.mem_symbols_of_uses huses⟩

/-- The file of the market declares what reads the results of its query. -/
theorem declared_market :
    ∃ out e contracts clients, generate market {} = .ok out ∧ e ∈ out.emitted ∧ e.language = .typescript ∧
      e.files.map (·.content) = contracts :: clients ∧
      .value "RecordsResultFactory" ∈ e.language.grammar.symbols contracts := by
  have hrun : (generate market {}).toOption.map (fun out => out.emitted.map fun e =>
      (e.language, (e.table.lookup "Market.Records").map (·.name), e.table.entries.all fun d =>
        !(d.isContainer "ErrorCodes" && (e.language.codecSymbols d.name).contains (.value "RecordsResultFactory")))) =
      some [(.dart, some "Records", true), (.typescript, some "Records", true)] := by decide +kernel
  have hroutes : (market.exclude {}).1.routes.any
      (fun r => r.target == "Market.Records" && r.kind != .command) = true := by decide +kernel
  obtain ⟨r, hr, hroute⟩ := any_eq_true.1 hroutes
  obtain ⟨htarget, hkind⟩ := Bool.and_eq_true_iff.1 hroute
  obtain ⟨out, hout, hrun⟩ := toOption_map_eq_some.1 hrun
  simp only [map_eq_cons_iff, map_eq_nil_iff, Prod.mk.injEq, Option.map_eq_some_iff, all_eq_true,
    Bool.not_eq_true', Bool.and_eq_false_imp, contains_eq_mem, decide_eq_false_iff_not] at hrun
  obtain ⟨d, _, hemitted, _, e, _, rfl, ⟨hlanguage, ⟨c, hlookup, hname⟩, hplain⟩, rfl⟩ := hrun
  have he : e ∈ out.emitted := hemitted ▸ .tail d (.head _)
  obtain ⟨b, contracts, clients, _, htable, hfiles, _, huses⟩ := declared_iff_of_uses hout he
  have hrouted : IsRouted e.language b (market.exclude {}).1 r c :=
    ⟨hlanguage, hr, by rw [beq_iff_eq.1 htarget, ← htable]; exact hlookup⟩
  have hreceived : Uses e.language "ErrorCodes" b (market.exclude {}).1 (.value (resultFactoryName c.name)) :=
    .received hrouted (by simpa using hkind)
  rw [hname] at hreceived
  exact ⟨out, e, contracts, clients, hout, he, hlanguage, contents_default hfiles, (huses _ hreceived).2 hplain⟩

/-- A field of a container's type calls a codec that the file does not declare. -/
theorem Emission.undeclared_of_field {p : Program} {o : Options} {e : Emitted} {b : Binder}
    {texts clients : List String} (E : Emission p o e b texts clients) {d c : Entry} {s : Shape}
    (hd : d ∈ b.table.entries) (hs : b.shapeOf o.containerName d = .ok s) (herror : s.errorCodes = false)
    {f : Binding.ShapeField} (hf : f ∈ s.fields) (hc : f.type.declared? = some c)
    (hcontainer : c.isContainer o.containerName = true) :
    Calls e.language o.containerName b (e.language.decoder c.name) ∧ e.language.decoder c.name ∉ E.symbols := by
  obtain ⟨occ, as, htype⟩ := Bound.eq_named_of_declared? hc
  have hcodec : e.language.decoder c.name ∈ e.language.codecSymbols c.name := by
    cases e.language <;> simp [Language.decoder, Language.codecSymbols]
  obtain ⟨⟨q, hq⟩, _⟩ :=
    (Binder.binds_of_mem_types hs (Shape.type_mem_types hf)).lookup_entry (.self _) (by rw [htype]; rfl)
  refine ⟨⟨d, hd, s, hs, herror, ?_⟩, E.not_mem_symbols_of_container (E.worded.found q c hq) hcontainer hcodec⟩
  obtain ⟨place, hx⟩ : ∃ place, Emit.decode f.type (.place place) 0 ∈ e.language.codecs s := by
    cases e.language with
    | dart | typescript =>
      exact ⟨_, mem_append_left _ (mem_append_left _ (mem_map_of_mem hf))⟩
  refine ⟨_, hx, .construct c.name (.place place) (Emit.elementVar 0) (Emit.decodeArguments 0 as), ?_, rfl⟩
  rw [htype, Emit.decode, Emit.guardNull]
  split
  · exact .child (.tail _ (.head _)) (.self _)
  · exact .self _

/-- A shop whose report has a field for the error codes of orders. -/
def ledger : Program :=
  { name := "Shop"
    declarations :=
      [.type { ns := "App", name := "Order" } {}
          [.type { name := "ErrorCodes" } { constants := [{ name := "Closed", value := some (.int 1) }] } []],
        .type { ns := "App", name := "Report" }
          { fields := [some { name := "Codes", type := some (.named "Order.ErrorCodes") }] } []] }

/-- The reader of the error codes is used in both languages and declared in neither. -/
theorem undeclared_codec_ledger :
    ∃ out, generate ledger {} = .ok out ∧ out.emitted.map (·.language) = [.dart, .typescript] ∧
      ∀ e ∈ out.emitted, ∃ b, binderOf {} (ledger.exclude {}).1 e.language = .ok b ∧
        Uses e.language "ErrorCodes" b (ledger.exclude {}).1 (e.language.decoder "Order_ErrorCodes") ∧
        ∃ contracts clients, e.files.map (·.content) = contracts :: clients ∧
          Occurs (e.language.decoder "Order_ErrorCodes").mention contracts ∧
          e.language.decoder "Order_ErrorCodes" ∉ e.language.grammar.symbols contracts := by
  have hrun :
      (generate ledger {}).toOption.map (fun out => out.emitted.map (·.language)) = some [.dart, .typescript] := by
    decide +kernel
  have hfield : ∀ l, ((binderOf {} (ledger.exclude {}).1 l).toOption.bind fun b =>
      (b.table.lookup "App.Report").bind fun d => (b.shapeOf "ErrorCodes" d).toOption.map fun s =>
        !s.errorCodes && s.fields.any fun f => f.type.declared?.any fun c =>
          c.name == "Order_ErrorCodes" && c.isContainer "ErrorCodes") = some true := by
    intro l
    cases l <;> decide +kernel
  obtain ⟨out, hout, hlanguages⟩ := toOption_map_eq_some.1 hrun
  refine ⟨out, hout, hlanguages, fun e he => ?_⟩
  obtain ⟨b, texts, clients, E⟩ := emission_of_generate hout he
  obtain ⟨b', hb', hfield⟩ := toOption_bind_eq_some.1 (hfield e.language)
  have hbinder : binderOf {} (ledger.exclude {}).1 e.language = .ok b := E.binder
  cases hbinder.symm.trans hb'
  obtain ⟨d, hd, hfield⟩ := Option.bind_eq_some_iff.1 hfield
  obtain ⟨s, hs, hfield⟩ := toOption_map_eq_some.1 hfield
  simp only [Bool.and_eq_true, Bool.not_eq_true', any_eq_true, Option.any_eq_true, beq_iff_eq] at hfield
  obtain ⟨herror, f, hf, c, hc, hname, hcontainer⟩ := hfield
  obtain ⟨hcalls, hundeclared⟩ := E.undeclared_of_field (E.worded.found _ d hd) hs herror hf hc hcontainer
  have hoccurs := E.occurs_contracts hcalls
  rw [hname] at hcalls hundeclared hoccurs
  exact ⟨b, hbinder, .call hcalls, _, clients, contents_default E.files, hoccurs, hundeclared⟩

end Compile

end Covenant
