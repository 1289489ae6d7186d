import Covenant.Proofs.Binding.Words
import Covenant.Proofs.Emit.CodecParts

/-!
# The calls in emitted classes

A part of a codec expression that reads a class or a member, or that needs a helper, calls a symbol (`Expr.callee?`).
Every such call stands in the text of the class.
-/

namespace Covenant.Emit

open Binding (Shape)
open Text (Occurs)
open List

/-- What emitted code can declare and use. -/
inductive Symbol where
  | type (name : String)
  | method (cls name : String)
  | value (name : String)
  deriving DecidableEq, Repr

/-- How a text mentions the symbol. -/
def Symbol.mention : Symbol → String
  | type name => name
  | method cls name => cls ++ "." ++ name ++ "("
  | value name => name ++ "("

namespace Language

def decoder : Language → String → Symbol
  | dart, cls => .method cls "fromJson"
  | typescript, cls => .value (TypeScript.decoderName cls)

end Language

/-- The symbol that the expression itself calls; its parts do not matter. -/
def Expr.callee? (l : Language) : Expr → Option Symbol
  | convert (.member enum) _ | convert (.keyMember enum) _ => some (.method enum "fromJson")
  | convert .double _ => some (.value "_double")
  | convert .anyJson _ => some (.value "_encode")
  | construct cls _ _ _ => some (l.decoder cls)
  | _ => none

theorem Expr.getLast?_mention {l : Language} {u : Expr} {sym : Symbol} (h : u.callee? l = some sym) :
    sym.mention.toList.getLast? = some '(' := by
  have hcall : (∃ cls name, sym = .method cls name) ∨ ∃ name, sym = .value name := by
    unfold callee? at h
    split at h
    case h_1 | h_2 => exact .inl ⟨_, _, (Option.some.inj h).symm⟩
    case h_3 | h_4 => exact .inr ⟨_, (Option.some.inj h).symm⟩
    case h_5 =>
      obtain rfl := Option.some.inj h
      cases l with
      | dart => exact .inl ⟨_, _, rfl⟩
      | typescript => exact .inr ⟨_, rfl⟩
    case h_6 => cases h
  have hopen : ∀ s : String, (s ++ "(").toList.getLast? = some '(' := fun s => by simp
  rcases hcall with ⟨cls, name, rfl⟩ | ⟨name, rfl⟩
  · exact hopen _
  · exact hopen _

namespace Language

variable {l : Language} {w : String} {c u e : Expr}

private theorem occurs_conversionText (conversion : Conversion) {value : String} (hw : Occurs w value) :
    Occurs w (Dart.conversionText conversion value) ∧ Occurs w (TypeScript.conversionText conversion value) := by
  cases conversion
  all_goals
    unfold Dart.conversionText TypeScript.conversionText
    constructor
  all_goals with_reducible first
    | exact hw.append_right _
    | exact (hw.append_left _).append_right _

private theorem occurs_argumentTexts (x : String) {as : List Expr} (h : c ∈ as) (hw : Occurs w (l.exprText c)) :
    Occurs w (l.argumentTexts x as) := by
  induction as with
  | nil => cases h
  | cons a as ih =>
    rcases mem_cons.1 h with rfl | h
    · cases l <;> exact (hw.append_left _).append_right _
    · cases l <;> exact (ih h).append_left _

private theorem occurs_child (h : c ∈ e.children) (hw : Occurs w (l.exprText c)) : Occurs w (l.exprText e) := by
  cases e
  all_goals simp only [Expr.children, mem_cons, not_mem_nil, or_false] at h
  case convert conversion value =>
    subst h
    cases l with
    | dart => exact (occurs_conversionText conversion hw).1
    | typescript => exact (occurs_conversionText conversion hw).2
  case construct cls value x as =>
    rcases h with rfl | h
    · cases l with
      | dart | typescript =>
        iterate 3 refine .append_right ?_ _
        exact hw.append_left _
    · cases l <;> exact ((occurs_argumentTexts x h hw).append_left _).append_right _
  case' nonNull => subst h
  case' unlessNull | readList | writeList => rcases h with rfl | rfl
  case' readMap | writeMap => rcases h with rfl | rfl | rfl
  -- the text of a part is one of the texts that stand behind one another
  all_goals
    cases l
    all_goals
      dsimp only [exprText] at hw ⊢
      first
        | unfold Dart.exprText
        | unfold TypeScript.exprText
      repeat' with_reducible first
        | exact hw
        | exact hw.append_left _
        | refine .append_right ?_ _

/-- The text of a part occurs in the text of the expression. -/
theorem occurs_within (h : u.Within e) (hw : Occurs w (l.exprText u)) : Occurs w (l.exprText e) := by
  induction h with
  | self => exact hw
  | child hc _ ih => exact occurs_child hc ih

/-- The text of an expression mentions the symbol that it calls. -/
theorem occurs_callee {sym : Symbol} (h : u.callee? l = some sym) : Occurs sym.mention (l.exprText u) := by
  unfold Expr.callee? at h
  split at h
  case h_1 enum value =>
    obtain rfl := Option.some.inj h
    cases l with
    | dart =>
      refine .append_right (.append_right ?_ _) _
      exact ⟨[], ['('], by simp [Symbol.mention]⟩
    | typescript =>
      refine .append_right (.append_right ?_ _) _
      exact ⟨[], [], by simp [Symbol.mention]⟩
  case h_2 enum value =>
    obtain rfl := Option.some.inj h
    cases l with
    | dart =>
      refine .append_right (.append_right ?_ _) _
      exact ⟨[], "int.parse(".toList, by simp [Symbol.mention]⟩
    | typescript =>
      refine .append_right (.append_right ?_ _) _
      exact ⟨[], "Number(".toList, by simp [Symbol.mention]⟩
  case h_3 | h_4 =>
    obtain rfl := Option.some.inj h
    cases l <;> exact .append_right (.append_right ⟨[], [], by simp [Symbol.mention]⟩ _) _
  case h_5 cls value x as =>
    obtain rfl := Option.some.inj h
    cases l with
    | dart | typescript =>
      iterate 4 refine .append_right ?_ _
      exact ⟨[], [], by simp [Symbol.mention, decoder]⟩
  case h_6 => cases h

/-- The expressions in the codecs of a class. -/
def codecs : Language → Shape → List Expr
  | dart, s =>
    s.fields.map (fun f => decode f.type (.place ("json[" ++ Dart.quote f.wire ++ "]")) 0) ++
      s.ownFields.map (fun f => encode Dart.encodeStyle f.type (.place f.ident) 0) ++
      (s.result?.map fun result => decode result (.place "decodedJson") 0).toList
  | typescript, s =>
    s.fields.map (fun f => decode f.type (.place ("json[" ++ TypeScript.quote f.wire ++ "]")) 0) ++
      s.ownFields.map (fun f => encode TypeScript.encodeStyle f.type (.place ("this." ++ f.ident)) 0) ++
      (s.result?.map fun result => decode result (.place "decodedJson") 0).toList

/-- What a codec calls comes from a type of the class. -/
theorem from_of_codec {l : Language} {s : Shape} {x u : Expr} (hx : x ∈ l.codecs s) (hu : u.Within x) {sym : Symbol}
    (hcallee : u.callee? l = some sym) : ∃ t ∈ s.types, u.From t := by
  -- the places that codecs start from call nothing
  have hplace : ∀ place, ¬ u.Within (.place place) := by
    intro place h
    rcases Expr.within_iff.1 h with rfl | ⟨c, hc, _⟩
    · cases hcallee
    · cases hc
  have hcodec : (∃ f ∈ s.fields, ∃ place, x = decode f.type (.place place) 0) ∨
      (∃ f ∈ s.ownFields, ∃ style place, x = encode style f.type (.place place) 0) ∨
      ∃ result, s.result? = some result ∧ ∃ place, x = decode result (.place place) 0 := by
    cases l with
    | dart | typescript =>
      simp only [codecs, mem_append, mem_map, Option.mem_toList, Option.map_eq_some_iff] at hx
      rcases hx with (⟨f, hf, rfl⟩ | ⟨f, hf, rfl⟩) | ⟨result, hresult, rfl⟩
      · exact .inl ⟨f, hf, _, rfl⟩
      · exact .inr (.inl ⟨f, hf, _, _, rfl⟩)
      · exact .inr (.inr ⟨result, hresult, _, rfl⟩)
  rcases hcodec with ⟨f, hf, place, rfl⟩ | ⟨f, hf, style, place, rfl⟩ | ⟨result, hresult, place, rfl⟩
  · exact ⟨f.type, Shape.type_mem_types hf, (Expr.within_decode hu).resolve_left (hplace place)⟩
  · exact ⟨f.type, Shape.type_mem_types (Shape.mem_fields_of_own hf),
      (Expr.within_encode hu).resolve_left (hplace place)⟩
  · exact ⟨result, Shape.result_mem_types hresult, (Expr.within_decode hu).resolve_left (hplace place)⟩

end Language

section

variable {s : Shape} {w : String} {x : Expr}

theorem Dart.occurs_classText (hx : x ∈ Language.dart.codecs s) (hw : Occurs w (exprText x)) {c : Char}
    (hlast : w.toList.getLast? = some c) (hc : Text.isBlank c = false) : Occurs w (classText s) := by
  obtain ⟨member, hmember, hw⟩ : ∃ member ∈ classMembers s, Occurs w member := by
    simp only [Language.codecs, mem_append, mem_map, Option.mem_toList, Option.map_eq_some_iff] at hx
    rcases hx with (⟨f, hf, rfl⟩ | ⟨f, hf, rfl⟩) | ⟨result, hresult, rfl⟩
    · refine ⟨fromJson s, by simp [classMembers], ?_⟩
      have hfield : Occurs w (decodedField f) := (hw.append_left _).append_right _
      have hne : s.fields.isEmpty = false := by simpa using ne_nil_of_mem hf
      unfold fromJson
      rw [hne]
      exact .append_left (((hfield.join (mem_map_of_mem hf)).append_left _).append_right _) _
    · refine ⟨toJson s, by simp [classMembers], ?_⟩
      have hfield : Occurs w (encodedField f) := (hw.append_left _).append_right _
      exact ((hfield.join (mem_map_of_mem hf)).append_left _).append_right _
    · refine ⟨resultFactory result, by simp [classMembers, hresult], ?_⟩
      exact (hw.append_left _).append_right _
  exact ((hw.joinBlocks hmember hlast hc).append_left _).append_right _

theorem TypeScript.occurs_typeText (herror : s.errorCodes = false) (hx : x ∈ Language.typescript.codecs s)
    (hw : Occurs w (exprText x)) {c : Char} (hlast : w.toList.getLast? = some c) (hc : Text.isBlank c = false) :
    Occurs w (typeText s) := by
  obtain ⟨block, hblock, hw⟩ :
      ∃ block ∈ [classText s, fromJson s] ++ (s.result?.map (resultFactory s)).toList, Occurs w block := by
    simp only [Language.codecs, mem_append, mem_map, Option.mem_toList, Option.map_eq_some_iff] at hx
    rcases hx with (⟨f, hf, rfl⟩ | ⟨f, hf, rfl⟩) | ⟨result, hresult, rfl⟩
    · refine ⟨fromJson s, by simp, ?_⟩
      have hfield : Occurs w (decodedField f) := (hw.append_left _).append_right _
      have hne : s.fields.isEmpty = false := by simpa using ne_nil_of_mem hf
      unfold fromJson
      rw [hne]
      exact .append_right (.append_left (((hfield.join (mem_map_of_mem hf)).append_left _).append_right _) _) _
    · have hfield : Occurs w (encodedField f) := (hw.append_left _).append_right _
      have hjson : Occurs w (toJson s) := by
        unfold toJson
        exact (((hfield.join (mem_map_of_mem hf)).append_left _).append_right _).append_right _
      have hmember : toJson s ∈ classMembers s := by simp [classMembers]
      exact ⟨classText s, by simp, ((hjson.joinBlocks hmember hlast hc).append_left _).append_right _⟩
    · refine ⟨resultFactory s result, by simp [hresult], ?_⟩
      unfold resultFactory
      exact ((hw.append_left _).append_right _).append_right _
  have htext :
      typeText s = Text.joinBlocks ([classText s, fromJson s] ++ (s.result?.map (resultFactory s)).toList) := by
    simp only [typeText, herror, Bool.false_eq_true, ↓reduceIte]
  exact htext ▸ hw.joinBlocks hblock hlast hc

end

end Covenant.Emit
