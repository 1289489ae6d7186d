import Covenant.Proofs.Emit.OneLine

/-!
# The outline of declarations

What the blocks of the Dart file and of the TypeScript file introduce, given that all names in them are words.
-/

namespace Covenant.Emit

open Binding (Bound Shape ShapeConstant ShapeField)
open Contract (EnumMember Program)
open Naming (Entry)
open Text (IsWord Over isIdentifierChar isInline)
open List

attribute [local simp] isIdentifierChar

set_option maxRecDepth 20000

private theorem inline_jsonField {wire : String} (h : Over isInline wire) : Over isInline ("json[" ++ wire ++ "]") :=
  .append (.append (.ofList rfl) h) (.ofList rfl)

namespace Dart

/-- How Dart introduces things: the helper functions start with the types of their results. -/
@[simps] def grammar : Grammar :=
  { types := [['c', 'l', 'a', 's', 's']]
    values := [['d', 'o', 'u', 'b', 'l', 'e'], ['S', 't', 'r', 'i', 'n', 'g'], ['d', 'y', 'n', 'a', 'm', 'i', 'c']]
    statements := []
    memberColumn := 2 }

private theorem inline_quote (s : String) : Over isInline (quote s) := Text.over_literal _ s

instance {g : Grammar} (s : String) : Spelled g (quote s) [.inline (quote s)] := .inline (inline_quote s)

private theorem silent_enumMember {name : String} (hname : IsWord name) {m : String × EnumMember} (hm : IsWord m.1) :
    grammar.Silent (enumMember name m) := by
  unfold enumMember
  exact Spelled.read (by simp)

theorem outline_enumText {e : Entry} (he : IsWord e.name) {members : List (String × EnumMember)}
    (hmembers : ∀ m ∈ members, IsWord m.1) :
    grammar.outline (enumText e members) =
      [.type e.name, .member "_", .member "fromJson", .member "toJson", .member "toString"] := by
  have hlines := grammar.silent_join fun m hm => silent_enumMember he (hmembers m hm)
  have hnames : Spelled grammar (Text.join ", " (members.map (·.1))) _ :=
    .inline (.separated (.ofList rfl) (by simpa using fun m m' hm => (hmembers _ hm).inline))
  have hbreak : Spelled grammar (if members.isEmpty then "" else "\n") _ := .silent (by
    split
    · rfl
    · have hchars : "\n".toList = ['\n'] := by simp
      simp [Grammar.Silent, hchars])
  unfold enumText
  dsimp only
  exact Spelled.outline_eq (by simp)

private theorem silent_constantText {c : ShapeConstant} (hc : IsWord c.ident) : grammar.Silent (constantText c) := by
  unfold constantText
  split <;> exact Spelled.read (by simp)

private theorem silent_constantsText {constants : List ShapeConstant} (h : ∀ c ∈ constants, IsWord c.ident) :
    Spelled grammar (constantsText constants) [.silent (constantsText constants)] :=
  grammar.silent_join fun c hc => silent_constantText (h c hc)

theorem outline_errorCodesText {s : Shape} (hs : s.Worded) :
    grammar.outline (errorCodesText s) = [.type s.entry.name, .member "_"] := by
  have hconstants := silent_constantsText hs.constants
  have hname := hs.name
  unfold errorCodesText
  cases s.constants.isEmpty
  all_goals
    simp only [Bool.false_eq_true, ↓reduceIte]
    exact Spelled.outline_eq (by simp)

private theorem silent_constructorField {f : ShapeField} (hf : IsWord f.ident) :
    grammar.Silent (constructorField f) := by
  unfold constructorField
  cases f.type.nullable <;> cases f.inherited
  all_goals
    simp only [Bool.false_eq_true, ↓reduceIte]
    exact Spelled.read (by simp)

private theorem outline_resultFactory {result : Bound} (hresult : result.Worded) :
    grammar.outline (resultFactory result) = [.member "resultFactory"] := by
  have htype := Spelled.phrase (phrase_typeExpr grammar hresult)
  have hplace : Over isInline "decodedJson" := .ofList rfl
  have htext := Spelled.inline (g := grammar) (inline_decodeText hresult hplace)
  unfold resultFactory
  exact Spelled.outline_eq (by simp)

private theorem outline_fullName (qualified : String) :
    grammar.outline ("  static const String fullName = " ++ quote qualified ++ ";") = [] := by
  exact Spelled.outline_eq (by simp)

private theorem outline_getFullName :
    grammar.outline "  String getFullName() => fullName;" = [.member "getFullName"] := by
  exact Spelled.outline_eq (by simp)

section

variable {s : Shape} (hs : s.Worded) {f : ShapeField}

include hs

private theorem outline_constructor : grammar.outline (constructor s) = [.member s.entry.name] := by
  have hfields := grammar.silent_join fun f hf => silent_constructorField (hs.idents f hf)
  have hname := hs.name
  unfold constructor
  split
  all_goals exact Spelled.outline_eq (by simp [hs.name.ne_nil])

private theorem silent_decodedField (hf : f ∈ s.fields) : grammar.Silent (decodedField f) := by
  have hident := hs.idents f hf
  have htext := Spelled.inline (g := grammar)
    (inline_decodeText (hs.types _ (Shape.type_mem_types hf)) (inline_jsonField (inline_quote f.wire)))
  unfold decodedField
  exact Spelled.read (by simp)

private theorem inline_paramDecoders :
    Over isInline
      (String.join (s.params.map fun p => ", " ++ p.name ++ " Function(dynamic) " ++ paramDecoder p.name)) := by
  refine .join fun text htext => ?_
  obtain ⟨p, hp, rfl⟩ := mem_map.1 htext
  have hname := (hs.params p hp).inline
  exact .append (.append (.append (.ofList rfl) hname) (.ofList rfl)) (.append (.ofList rfl) hname)

private theorem outline_fromJson : grammar.outline (fromJson s) = [.member "fromJson"] := by
  have hfields := grammar.silent_join fun f hf => silent_decodedField hs hf
  have hparams := Spelled.inline (g := grammar) (inline_paramDecoders hs)
  have hself := Spelled.inline (g := grammar) (inline_selfType hs)
  have hname := hs.name
  unfold fromJson
  dsimp only
  split
  all_goals exact Spelled.outline_eq (by simp)

private theorem silent_encodedField (hf : f ∈ s.fields) : grammar.Silent (encodedField f) := by
  have htext := Spelled.inline (g := grammar)
    (inline_encodeText (hs.types _ (Shape.type_mem_types hf)) (hs.idents f hf).inline)
  unfold encodedField
  exact Spelled.read (by simp)

private theorem outline_toJson : grammar.outline (toJson s) = [.member "toJson"] := by
  have hfields :=
    grammar.silent_join fun f (hf : f ∈ s.ownFields) => silent_encodedField hs (Shape.mem_fields_of_own hf)
  unfold toJson
  cases s.base?.isSome
  all_goals
    simp only [Bool.false_eq_true, ↓reduceIte]
    exact Spelled.outline_eq (by simp)

private theorem outline_field (hf : f ∈ s.fields) :
    grammar.outline ("  final " ++ typeExpr f.type ++ " " ++ f.ident ++ ";") = [] := by
  have htype := Spelled.phrase (phrase_typeExpr grammar (hs.types _ (Shape.type_mem_types hf)))
  have hident := hs.idents f hf
  exact Spelled.outline_eq (by simp)

def memberNames (cls : String) (remote result : Bool) : List String :=
  [cls, "fromJson"] ++ (if remote then ["getFullName"] else []) ++ ["toJson"] ++
    (if result then ["resultFactory"] else [])

private theorem outline_classMembers :
    (classMembers s).flatMap grammar.outline =
      (memberNames s.entry.name s.isRemote s.result?.isSome).map .member := by
  have hconstants : grammar.outline (constantsText s.constants) = [] := by
    exact Spelled.outline_eq (h := silent_constantsText hs.constants) (by simp)
  have hfields : grammar.outline
      (Text.join "\n" (s.ownFields.map fun f => "  final " ++ typeExpr f.type ++ " " ++ f.ident ++ ";")) = [] := by
    rw [Grammar.outline_lines, flatMap_map, flatMap_eq_nil_iff]
    exact fun f hf => outline_field hs (Shape.mem_fields_of_own hf)
  have hremote : ["  static const String fullName = " ++ quote s.entry.qualified ++ ";",
      "  String getFullName() => fullName;"].flatMap grammar.outline = ["getFullName"].map .member := by
    simp only [flatMap_cons, flatMap_nil, outline_fullName, outline_getFullName]
    rfl
  simp only [classMembers, memberNames, flatMap_append, flatMap_cons, flatMap_nil, map_append,
    map_cons, map_nil, append_nil, Grammar.outline_ite hremote, outline_constructor hs, outline_fromJson hs,
    outline_toJson hs, hconstants, hfields]
  cases hr : s.result? with
  | none => rfl
  | some result =>
    have hresult := outline_resultFactory (hs.types _ (Shape.result_mem_types hr))
    simp [hresult]

private theorem tail_typeParams : Spelled grammar (typeParams s.params) [.tail (typeParams s.params)] := by
  refine tail_angled grammar fun part hpart => ?_
  obtain ⟨p, hp, rfl⟩ := mem_map.1 hpart
  have hname := (hs.params p hp).inline
  split
  · exact hname
  · rename_i bound rest hconstraints
    have hbound := Shape.constraint_mem_types hp (hconstraints ▸ mem_cons_self)
    exact .append (.append hname (.ofList rfl)) (inline_baseType (hs.types bound hbound))

/-- A class introduces itself and its members. -/
theorem outline_classText :
    grammar.outline (classText s) =
      .type s.entry.name :: (memberNames s.entry.name s.isRemote s.result?.isSome).map .member := by
  have hname := hs.name
  have hparams := tail_typeParams hs
  refine (types.outline_classText hs inline_baseType ?_).trans (by rw [outline_classMembers hs])
  intro base base' markers markers' hbase hmarkers
  exact Spelled.read (by simp)

end

theorem outline_header {program : Program} (h : IsWord program.name) : grammar.outline (header program) = [] := by
  unfold header
  exact Spelled.outline_eq (by simp)

def helperNames (body : String) : List String :=
  (if Text.contains "_double(" body then ["_double"] else []) ++
    (if Text.contains "_encode(" body then ["_encodeKey", "_encode"] else [])

theorem outline_helpers (body : String) : grammar.outline (helpers body) = (helperNames body).map .value := by
  have hdouble : grammar.outline doubleHelper = [.value "_double"] := by
    unfold doubleHelper
    exact Spelled.outline_eq (by simp)
  have hkey : grammar.outline encodeKeyHelper = [.value "_encodeKey"] := by
    unfold encodeKeyHelper
    exact Spelled.outline_eq (by simp)
  have hencode : grammar.outline encodeHelper = [.value "_encode"] := by
    unfold encodeHelper
    exact Spelled.outline_eq (by simp)
  rw [helpers, Grammar.outline_joinBlocks, helperNames]
  split <;> split <;> simp [hdouble, hkey, hencode]

end Dart

namespace TypeScript

@[simps] def grammar : Grammar :=
  { types := [['c', 'l', 'a', 's', 's'], ['i', 'n', 't', 'e', 'r', 'f', 'a', 'c', 'e']]
    values := [['f', 'u', 'n', 'c', 't', 'i', 'o', 'n'], ['c', 'o', 'n', 's', 't']]
    statements := [['r', 'e', 't', 'u', 'r', 'n']]
    memberColumn := 4 }

variable {name : String}

private theorem inline_quote (s : String) : Over isInline (quote s) := Text.over_literal _ s

instance {g : Grammar} (s : String) : Spelled g (quote s) [.inline (quote s)] := .inline (inline_quote s)

private theorem silent_enumMember (hname : IsWord name) {m : String × EnumMember} (hm : IsWord m.1) :
    grammar.Silent (enumMember name m) := by
  unfold enumMember
  refine Spelled.read ?_
  by_cases hreturn : m.1.toList = ['r', 'e', 't', 'u', 'r', 'n'] <;> simp [hreturn]

theorem outline_enumText {e : Entry} (he : IsWord e.name) {members : List (String × EnumMember)}
    (hmembers : ∀ m ∈ members, IsWord m.1) :
    grammar.outline (enumText e members) =
      [.type e.name, .member "constructor", .member "fromJson", .member "toJson", .member "equals",
        .member "hashCode"] := by
  have hlines := grammar.silent_join fun m hm => silent_enumMember he (hmembers m hm)
  have hnames : Over isInline (Text.join ", " (members.map fun m => e.name ++ "." ++ m.1)) := by
    refine .separated (.ofList rfl) fun text htext => ?_
    obtain ⟨m, hm, rfl⟩ := mem_map.1 htext
    exact .append (.append he.inline (.ofList rfl)) (hmembers m hm).inline
  have hnames := Spelled.inline (g := grammar) hnames
  unfold enumText
  dsimp only
  exact Spelled.outline_eq (by simp)

private theorem silent_constantText {c : ShapeConstant} (hc : IsWord c.ident) : grammar.Silent (constantText c) := by
  unfold constantText
  split <;> exact Spelled.read (by simp)

private theorem silent_constantsText {constants : List ShapeConstant} (h : ∀ c ∈ constants, IsWord c.ident) :
    Spelled grammar (constantsText constants) [.silent (constantsText constants)] :=
  grammar.silent_join fun c hc => silent_constantText (h c hc)

theorem outline_errorCodesText {s : Shape} (hs : s.Worded) :
    grammar.outline (errorCodesText s) = [.type s.entry.name, .member "constructor"] := by
  have hconstants := silent_constantsText hs.constants
  have hname := hs.name
  unfold errorCodesText
  cases s.constants.isEmpty
  all_goals
    simp only [Bool.false_eq_true, ↓reduceIte]
    exact Spelled.outline_eq (by simp)

private theorem silent_fullName (qualified : String) :
    grammar.Silent ("    static readonly fullName: string = " ++ quote qualified ++ ";\n") :=
  Spelled.read (by simp)

private theorem isWord_decoderName (h : IsWord name) : IsWord (decoderName name) := h.append (.ofList rfl)

theorem isWord_resultFactoryName (h : IsWord name) : IsWord (resultFactoryName name) :=
  h.append (.ofList rfl)

section

variable {s : Shape} (hs : s.Worded) {f : ShapeField}

include hs

private theorem silent_fieldText (hf : f ∈ s.fields) : grammar.Silent (fieldText f) := by
  have hident := hs.idents f hf
  have htype := Spelled.inline (g := grammar) (inline_typeExpr (hs.types _ (Shape.type_mem_types hf)))
  unfold fieldText
  split
  all_goals
    refine Spelled.read ?_
    by_cases hreturn : f.ident.toList = ['r', 'e', 't', 'u', 'r', 'n'] <;> simp [hreturn]

private theorem outline_constructor : grammar.outline (constructor s) = [.member "constructor"] := by
  have hself := Spelled.inline (g := grammar) (inline_selfType hs)
  unfold constructor selfType
  cases s.base?.isSome
  all_goals
    simp only [Bool.false_eq_true, ↓reduceIte]
    exact Spelled.outline_eq (by simp)

private theorem silent_encodedField (hf : f ∈ s.fields) : grammar.Silent (encodedField f) := by
  have hplace : Over isInline ("this." ++ f.ident) := .append (.ofList rfl) (hs.idents f hf).inline
  have htext := Spelled.inline (g := grammar) (inline_encodeText (hs.types _ (Shape.type_mem_types hf)) hplace)
  unfold encodedField
  exact Spelled.read (by simp)

private theorem outline_toJson : grammar.outline (toJson s) = [.member "toJson"] := by
  have hfields := grammar.silent_join fun f (hf : f ∈ s.ownFields) =>
    silent_encodedField hs (Shape.mem_fields_of_own hf)
  unfold toJson
  cases s.base?.isSome
  all_goals
    simp only [Bool.false_eq_true, ↓reduceIte]
    exact Spelled.outline_eq (by simp)

private theorem outline_getFullName : grammar.outline (getFullName s) = [.member "getFullName"] := by
  have hname := hs.name
  unfold getFullName
  exact Spelled.outline_eq (by simp)

def memberNames (remote : Bool) : List String := ["constructor", "toJson"] ++ (if remote then ["getFullName"] else [])

private theorem outline_classMembers :
    (classMembers s).flatMap grammar.outline = (memberNames s.isRemote).map .member := by
  have hconstants : grammar.outline (constantsText s.constants) = [] :=
    Spelled.outline_eq (h := silent_constantsText hs.constants) (by simp)
  have hstatic : grammar.outline ((if s.isRemote then
      "    static readonly fullName: string = " ++ quote s.entry.qualified ++ ";\n" else "") ++
      constantsText s.constants) = [] := by
    split
    · rw [Grammar.outline_append (silent_fullName _), hconstants]
      rfl
    · rw [String.empty_append, hconstants]
  have hfields : grammar.outline (String.join (s.ownFields.map fieldText)) = [] :=
    Spelled.outline_eq (h := grammar.silent_join fun f (hf : f ∈ s.ownFields) =>
      silent_fieldText hs (Shape.mem_fields_of_own hf)) (by simp)
  have hremote : [getFullName s].flatMap grammar.outline = ["getFullName"].map .member := by
    simp [outline_getFullName hs]
  simp only [classMembers, memberNames, flatMap_append, flatMap_cons, flatMap_nil, map_append,
    map_cons, map_nil, append_nil, Grammar.outline_ite hremote, outline_constructor hs, outline_toJson hs,
    hstatic, hfields]
  rfl

private theorem tail_typeParams : Spelled grammar (typeParams s.params) [.tail (typeParams s.params)] := by
  refine tail_angled grammar fun part hpart => ?_
  obtain ⟨p, hp, rfl⟩ := mem_map.1 hpart
  have hname := (hs.params p hp).inline
  split
  · exact hname
  · refine .append (.append hname (.ofList rfl)) (.separated (.ofList rfl) fun text htext => ?_)
    obtain ⟨bound, hbound, rfl⟩ := mem_map.1 htext
    exact inline_baseType (hs.types bound (Shape.constraint_mem_types hp hbound))

theorem outline_classText :
    grammar.outline (classText s) = .type s.entry.name :: (memberNames s.isRemote).map .member := by
  have hname := hs.name
  have hparams := tail_typeParams hs
  refine (types.outline_classText hs inline_baseType ?_).trans (by rw [outline_classMembers hs])
  intro base base' markers markers' hbase hmarkers
  exact Spelled.read (by simp)

private theorem silent_decodedField (hf : f ∈ s.fields) : grammar.Silent (decodedField f) := by
  have hident := hs.idents f hf
  have htext := Spelled.inline (g := grammar)
    (inline_decodeText (hs.types _ (Shape.type_mem_types hf)) (inline_jsonField (inline_quote f.wire)))
  unfold decodedField
  exact Spelled.read (by simp)

private theorem inline_paramDecoders :
    Over isInline
      (String.join (s.params.map fun p => ", " ++ paramDecoder p.name ++ ": (json: unknown) => " ++ p.name)) := by
  refine .join fun text htext => ?_
  obtain ⟨p, hp, rfl⟩ := mem_map.1 htext
  have hname := (hs.params p hp).inline
  exact .append (.append (.append (.ofList rfl) (.append (.ofList rfl) hname)) (.ofList rfl)) hname

theorem outline_fromJson : grammar.outline (fromJson s) = [.value (decoderName s.entry.name)] := by
  have hfields := grammar.silent_join fun f hf => silent_decodedField hs hf
  have hparams := tail_typeParams hs
  have hdecoders := Spelled.inline (g := grammar) (inline_paramDecoders hs)
  have hself := Spelled.inline (g := grammar) (inline_selfType hs)
  have hname := isWord_decoderName hs.name
  unfold fromJson selfType
  split
  all_goals exact Spelled.outline_eq (by simp)

theorem outline_resultFactory {result : Bound} (hresult : result.Worded) :
    grammar.outline (resultFactory s result) = [.value (resultFactoryName s.entry.name)] := by
  have htype := Spelled.inline (g := grammar) (inline_typeExpr hresult)
  have hplace : Over isInline "decodedJson" := .ofList rfl
  have htext := Spelled.inline (g := grammar) (inline_decodeText hresult hplace)
  have hname := isWord_resultFactoryName hs.name
  unfold resultFactory
  exact Spelled.outline_eq (by simp)

end

theorem outline_header (g : Grammar) {program : Program} (h : IsWord program.name) :
    g.outline (header program) = [] := by
  unfold header
  exact Spelled.outline_eq (by simp)

def helperNames (body : String) : List String :=
  (if Text.contains "_double(" body then ["_double"] else []) ++
    (if Text.contains "_encode(" body || Text.contains "_encodeKey(" body then ["_encodeKey"] else []) ++
    (if Text.contains "_encode(" body then ["_encode"] else [])

theorem outline_helpers (body : String) : grammar.outline (helpers body) = (helperNames body).map .value := by
  have hdouble : grammar.outline doubleHelper = [.value "_double"] := by
    unfold doubleHelper
    exact Spelled.outline_eq (by simp)
  have hkey : grammar.outline encodeKeyHelper = [.value "_encodeKey"] := by
    unfold encodeKeyHelper
    exact Spelled.outline_eq (by simp)
  have hencode : grammar.outline encodeHelper = [.value "_encode"] := by
    unfold encodeHelper
    exact Spelled.outline_eq (by simp)
  rw [helpers, Grammar.outline_joinBlocks, helperNames]
  split <;> split <;> split <;> simp [hdouble, hkey, hencode]

end TypeScript

end Covenant.Emit
