import Covenant.Proofs.Binding.Words
import Covenant.Proofs.Emit.CodecParts
import Covenant.Proofs.Emit.Pieces

/-!
# Types and expressions stay on one line

A type whose names are words is written without a line break, and so is every expression that reads or writes a value
of it.  A Dart type moreover starts with a name and has no punctuation that would end the search for one.
-/

namespace Covenant.Emit

open Binding (Bound Shape)
open Text (IsWord Over isIdentifierChar isInline)
open List

namespace Expr

/-- The names that stand in an expression itself; its parts do not matter. -/
def names : Expr → List String
  | place name | var name => [name]
  | convert c _ =>
    match c with
    | .member name | .keyMember name | .parameter name => [name]
    | _ => []
  | construct cls _ x _ => [cls, x]
  | readList _ _ x _ | writeList _ x _ => [x]
  | readMap _ _ _ k v _ _ | writeMap _ k v _ _ => [k, v]
  | nonNull _ | unlessNull .. => []

def types : Expr → List Bound
  | readList element .. => [element]
  | readMap key value .. => [key, value]
  | _ => []

/-- Nothing in the expression contains a line break. -/
structure OneLine (e : Expr) : Prop where
  names : ∀ u : Expr, u.Within e → ∀ name ∈ u.names, Over isInline name
  types : ∀ u : Expr, u.Within e → ∀ t ∈ u.types, t.Worded

private theorem OneLine.child {e c : Expr} (h : e.OneLine) (hc : c ∈ e.children) : c.OneLine :=
  ⟨fun u hu => h.names u (.child hc hu), fun u hu => h.types u (.child hc hu)⟩

private theorem oneLine_place {text : String} (h : Over isInline text) : (place text).OneLine := by
  have hself : ∀ u : Expr, u.Within (place text) → u = place text := fun u hu =>
    (within_iff.1 hu).elim id fun ⟨_, hc, _⟩ => nomatch hc
  refine ⟨fun u hu name hname => ?_, fun u hu t ht => ?_⟩
  · rw [hself u hu] at hname
    exact mem_singleton.1 hname ▸ h
  · rw [hself u hu] at ht
    cases ht

private theorem inline_of_isVariable {x : String} (h : IsVariable x) : Over isInline x := by
  obtain ⟨depth, rfl | rfl | rfl⟩ := h <;> exact .append (.ofList rfl) (Text.over_repr depth)

private theorem oneLine_of_from {t : Bound} (ht : t.Worded) {u : Expr} (hu : u.From t) :
    (∀ name ∈ u.names, Over isInline name) ∧ ∀ s ∈ u.types, s.Worded := by
  have hname : ∀ {s : Bound} {name : String}, s.Within t → s.label? = some name → Over isInline name :=
    fun hs hlabel => (ht _ hs _ hlabel).inline
  cases u with
  | place => cases hu
  | var x => exact ⟨by simpa [names] using inline_of_isVariable hu, by simp [types]⟩
  | nonNull | unlessNull => simp [names, types]
  | convert c value =>
    refine ⟨?_, by simp [types]⟩
    cases c with
    | member name | keyMember name =>
      obtain ⟨occ, e, hs, rfl⟩ := hu
      simpa [names] using hname hs rfl
    | parameter name =>
      obtain ⟨occ, hs⟩ := hu
      simpa [names] using hname hs rfl
    | _ => simp [names]
  | construct cls value x as =>
    obtain ⟨⟨occ, e, as, hs, rfl⟩, hx⟩ := hu
    exact ⟨by simpa [names] using ⟨hname hs rfl, inline_of_isVariable hx⟩, by simp [types]⟩
  | readList element value x body =>
    exact ⟨by simpa [names] using inline_of_isVariable hu.2, by simpa [types] using Bound.Worded.within ht hu.1⟩
  | readMap key value source k v keyBody valueBody =>
    obtain ⟨hkey, hvalue, hk, hv⟩ := hu
    exact ⟨by simpa [names] using ⟨inline_of_isVariable hk, inline_of_isVariable hv⟩,
      by simpa [types] using ⟨Bound.Worded.within ht hkey, Bound.Worded.within ht hvalue⟩⟩
  | writeList value x body => exact ⟨by simpa [names] using inline_of_isVariable hu, by simp [types]⟩
  | writeMap source k v keyBody valueBody =>
    exact ⟨by simpa [names] using ⟨inline_of_isVariable hu.1, inline_of_isVariable hu.2⟩, by simp [types]⟩

private theorem OneLine.of_parts {t : Bound} (ht : t.Worded) {src x : Expr} (hsrc : src.OneLine)
    (h : ∀ {u : Expr}, u.Within x → u.Within src ∨ u.From t) : x.OneLine :=
  ⟨fun u hu => (h hu).elim (hsrc.names u) fun hu => (oneLine_of_from ht hu).1,
    fun u hu => (h hu).elim (hsrc.types u) fun hu => (oneLine_of_from ht hu).2⟩

end Expr

private theorem over_angled {P : Char → Bool} {parts : List String} (hP : P '<' && P '>' && P ',' && P ' ')
    (h : ∀ part ∈ parts, Over P part) : Over P (angled parts) := by
  simp only [Bool.and_eq_true] at hP
  obtain ⟨⟨⟨hopen, hclose⟩, hcomma⟩, hblank⟩ := hP
  unfold angled
  split
  · exact .ofList rfl
  · refine .append (.append (.ofList (by simp [hopen])) (.separated (.ofList ?_) h)) (.ofList (by simp [hclose]))
    simp [hcomma, hblank]

private theorem tail_of_literal {g : Grammar} {c : Char} {cs : List Char} {t : String}
    (hc : isIdentifierChar c = false) (hcs : (c :: cs).all isInline = true) (ht : Over isInline t) :
    Spelled g (String.ofList (c :: cs) ++ t) [.tail (String.ofList (c :: cs) ++ t)] := by
  refine .tail ⟨fun d ds hd => ?_, .append (.ofList hcs) ht⟩
  rw [String.toList_append, String.toList_ofList, cons_append] at hd
  obtain rfl := (cons.inj hd).1
  exact hc

private theorem tail_empty (g : Grammar) : Spelled g "" [.tail ""] := .tail ⟨by simp, .ofList rfl⟩

theorem tail_angled (g : Grammar) {parts : List String} (h : ∀ part ∈ parts, Over isInline part) :
    Spelled g (angled parts) [.tail (angled parts)] := by
  unfold angled
  split
  · exact tail_empty g
  · rw [String.append_assoc]
    exact tail_of_literal rfl rfl (.append (.separated (.ofList rfl) h) (.ofList rfl))

theorem inline_selfType {s : Shape} (hs : s.Worded) : Over isInline (s.entry.name ++ paramNames s.params) :=
  hs.name.inline.append (over_angled rfl (by simpa using fun p hp => (hs.params p hp).inline))

private theorem isPlain_of_isIdentifierChar {c : Char} (h : isIdentifierChar c = true) : isPlain c = true := by
  simp only [isPlain, Bool.and_eq_true, bne_iff_ne]
  refine ⟨⟨⟨?_, ?_⟩, ?_⟩, ?_⟩
  all_goals
    rintro rfl
    cases h

private theorem isInline_of_isPlain {c : Char} (h : isPlain c = true) : isInline c = true := by
  simp_all [isPlain, isInline]

private theorem angled_singleton (part : String) : angled [part] = "<" ++ part ++ ">" := by
  simp [angled, Text.join]

private theorem angled_pair (part part' : String) : angled [part, part'] = "<" ++ part ++ ", " ++ part' ++ ">" := by
  simp [angled, Text.join, String.append_assoc]

namespace TypeStyle

variable {s : TypeStyle}

theorem typeExprs_eq (ts : List Bound) : s.typeExprs ts = ts.map s.typeExpr := by
  induction ts with
  | nil => rfl
  | cons t ts ih => rw [typeExprs, ih, map_cons, typeExpr]

theorem baseType_map (occ : Binding.Occurrence) (key value : Bound) :
    s.baseType (.map occ key value) = "Map" ++ angled [s.typeExpr key, s.typeExpr value] := by
  rw [angled_pair]
  simp only [← String.append_assoc]
  rfl

/-- Types are written with characters of a class if their names are. -/
structure Keeps (s : TypeStyle) (P : Char → Bool) : Prop where
  word : ∀ {c : Char}, isIdentifierChar c = true → P c = true
  angles : P '<' && P '>' && P ',' && P ' '
  null : Over P s.nullMark
  list : ∀ {element : String}, Over P element → Over P (s.listOf element)

variable {P : Char → Bool} (hs : s.Keeps P)
include hs

private theorem over_markNullable (t : Bound) {base : String} (h : Over P base) : Over P (s.markNullable t base) := by
  unfold markNullable
  split
  · exact h.append hs.null
  · exact h

private theorem over_baseType (t : Bound) (ht : t.Worded) : Over P (s.baseType t) := by
  induction t using Bound.inductChildren with
  | step t ih =>
    have hlabel : ∀ name, t.label? = some name → Over P name := fun name hname =>
      (ht t (.self t) name hname).chars.mono fun _ => hs.word
    have hchild : ∀ c ∈ t.children, Over P (s.typeExpr c) := fun c hc =>
      over_markNullable hs c (ih c hc (Bound.Worded.within ht (.child hc (.self c))))
    have hangled : ∀ cs ⊆ t.children, Over P (angled (cs.map s.typeExpr)) := fun cs hcs =>
      over_angled hs.angles fun part hpart => by
        obtain ⟨c, hc, rfl⟩ := mem_map.1 hpart
        exact hchild c (hcs hc)
    cases t with
    | primitive | enum | param => exact hlabel _ rfl
    | named | marker =>
      rw [baseType, typeExprs_eq]
      exact .append (hlabel _ rfl) (hangled _ (Subset.refl _))
    | list occ element => exact hs.list (hchild _ (.head _))
    | map occ key value =>
      rw [baseType_map]
      have hmap : IsWord "Map" := Text.isWord_of_isIdentifier (by decide)
      exact .append (hmap.chars.mono fun _ => hs.word) (hangled [key, value] (Subset.refl _))

private theorem over_typeExpr {t : Bound} (ht : t.Worded) : Over P (s.typeExpr t) :=
  over_markNullable hs t (over_baseType hs t ht)

omit hs in
/-- A class introduces its name and what its members do, if a grammar reads the line that it begins with. -/
theorem outline_classText (t : TypeStyle) {g : Grammar} {s : Shape} (hs : s.Worded)
    (hinline : ∀ {b : Bound}, b.Worded → Over isInline (t.baseType b)) {start params : String} {members : List String}
    (hread : ∀ base base' markers markers', Spelled g base [.tail base'] → Spelled g markers [.tail markers'] →
      g.read .start (start ++ s.entry.name ++ params ++ base ++ markers ++ " \x7b\n").toList =
        (.start, [.type s.entry.name])) :
    g.outline (t.classText start params s members) = .type s.entry.name :: members.flatMap g.outline := by
  have hmarkers : ∃ markers, Spelled g
      (if s.markers.isEmpty then "" else " implements " ++ Text.join ", " (s.markers.map t.baseType))
        [.tail markers] := by
    split
    · exact ⟨_, tail_empty g⟩
    · refine ⟨_, tail_of_literal rfl rfl (.separated (.ofList rfl) fun text htext => ?_)⟩
      obtain ⟨marker, hmarker, rfl⟩ := mem_map.1 htext
      exact hinline (hs.types _ (Shape.marker_mem_types hmarker))
  obtain ⟨markers, hmarkers⟩ := hmarkers
  have hmembers : [.type s.entry.name] ++ g.outline (Text.joinBlocks members) =
      .type s.entry.name :: members.flatMap g.outline := by
    rw [Grammar.outline_joinBlocks]
    rfl
  unfold classText
  cases hbase : s.base? with
  | none => exact (Grammar.outline_braces (hread _ _ _ _ (tail_empty g) hmarkers)).trans hmembers
  | some base =>
    have hinherits := hinline (hs.types _ (Shape.base_mem_types hbase))
    exact (Grammar.outline_braces (hread _ _ _ _ (tail_of_literal rfl rfl hinherits) hmarkers)).trans hmembers

end TypeStyle

namespace Dart

theorem baseType_list (occ : Binding.Occurrence) (element : Bound) :
    baseType (.list occ element) = "List" ++ angled [typeExpr element] := by
  rw [angled_singleton, ← String.append_assoc, ← String.append_assoc]
  rfl

private theorem keeps_plain : types.Keeps isPlain :=
  ⟨isPlain_of_isIdentifierChar, rfl, .ofList rfl, fun h => .append (.append (.ofList rfl) h) (.ofList rfl)⟩

theorem inline_baseType {t : Bound} (ht : t.Worded) : Over isInline (baseType t) :=
  (TypeStyle.over_baseType keeps_plain t ht).mono fun _ => isInline_of_isPlain

private theorem inline_typeExpr {t : Bound} (ht : t.Worded) : Over isInline (typeExpr t) :=
  (TypeStyle.over_typeExpr keeps_plain ht).mono fun _ => isInline_of_isPlain

private theorem baseType_start (t : Bound) (ht : t.Worded) :
    ∃ word rest, IsWord word ∧ baseType t = word ++ rest := by
  cases t with
  | primitive occ category name => exact ⟨name, "", ht _ (.self _) _ rfl, String.append_empty.symm⟩
  | enum occ e => exact ⟨e.name, "", ht _ (.self _) _ rfl, String.append_empty.symm⟩
  | param occ name => exact ⟨name, "", ht _ (.self _) _ rfl, String.append_empty.symm⟩
  | named occ e as => exact ⟨e.name, _, ht _ (.self _) _ rfl, rfl⟩
  | marker occ name as => exact ⟨name, _, ht _ (.self _) _ rfl, rfl⟩
  | list => exact ⟨"List", _, Text.isWord_of_isIdentifier (by decide), baseType_list _ _⟩
  | map => exact ⟨"Map", _, Text.isWord_of_isIdentifier (by decide), TypeStyle.baseType_map _ _ _⟩

theorem phrase_typeExpr (g : Grammar) {t : Bound} (ht : t.Worded) : (Piece.phrase (typeExpr t)).Valid g := by
  refine ⟨?_, TypeStyle.over_typeExpr keeps_plain ht⟩
  obtain ⟨word, rest, hword, heq⟩ := baseType_start t ht
  obtain ⟨c, cs, hcs⟩ := exists_cons_of_ne_nil hword.ne_nil
  have hc : isIdentifierChar c = true := hword.chars c (hcs ▸ mem_cons_self)
  unfold typeExpr TypeStyle.typeExpr TypeStyle.markNullable
  rw [← baseType, heq]
  split <;> exact ⟨c, _, by simp [hcs]; rfl, hc⟩

end Dart

namespace TypeScript

private theorem over_listType {element : String} (h : Over isInline element) : Over isInline (listType element) := by
  unfold listType
  split
  · exact .append (.append (.append (.ofList rfl) h) (.ofList rfl)) (.ofList rfl)
  · exact h.append (.ofList rfl)

private theorem keeps_inline : types.Keeps isInline :=
  ⟨fun hc => isInline_of_isPlain (isPlain_of_isIdentifierChar hc), rfl, .ofList rfl, over_listType⟩

theorem inline_baseType {t : Bound} (ht : t.Worded) : Over isInline (baseType t) :=
  TypeStyle.over_baseType keeps_inline t ht

theorem inline_typeExpr {t : Bound} (ht : t.Worded) : Over isInline (typeExpr t) :=
  TypeStyle.over_typeExpr keeps_inline ht

end TypeScript

namespace Language

private theorem inline_conversionText {c : Conversion} {value : Expr} (hc : (Expr.convert c value).OneLine)
    {text : String} (htext : Over isInline text) :
    Over isInline (Dart.conversionText c text) ∧ Over isInline (TypeScript.conversionText c text) := by
  have hnames := hc.names _ (.self _)
  cases c
  case' member | keyMember => have hname := hnames _ (.head _)
  case' parameter name =>
    have hdecoder : Over isInline (paramDecoder name) := .append (.ofList rfl) (hnames _ (.head _))
  all_goals
    unfold Dart.conversionText TypeScript.conversionText
    constructor
  all_goals repeat' first
    | with_reducible (first | apply Over.append | assumption)
    | exact .ofList rfl

private theorem inline_argumentTexts (l : Language) {x : String} (hx : Over isInline x) {as : List Expr}
    (has : ∀ a ∈ as, Over isInline (l.exprText a)) : Over isInline (l.argumentTexts x as) := by
  induction as with
  | nil => cases l <;> exact .ofList rfl
  | cons a as ih =>
    have htail := ih fun a' ha' => has a' (.tail a ha')
    have hhead := has a (.head _)
    cases l <;> exact .append (.append (.append (.append (.ofList rfl) hx) (.ofList rfl)) hhead) htail

private theorem inline_exprText (l : Language) (e : Expr) (he : e.OneLine) : Over isInline (l.exprText e) := by
  induction e using Expr.inductChildren with
  | step e ih =>
    have hchild : ∀ c ∈ e.children, Over isInline (l.exprText c) := fun c hc => ih c hc (he.child hc)
    have hnames := he.names e (.self e)
    have htypes : ∀ t ∈ e.types, Over isInline (Dart.typeExpr t) ∧ Over isInline (TypeScript.typeExpr t) :=
      fun t ht =>
      ⟨Dart.inline_typeExpr (he.types e (.self e) t ht), TypeScript.inline_typeExpr (he.types e (.self e) t ht)⟩
    cases e
    all_goals simp only [Expr.children, Expr.names, Expr.types, mem_cons, not_mem_nil, or_false,
      forall_eq_or_imp, forall_eq] at hchild hnames htypes
    case convert =>
      cases l with
      | dart => exact (inline_conversionText he hchild).1
      | typescript => exact (inline_conversionText he hchild).2
    case' construct cls value x as =>
      have harguments := inline_argumentTexts l hnames.2 hchild.2
      have hdecoder : Over isInline (TypeScript.decoderName cls) := hnames.1.append (.ofList rfl)
      obtain ⟨hcls, _⟩ := hnames
      obtain ⟨hvalue, _⟩ := hchild
    case' unlessNull | writeList => obtain ⟨hvalue, hbody⟩ := hchild
    case' readList =>
      obtain ⟨hvalue, hbody⟩ := hchild
      obtain ⟨hdart, htypescript⟩ := htypes
    case' writeMap | readMap =>
      obtain ⟨hsource, hkeyBody, hvalueBody⟩ := hchild
      obtain ⟨hk, hv⟩ := hnames
    case' readMap => obtain ⟨⟨hkey, hkey'⟩, hvalue, hvalue'⟩ := htypes
    all_goals
      cases l
      all_goals
        dsimp only [exprText, argumentTexts] at *
        first
          | unfold Dart.exprText
          | unfold TypeScript.exprText
        repeat' first
          | with_reducible (first | apply Over.append | assumption)
          | exact .ofList rfl

end Language

section

variable {t : Bound} (ht : t.Worded) {place : String} (hplace : Over isInline place)

include ht hplace

/-- Reading expressions stay on one line. -/
theorem Dart.inline_decodeText : Over isInline (decodeText t place) :=
  Language.dart.inline_exprText _ (.of_parts ht (Expr.oneLine_place hplace) Expr.within_decode)

theorem Dart.inline_encodeText : Over isInline (encodeText t place) :=
  Language.dart.inline_exprText _ (.of_parts ht (Expr.oneLine_place hplace) Expr.within_encode)

theorem TypeScript.inline_decodeText : Over isInline (decodeText t place) :=
  Language.typescript.inline_exprText _ (.of_parts ht (Expr.oneLine_place hplace) Expr.within_decode)

theorem TypeScript.inline_encodeText : Over isInline (encodeText t place) :=
  Language.typescript.inline_exprText _ (.of_parts ht (Expr.oneLine_place hplace) Expr.within_encode)

end

end Covenant.Emit
