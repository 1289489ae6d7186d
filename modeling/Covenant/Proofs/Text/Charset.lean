import Mathlib.Data.List.Basic
import Mathlib.Data.List.Infix
import Mathlib.Data.List.TakeWhile
import Covenant.Text.Quoted

/-!
# Characters and parts of texts

Emitted texts are put together from literals and names.  What matters about a name is which characters it has
(`Over`).  Texts are cut at separators, and what occurs in a part of a text occurs in the text.
-/

namespace Covenant.Text

open List

def Over (P : Char → Bool) (s : String) : Prop := ∀ c ∈ s.toList, P c = true

def isInline (c : Char) : Bool := c != '\n'

namespace Over

variable {P Q : Char → Bool} {s t : String}

theorem mono (h : Over P s) (hPQ : ∀ c, P c = true → Q c = true) : Over Q s := fun c hc => hPQ c (h c hc)

theorem ofList {cs : List Char} (h : cs.all P = true) : Over P (String.ofList cs) := by
  intro c hc
  rw [String.toList_ofList] at hc
  exact all_eq_true.1 h c hc

theorem append (hs : Over P s) (ht : Over P t) : Over P (s ++ t) := by
  intro c hc
  rw [String.toList_append, mem_append] at hc
  exact hc.elim (hs c) (ht c)

theorem join {ss : List String} (h : ∀ s ∈ ss, Over P s) : Over P (String.join ss) := by
  intro c hc
  rw [String.toList_join, mem_flatMap] at hc
  obtain ⟨s, hs, hc⟩ := hc
  exact h s hs c hc

theorem separated {sep : String} {ss : List String} (hsep : Over P sep) (h : ∀ s ∈ ss, Over P s) :
    Over P (Text.join sep ss) := by
  intro c hc
  rw [Text.join, String.toList_intercalate] at hc
  induction ss with
  | nil => simp at hc
  | cons s ss ih =>
    cases ss with
    | nil => exact h s (.head _) c (by simpa using hc)
    | cons t ts =>
      rw [map_cons, map_cons, intercalate_cons_cons, mem_append, mem_append] at hc
      rcases hc with (hc | hc) | hc
      · exact h s (.head _) c hc
      · exact hsep c hc
      · exact ih (fun s hs => h s (.tail _ hs)) hc

end Over

variable {cs : List Char} {escapes : List Char} {c : Char} {s : String}

private theorem inline_of_mem_literalChar {c d : Char} (h : c ∈ literalChar escapes d) : isInline c = true := by
  rw [isInline, bne_iff_ne]
  rintro rfl
  unfold literalChar at h
  split at h
  case h_6 hbreak _ _ =>
    have hd : '\n' ≠ d := fun heq => hbreak heq.symm
    split at h
    · simp [hd] at h
    · exact hd (mem_singleton.1 h)
  all_goals simp at h

theorem over_literal (escapes : List Char) (s : String) : Over isInline (literal escapes s) := by
  refine .ofList (all_eq_true.2 fun c hc => ?_)
  simp only [cons_append, mem_cons, mem_append, mem_flatMap, not_mem_nil, or_false] at hc
  rcases hc with rfl | ⟨d, _, hc⟩ | rfl
  · rfl
  · exact inline_of_mem_literalChar hc
  · rfl

theorem over_repr (n : Nat) : Over isInline (toString n) := by
  refine .ofList (all_eq_true.2 fun c hc => ?_)
  have hdigit := Nat.isDigit_of_mem_toDigits (by decide) (by decide) hc
  unfold isInline
  rw [bne_iff_ne]
  rintro rfl
  cases hdigit

theorem over_toString_int (n : Int) : Over isInline (toString n) := by
  cases n with
  | ofNat n => exact over_repr n
  | negSucc n => exact .append (.ofList rfl) (over_repr (n + 1))

theorem isIdentifierChar_of_start (h : isIdentifierStart c = true) : isIdentifierChar c = true := by
  simp only [isIdentifierStart, isIdentifierChar, Char.isAlphanum, Bool.or_eq_true] at h ⊢
  exact h.imp id Or.inl

theorem isIdentifierStart_of_not_digit (h : isIdentifierChar c = true) (hdigit : ¬c.isDigit = true) :
    isIdentifierStart c = true := by
  simpa [isIdentifierChar, Char.isAlphanum, hdigit, isIdentifierStart] using h

private theorem isInline_of_isIdentifierChar (h : isIdentifierChar c = true) : isInline c = true := by
  rw [isInline, bne_iff_ne]
  rintro rfl
  cases h

theorem isIdentifier_iff :
    isIdentifier s = true ↔
      ∃ c cs, s.toList = c :: cs ∧ isIdentifierStart c = true ∧ cs.all isIdentifierChar = true := by
  unfold isIdentifier
  cases s.toList with
  | nil => simp [isIdentifierChars]
  | cons c cs => simp [isIdentifierChars]

theorem isIdentifier_of_start (h : s.toList = c :: cs) (hc : isIdentifierStart c = true)
    (hs : Over isIdentifierChar s) : isIdentifier s = true :=
  isIdentifier_iff.2 ⟨c, cs, h, hc, all_eq_true.2 fun d hd => hs d (h ▸ .tail c hd)⟩

theorem over_of_isIdentifier (h : isIdentifier s = true) : Over isIdentifierChar s := by
  obtain ⟨c, cs, hs, hc, hcs⟩ := isIdentifier_iff.1 h
  intro d hd
  rw [hs] at hd
  rcases mem_cons.1 hd with rfl | hd
  · exact isIdentifierChar_of_start hc
  · exact all_eq_true.1 hcs d hd

theorem isIdentifier_append {s t : String} (hs : isIdentifier s = true) (ht : Over isIdentifierChar t) :
    isIdentifier (s ++ t) = true := by
  obtain ⟨c, cs, hlist, hc, _⟩ := isIdentifier_iff.1 hs
  exact isIdentifier_of_start (by rw [String.toList_append, hlist, cons_append]) hc
    ((over_of_isIdentifier hs).append ht)

theorem isIdentifier_join_append {ss : List String} (hss : ∀ s ∈ ss, isIdentifier s = true) {t : String}
    (ht : isIdentifier t = true) : isIdentifier (String.join ss ++ t) = true := by
  cases ss with
  | nil => simpa using ht
  | cons s ss =>
    rw [String.join_cons, String.append_assoc]
    refine isIdentifier_append (hss s (.head _)) (.append (.join fun s' hs' => ?_) (over_of_isIdentifier ht))
    exact over_of_isIdentifier (hss s' (.tail _ hs'))

/-- A text that can stand for a name: identifier characters, and at least one. -/
class IsWord (s : String) : Prop where
  ne_nil : s.toList ≠ []
  chars : Over isIdentifierChar s

theorem IsWord.inline (h : IsWord s) : Over isInline s :=
  h.chars.mono fun _ => isInline_of_isIdentifierChar

theorem IsWord.append {s t : String} (hs : IsWord s) (ht : Over isIdentifierChar t) : IsWord (s ++ t) :=
  ⟨by simp [hs.ne_nil], hs.chars.append ht⟩

theorem isWord_of_isIdentifier (h : isIdentifier s = true) : IsWord s := by
  obtain ⟨c, cs, hs, _, _⟩ := isIdentifier_iff.1 h
  exact ⟨by simp [hs], over_of_isIdentifier h⟩

theorem toNat_lt_of_isIdentifierChar (h : isIdentifierChar c = true) : c.toNat < 128 := by
  have h : (c == '_' || (decide (c.val ≥ 'A'.val ∧ c.val ≤ 'Z'.val) || (c.val ≥ 'a'.val && c.val ≤ 'z'.val) ||
      (c.val ≥ '0'.val && c.val ≤ '9'.val))) = true := h
  simp only [Bool.or_eq_true, beq_iff_eq, Bool.and_eq_true, decide_eq_true_eq, ge_iff_le,
    UInt32.le_iff_toNat_le] at h
  rcases h with rfl | h
  · decide
  · have hval : c.toNat = c.val.toNat := rfl
    have hbounds : 'Z'.val.toNat = 90 ∧ 'z'.val.toNat = 122 ∧ '9'.val.toNat = 57 := ⟨rfl, rfl, rfl⟩
    omega

theorem isBlank_eq_true (h : isBlank c = true) : isIdentifierChar c = false ∧ c ≠ '(' ∧ c ≠ '=' ∧ c ≠ ':' := by
  have hall : ∀ n < 128, isBlank (Char.ofNat n) = true →
      isIdentifierChar (Char.ofNat n) = false ∧ Char.ofNat n ≠ '(' ∧ Char.ofNat n ≠ '=' ∧ Char.ofNat n ≠ ':' := by
    decide
  by_cases hc : c.toNat < 128
  · have hplain := hall c.toNat hc
    rw [Char.ofNat_toNat] at hplain
    exact hplain h
  · refine ⟨?_, ?_, ?_, ?_⟩
    · by_contra hident
      exact hc (toNat_lt_of_isIdentifierChar (by simpa using hident))
    all_goals
      rintro rfl
      exact hc (by decide)

theorem IsWord.exists_getLast? (h : IsWord s) : ∃ c, s.toList.getLast? = some c ∧ isBlank c = false := by
  refine ⟨_, getLast?_eq_some_getLast h.ne_nil, ?_⟩
  rw [Bool.eq_false_iff]
  intro hblank
  have hchar := h.chars _ (getLast_mem h.ne_nil)
  rw [(isBlank_eq_true hblank).1] at hchar
  cases hchar

theorem isBlank_of_trim (h : (trim s).isEmpty = true) : ∀ c ∈ s.toList, isBlank c = true := by
  have htrim : trimChars isBlank s.toList = [] := by simpa [trim] using h
  rw [trimChars, trimRightChars, reverse_eq_nil_iff, dropWhile_eq_nil_iff] at htrim
  intro c hc
  rw [← takeWhile_append_dropWhile (p := isBlank) (l := s.toList), mem_append] at hc
  exact hc.elim mem_takeWhile_imp fun hc => htrim c (mem_reverse.2 hc)

private theorem splitChars_eq_splitOn (sep : Char) (cs : List Char) : splitChars sep cs = cs.splitOn sep := by
  induction cs with
  | nil => rfl
  | cons c cs ih =>
    rw [splitChars, ih, splitOn_cons_eq_if_modifyHead]
    by_cases hc : c = sep
    · simp [hc]
    · obtain ⟨piece, pieces, hsplit⟩ := exists_cons_of_ne_nil (splitOn_ne_nil sep cs)
      simp [hc, hsplit]

private theorem flatten_splitChars (sep : Char) (cs : List Char) :
    (splitChars sep cs).flatten = cs.filter (· ≠ sep) := by
  induction cs with
  | nil => rfl
  | cons c cs ih =>
    rw [splitChars]
    by_cases hc : c = sep
    · simp [hc, ih]
    · rw [if_neg hc, filter_cons_of_pos (by simpa using hc), ← ih]
      split <;> simp_all

theorem mem_of_mem_splitChars {sep c : Char} {cs piece : List Char} (h : piece ∈ splitChars sep cs) (hc : c ∈ piece) :
    c ∈ cs ∧ c ≠ sep := by
  have hmem : c ∈ (splitChars sep cs).flatten := mem_flatten.2 ⟨piece, h, hc⟩
  rw [flatten_splitChars, mem_filter] at hmem
  simpa using hmem

theorem mem_of_mem_split {sep c : Char} {s piece : String} (h : piece ∈ split sep s) (hc : c ∈ piece.toList) :
    c ∈ s.toList ∧ c ≠ sep := by
  obtain ⟨cs, hcs, rfl⟩ := mem_map.1 h
  rw [String.toList_ofList] at hc
  exact mem_of_mem_splitChars hcs hc

theorem split_append {sep : Char} (s t : String) :
    split sep (s ++ String.singleton sep ++ t) = split sep s ++ split sep t := by
  simp [split, splitChars_eq_splitOn, splitOn_append_cons_self]

theorem split_of_not_mem {sep : Char} {s : String} (h : sep ∉ s.toList) : split sep s = [s] := by
  rw [split, splitChars_eq_splitOn, splitOn_eq_singleton h]
  simp

theorem join_split (sep : Char) (s : String) : join (String.singleton sep) (split sep s) = s := by
  apply String.toList_inj.1
  rw [join, String.toList_intercalate, split, map_map, splitChars_eq_splitOn]
  have hid : String.toList ∘ String.ofList = id := funext fun cs => String.toList_ofList
  rw [hid, map_id, String.toList_singleton]
  exact intercalate_splitOn sep

theorem split_join {sep : Char} {ss : List String} (hne : ss ≠ []) (h : ∀ s ∈ ss, sep ∉ s.toList) :
    split sep (join (String.singleton sep) ss) = ss := by
  rw [split, join, String.toList_intercalate, String.toList_singleton, splitChars_eq_splitOn,
    splitOn_intercalate sep (by simpa using h) (by simpa using hne), map_map]
  simp

theorem join_cons {sep : String} (s : String) {ss : List String} (h : ss ≠ []) :
    join sep (s :: ss) = s ++ sep ++ join sep ss :=
  String.intercalate_cons_of_ne_nil h

theorem byteLength_append (s t : String) : byteLength (s ++ t) = byteLength s + byteLength t :=
  String.utf8ByteSize_append

theorem byteLength_join_le {sep : String} {ss ts : List String} (h : ss.Sublist ts) :
    byteLength (join sep ss) ≤ byteLength (join sep ts) := by
  induction h with
  | slnil => exact Nat.le_refl _
  | @cons ss ts t h ih =>
    refine Nat.le_trans ih ?_
    by_cases hts : ts = []
    · subst hts
      simp [join, byteLength]
    · rw [join_cons t hts, byteLength_append]
      exact Nat.le_add_left _ _
  | @cons_cons ss ts t h ih =>
    by_cases hts : ts = []
    · subst hts
      rw [sublist_nil.1 h]
    · rw [join_cons t hts, byteLength_append]
      by_cases hss : ss = []
      · subst hss
        rw [byteLength_append, join, String.intercalate_singleton]
        omega
      · rw [join_cons t hss, byteLength_append]
        omega

/-- The text occurs in another. -/
def Occurs (w s : String) : Prop := w.toList <:+: s.toList

/-- The test for an occurrence finds all of them. -/
theorem contains_eq_true {w s : String} : contains w s = true ↔ Occurs w s := by
  unfold contains Occurs
  induction s.toList with
  | nil => simp [containsChars]
  | cons c cs ih => rw [containsChars, Bool.or_eq_true, isPrefixOf_iff_prefix, ih, infix_cons_iff]

namespace Occurs

variable {w s t : String}

theorem refl (s : String) : Occurs s s := infix_refl _

private theorem trans (hw : Occurs w s) (hs : Occurs s t) : Occurs w t := IsInfix.trans hw hs

theorem append_right (h : Occurs w s) (t : String) : Occurs w (s ++ t) := by
  unfold Occurs
  rw [String.toList_append]
  exact IsInfix.trans h (prefix_append _ _).isInfix

theorem append_left (h : Occurs w t) (s : String) : Occurs w (s ++ t) := by
  unfold Occurs
  rw [String.toList_append]
  exact IsInfix.trans h (suffix_append _ _).isInfix

theorem join {ss : List String} (h : Occurs w s) (hs : s ∈ ss) : Occurs w (String.join ss) := by
  refine h.trans ?_
  unfold Occurs
  rw [String.toList_join]
  obtain ⟨before, after, rfl⟩ := append_of_mem hs
  exact ⟨before.flatMap String.toList, after.flatMap String.toList, by simp⟩

private theorem separated {sep : String} {ss : List String} (h : Occurs w s) (hs : s ∈ ss) :
    Occurs w (Text.join sep ss) := by
  induction ss with
  | nil => cases hs
  | cons first rest ih =>
    cases rest with
    | nil =>
      obtain rfl := mem_singleton.1 hs
      simpa [Text.join] using h
    | cons next rest =>
      rw [Text.join, String.intercalate_cons_of_ne_nil (by simp)]
      rcases mem_cons.1 hs with rfl | hs
      · exact (h.append_right _).append_right _
      · exact (ih hs).append_left _

private theorem trimRight {p : Char → Bool} (h : Occurs w s) {c : Char} (hlast : w.toList.getLast? = some c)
    (hc : p c = false) : Occurs w (Text.trimRight p s) := by
  obtain ⟨before, after, heq⟩ := h
  obtain ⟨init, hinit⟩ := getLast?_eq_some_iff.1 hlast
  unfold Occurs Text.trimRight trimRightChars
  rw [String.toList_ofList, ← heq, reverse_append, dropWhile_append]
  have hkeep : (before ++ w.toList).reverse.dropWhile p = (before ++ w.toList).reverse := by
    simp [hinit, hc]
  split
  · rw [hkeep, reverse_reverse]
    exact (suffix_append _ _).isInfix
  · rw [reverse_append, reverse_reverse]
    exact ⟨before, _, rfl⟩

/-- What ends in something visible is not lost when blocks are joined. -/
theorem joinBlocks {blocks : List String} (h : Occurs w s) (hs : s ∈ blocks) {c : Char}
    (hlast : w.toList.getLast? = some c) (hc : isBlank c = false) : Occurs w (Text.joinBlocks blocks) := by
  have hbreak : (c == '\n') = false := by
    rw [beq_eq_false_iff_ne]
    rintro rfl
    cases hc
  refine (h.trimRight (p := (· == '\n')) hlast hbreak).separated (mem_map_of_mem (mem_filter.2 ⟨hs, ?_⟩))
  have hmem : c ∈ s.toList := h.mem (mem_of_getLast? hlast)
  rw [Bool.not_eq_true', Bool.eq_false_iff]
  intro hempty
  rw [isBlank_of_trim hempty c hmem] at hc
  cases hc

end Occurs

end Covenant.Text
