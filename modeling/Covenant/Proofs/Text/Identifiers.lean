import Covenant.Proofs.Text.Charset

/-!
# Wire names as identifiers

`toIdentifier` splits a wire name into its runs of identifier characters and joins them as one lower camel case word.
Up to letter case the characters stay, in order, behind at most one `n` that keeps a digit from coming first.
-/

namespace Covenant.Text

open List

variable {cs : List Char} {c : Char} {s : String}

/-- The maximal runs of characters in a set, in order.  Each stands behind a gap, and what follows starts outside. -/
inductive MaximalRuns (P : Char → Bool) : List Char → List (List Char) → Prop
  | gap {gap : List Char} : (∀ c ∈ gap, P c = false) → MaximalRuns P gap []
  | run (gap run : List Char) {rest : List Char} {runs : List (List Char)} : (∀ c ∈ gap, P c = false) → run ≠ [] →
      (∀ c ∈ run, P c = true) → (∀ c ∈ rest.head?, P c = false) → MaximalRuns P rest runs →
      MaximalRuns P (gap ++ run ++ rest) (run :: runs)

namespace MaximalRuns

variable {P : Char → Bool} {cs : List Char} {found : List (List Char)} {c d : Char}

theorem skip (hc : P c = false) (h : MaximalRuns P cs found) : MaximalRuns P (c :: cs) found := by
  cases h with
  | gap hgap => exact .gap (forall_mem_cons.2 ⟨hc, hgap⟩)
  | run gap run hgap hne hrun hrest h => exact .run (c :: gap) run (forall_mem_cons.2 ⟨hc, hgap⟩) hne hrun hrest h

theorem start (hc : P c = true) (hd : ∀ d ∈ cs.head?, P d = false) (h : MaximalRuns P cs found) :
    MaximalRuns P (c :: cs) ([c] :: found) :=
  .run [] [c] (by simp) (by simp) (by simpa using hc) hd h

/-- A run that is there already grows at its front. -/
theorem grow (hc : P c = true) (hd : P d = true) (h : MaximalRuns P (d :: cs) found) :
    ∃ run rest, found = run :: rest ∧ MaximalRuns P (c :: d :: cs) ((c :: run) :: rest) := by
  generalize htext : d :: cs = text at h
  cases h with
  | gap hgap =>
    subst htext
    simp [hd] at hgap
  | @run gap run _ rest hgap hne hrun hrest h =>
    cases gap with
    | nil =>
      exact ⟨run, rest, rfl, .run [] (c :: run) (by simp) (by simp) (forall_mem_cons.2 ⟨hc, hrun⟩) hrest h⟩
    | cons e gap =>
      cases htext
      simp [hd] at hgap

private theorem flatten (h : MaximalRuns P cs found) : found.flatten = cs.filter P := by
  induction h with
  | gap hgap => simpa using hgap
  | run _ _ hgap _ hrun _ _ ih =>
    rw [filter_append, filter_append, filter_eq_nil_iff.2 (by simpa using hgap),
      filter_eq_self.2 hrun, ← ih]
    rfl

theorem of_mem (h : MaximalRuns P cs found) : ∀ run ∈ found, run ≠ [] ∧ ∀ c ∈ run, P c = true := by
  induction h with
  | gap => simp
  | run _ _ _ hne hrun _ _ ih => exact forall_mem_cons.2 ⟨⟨hne, hrun⟩, ih⟩

end MaximalRuns

/-- The runs of a text are maximal. -/
theorem maximalRuns_runs (P : Char → Bool) (cs : List Char) : MaximalRuns P cs (runs P cs) := by
  fun_induction runs P cs with
  | case1 => exact .gap (by simp)
  | case2 c hc => exact .start hc (by simp) (.gap (by simp))
  | case3 c hc d ds hd hnone ih =>
    obtain ⟨_, _, hsome, -⟩ := ih.grow hc hd
    cases hnone.symm.trans hsome
  | case4 c hc d ds hd first rest hsome ih =>
    obtain ⟨_, _, heq, h⟩ := ih.grow hc hd
    cases hsome.symm.trans heq
    rwa [hsome]
  | case5 c hc d ds hd ih => exact .start hc (by simpa using hd) ih
  | case6 c cs hc ih => exact .skip (by simpa using hc) ih

theorem runs_of_all {P : Char → Bool} (hne : cs ≠ []) (h : ∀ c ∈ cs, P c = true) : runs P cs = [cs] := by
  induction cs with
  | nil => exact absurd rfl hne
  | cons c cs ih =>
    have hc := h c (.head _)
    cases cs with
    | nil => simp [runs, hc]
    | cons d ds =>
      have hd := h d (by simp)
      rw [runs, if_pos hc]
      simp only [hd, if_true, ih (by simp) fun e he => h e (mem_cons_of_mem _ he)]

private theorem case_isIdentifierChar (h : isIdentifierChar c = true) : (toLowerCase c).toLower = c.toLower ∧
    c.toUpper.toLower = c.toLower ∧ isUpperCase (toLowerCase c) = false := by
  have hall : ∀ n < 128, let c := Char.ofNat n
      (toLowerCase c).toLower = c.toLower ∧ c.toUpper.toLower = c.toLower ∧ isUpperCase (toLowerCase c) = false := by
    decide
  have hc := hall c.toNat (toNat_lt_of_isIdentifierChar h)
  rwa [Char.ofNat_toNat] at hc

private theorem isIdentifierChar_toLower (c : Char) : isIdentifierChar c.toLower = isIdentifierChar c := by
  by_cases hc : c.toNat < 128
  · have hall : ∀ n < 128, isIdentifierChar (Char.ofNat n).toLower = isIdentifierChar (Char.ofNat n) := by decide
    have h := hall c.toNat hc
    rwa [Char.ofNat_toNat] at h
  · have hval : c.toNat = c.val.toNat := rfl
    have hbound : 'Z'.val.toNat = 90 := rfl
    have hnot : ¬(c.val ≥ 'A'.val ∧ c.val ≤ 'Z'.val) := by
      rw [UInt32.le_iff_toNat_le]
      omega
    have hsame : c.toLower = c := dif_neg hnot
    rw [hsame]

private theorem map_toLower_capitalized (h : ∀ c ∈ cs, isIdentifierChar c = true) :
    (capitalized cs).map Char.toLower = cs.map Char.toLower := by
  cases cs with
  | nil => rfl
  | cons c cs => rw [capitalized, map_cons, map_cons, (case_isIdentifierChar (h c mem_cons_self)).2.1]

private theorem map_toLower_lowerCamelChars (h : ∀ c ∈ cs, isIdentifierChar c = true) :
    (lowerCamelChars cs).map Char.toLower = cs.map Char.toLower := by
  rw [lowerCamelChars, map_append, map_map]
  conv_rhs => rw [← take_append_drop (loweredCount cs) cs, map_append]
  congr 1
  exact map_congr_left fun c hc => (case_isIdentifierChar (h c (mem_of_mem_take hc))).1

private theorem loweredCount_cons (c : Char) (cs : List Char) :
    loweredCount (c :: cs) = 0 ↔ isUpperCase c = false := by
  cases hc : isUpperCase c with
  | false =>
    have hnone : (c :: cs).takeWhile isUpperCase = [] := takeWhile_cons_of_neg (by simp [hc])
    simp [loweredCount, hnone]
  | true =>
    simp only [loweredCount, takeWhile_cons_of_pos hc, length_cons, reduceCtorEq, iff_false]
    split
    · omega
    · split
      · omega
      · split <;> omega

private theorem lowerCamelChars_cons (c : Char) (cs : List Char) :
    ∃ tail, lowerCamelChars (c :: cs) = (if isUpperCase c then toLowerCase c else c) :: tail := by
  rw [lowerCamelChars]
  rcases hn : loweredCount (c :: cs) with _ | n
  · rw [(loweredCount_cons c cs).1 hn]
    exact ⟨cs, rfl⟩
  · have hc : isUpperCase c = true := by
      by_contra hc
      rw [Bool.not_eq_true, ← loweredCount_cons c cs, hn] at hc
      cases hc
    rw [hc]
    exact ⟨_, rfl⟩

private theorem lowerCamelChars_of_not_upper {cs : List Char} (h : isUpperCase c = false) :
    lowerCamelChars (c :: cs) = c :: cs := by
  rw [lowerCamelChars, (loweredCount_cons c cs).2 h]
  rfl

/-- The characters of a wire name that an identifier may hold. -/
def kept (s : String) : List Char := s.toList.filter isIdentifierChar

/-- The identifier is the kept characters up to case, begins with no capital, and has an `n` before a digit. -/
theorem exists_toIdentifier (s : String) : kept s = [] ∧ toIdentifier s = "" ∨
    ∃ c cs, (c :: cs).map Char.toLower = (kept s).map Char.toLower ∧ isUpperCase c = false ∧
      toIdentifier s = String.ofList (if c.isDigit then 'n' :: c :: cs else c :: cs) := by
  have hruns := maximalRuns_runs isIdentifierChar s.toList
  rw [kept, ← hruns.flatten, toIdentifier]
  cases hwords : runs isIdentifierChar s.toList with
  | nil => exact .inl ⟨rfl, rfl⟩
  | cons first rest =>
    rw [hwords] at hruns
    obtain ⟨hne, hfirst⟩ := hruns.of_mem first (.head _)
    obtain ⟨d, ds, rfl⟩ := exists_cons_of_ne_nil hne
    obtain ⟨tail, htail⟩ := lowerCamelChars_cons d ds
    have hlist : lowerCamelChars (d :: ds) ++ rest.flatMap capitalized =
        (if isUpperCase d then toLowerCase d else d) :: (tail ++ rest.flatMap capitalized) := by
      rw [htail]
      rfl
    refine .inr ⟨_, tail ++ rest.flatMap capitalized, ?_, ?_, by simp only [identifierOfWords, hlist]; rfl⟩
    · rw [← hlist, map_append, map_toLower_lowerCamelChars hfirst, flatten_cons, map_append,
        map_flatMap, map_flatten, ← flatMap_def]
      congr 1
      exact flatMap_congr fun word hword => map_toLower_capitalized (hruns.of_mem word (.tail _ hword)).2
    · split
      · exact (case_isIdentifierChar (hfirst d (.head _))).2.2
      next h => simpa using h

private theorem over_toIdentifier (s : String) : Over isIdentifierChar (toIdentifier s) := by
  rcases exists_toIdentifier s with ⟨-, h⟩ | ⟨c, cs, hkept, -, h⟩
  · rw [h]
    exact .ofList rfl
  · have hchars (d : Char) (hd : d ∈ c :: cs) : isIdentifierChar d = true := by
      have hmem := mem_map_of_mem (f := Char.toLower) hd
      rw [hkept] at hmem
      obtain ⟨e, he, heq⟩ := mem_map.1 hmem
      rw [← isIdentifierChar_toLower, ← heq, isIdentifierChar_toLower]
      exact (mem_filter.1 he).2
    rw [h]
    refine .ofList (all_eq_true.2 ?_)
    split
    · exact forall_mem_cons.2 ⟨rfl, hchars⟩
    · exact hchars

private theorem toIdentifier_eq_empty (s : String) :
    toIdentifier s = "" ↔ ∀ c ∈ s.toList, isIdentifierChar c = false := by
  have hkept : kept s = [] ↔ ∀ c ∈ s.toList, isIdentifierChar c = false := by simp [kept]
  rw [← hkept]
  rcases exists_toIdentifier s with ⟨hnil, h⟩ | ⟨c, cs, hlower, -, h⟩
  · exact iff_of_true h hnil
  · refine iff_of_false ?_ fun hnil => ?_
    · rw [h, String.ofList_eq_empty_iff]
      split <;> simp
    · rw [hnil] at hlower
      cases hlower

private theorem uncapitalized_toIdentifier (h : toIdentifier s ≠ "") :
    isIdentifier (toIdentifier s) = true ∧ ∃ c cs, (toIdentifier s).toList = c :: cs ∧ isUpperCase c = false := by
  have hover := over_toIdentifier s
  rcases exists_toIdentifier s with ⟨-, hempty⟩ | ⟨c, cs, -, hupper, hlist⟩
  · exact absurd hempty h
  · rw [hlist] at hover ⊢
    split at hover
    next hdigit =>
      -- a digit cannot start an identifier, and gets a letter in front
      rw [if_pos hdigit]
      exact ⟨isIdentifier_of_start String.toList_ofList (by decide) hover, 'n', _, String.toList_ofList, by decide⟩
    next hdigit =>
      rw [if_neg hdigit]
      exact ⟨isIdentifier_of_start String.toList_ofList
        (isIdentifierStart_of_not_digit (hover c (by simp)) hdigit) hover, c, cs, String.toList_ofList, hupper⟩

theorem toIdentifier_ne_empty : toIdentifier s ≠ "" ↔ ∃ c ∈ s.toList, isIdentifierChar c = true := by
  simp [toIdentifier_eq_empty]

/-- What is not empty is an identifier. -/
theorem isIdentifier_toIdentifier (h : toIdentifier s ≠ "") : isIdentifier (toIdentifier s) = true :=
  (uncapitalized_toIdentifier h).1

private theorem toIdentifier_of_isIdentifier {c : Char} {cs : List Char} (h : isIdentifier s = true)
    (hs : s.toList = c :: cs) (hc : isUpperCase c = false) : toIdentifier s = s := by
  have hall : ∀ d ∈ c :: cs, isIdentifierChar d = true := hs ▸ over_of_isIdentifier h
  have hdigit : c.isDigit = false := by
    obtain ⟨d, ds, hlist, hstart, -⟩ := isIdentifier_iff.1 h
    cases hs.symm.trans hlist
    have hall : ∀ n < 128, isIdentifierStart (Char.ofNat n) = true → (Char.ofNat n).isDigit = false := by decide
    have hc := hall c.toNat (toNat_lt_of_isIdentifierChar (isIdentifierChar_of_start hstart))
    rw [Char.ofNat_toNat] at hc
    exact hc hstart
  have hlist : identifierOfWords [c :: cs] = c :: cs := by
    simp [identifierOfWords, lowerCamelChars_of_not_upper hc, hdigit]
  rw [toIdentifier, hs, runs_of_all (by simp) hall, hlist, ← hs, String.ofList_toList]

/-- The result is empty exactly without characters to keep, and otherwise an identifier without a leading capital.  It
is its own result, and holds what is kept, in order and up to case, behind at most one `n`. -/
theorem toIdentifier_normal (s : String) :
    (toIdentifier s = "" ↔ ∀ c ∈ s.toList, isIdentifierChar c = false) ∧ (toIdentifier s ≠ "" →
      isIdentifier (toIdentifier s) = true ∧ ∃ c cs, (toIdentifier s).toList = c :: cs ∧ isUpperCase c = false) ∧
    toIdentifier (toIdentifier s) = toIdentifier s ∧ ∃ lead same, (toIdentifier s).toList = lead ++ same ∧
      (lead = [] ∨ lead = ['n'] ∧ ∃ c ∈ same.head?, c.isDigit = true) ∧
      same.map Char.toLower = (kept s).map Char.toLower := by
  refine ⟨toIdentifier_eq_empty s, uncapitalized_toIdentifier, ?_, ?_⟩
  · by_cases h : toIdentifier s = ""
    · rw [h]
      rfl
    · obtain ⟨hident, c, cs, hlist, hc⟩ := uncapitalized_toIdentifier h
      exact toIdentifier_of_isIdentifier hident hlist hc
  · rcases exists_toIdentifier s with ⟨hnil, h⟩ | ⟨c, cs, hlower, -, h⟩
    · exact ⟨[], [], by rw [h]; rfl, .inl rfl, by rw [hnil]⟩
    · rw [h, String.toList_ofList]
      split
      next hdigit => exact ⟨['n'], c :: cs, rfl, .inr ⟨rfl, c, rfl, hdigit⟩, hlower⟩
      next => exact ⟨[], c :: cs, rfl, .inl rfl, hlower⟩

end Covenant.Text
