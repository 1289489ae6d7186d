import Covenant.Extract.Program
import Covenant.Proofs.Contract.WellFormed
import Covenant.Proofs.Text.Identifiers

/-!
# Namespaces of packages

The import path of a package loses the start that the options name, at most once, and one slash.  Every maximal run of
characters between slashes and dots that is left gives one segment of the namespace, which validation has no cause to
refuse.
-/

namespace Covenant.Extract

open Contract Text
open List

/-- Paths are cut at slashes and dots. -/
def isPartChar (c : Char) : Bool := c != '/' && c != '.'

/-- What is left of a text without a start, which is all of it if it starts otherwise. -/
inductive Leaves (start : String) : String → String → Prop
  | trimmed (rest : String) : Leaves start (start ++ rest) rest
  | whole {s : String} : ¬start.toList <+: s.toList → Leaves start s s

private theorem leaves_trimStart (start s : String) : Leaves start s (trimStart start s) := by
  rw [trimStart]
  split
  next h =>
    obtain ⟨rest, hrest⟩ := isPrefixOf_iff_prefix.1 h
    obtain rfl : s = start ++ String.ofList rest := String.toList_inj.1 (by simp [hrest])
    rw [String.toList_append, String.toList_ofList, ← String.length_toList, drop_left]
    exact .trimmed _
  next h => exact .whole fun hstart => h ( isPrefixOf_iff_prefix.2 hstart)

/-- Characters that no identifier has become underscores. -/
def Replaces (c d : Char) : Prop := isIdentifierChar c = true ∧ d = c ∨ isIdentifierChar c = false ∧ d = '_'

/-- The segment is an identifier with the characters of the part, behind an underscore exactly if these start with a
digit. -/
structure SegmentOf (part : List Char) (segment : String) : Prop where
  ident : isIdentifier segment = true
  chars : ∃ lead same, segment.toList = lead ++ same ∧ Forall₂ Replaces part same ∧
    ((∃ c ∈ part.head?, c.isDigit = true) ∧ lead = ['_'] ∨ (∀ c ∈ part.head?, c.isDigit = false) ∧ lead = [])

private theorem replaces_segmentChar (c : Char) : Replaces c (segmentChar c) := by
  unfold Replaces segmentChar
  cases isIdentifierChar c <;> simp

private theorem isIdentifierChar_segmentChar (c : Char) : isIdentifierChar (segmentChar c) = true := by
  rcases replaces_segmentChar c with ⟨hc, h⟩ | ⟨-, h⟩
  · rwa [h]
  · rw [h]
    rfl

private theorem segmentOf_segment {part : List Char} (hne : part ≠ []) :
    SegmentOf part (String.ofList (segment part)) := by
  obtain ⟨c, cs, rfl⟩ := exists_cons_of_ne_nil hne
  have hover : ∀ d ∈ (c :: cs).map segmentChar, isIdentifierChar d = true := by
    simpa using ⟨isIdentifierChar_segmentChar c, fun d _ => isIdentifierChar_segmentChar d⟩
  have hsame : Forall₂ Replaces (c :: cs) ((c :: cs).map segmentChar) :=
    forall₂_map_right_iff.2 (forall₂_same.2 fun d _ => replaces_segmentChar d)
  rw [segment]
  by_cases hdigit : c.isDigit = true
  · rw [if_pos hdigit]
    refine ⟨isIdentifier_of_start String.toList_ofList (c := '_') rfl ?_, _, _, String.toList_ofList, hsame,
      .inl ⟨⟨c, rfl, hdigit⟩, rfl⟩⟩
    exact .ofList (all_eq_true.2 (forall_mem_cons.2 ⟨rfl, hover⟩))
  · rw [if_neg hdigit]
    refine ⟨isIdentifier_of_start String.toList_ofList (c := segmentChar c) ?_ (.ofList (all_eq_true.2 hover)),
      _, _, String.toList_ofList, hsame, .inr ⟨by simpa using hdigit, rfl⟩⟩
    rcases replaces_segmentChar c with ⟨hc, h⟩ | ⟨-, h⟩
    · rw [h]
      exact isIdentifierStart_of_not_digit hc hdigit
    · rw [h]
      rfl

private theorem segmentOf_segments (path : String) :
    Forall₂ SegmentOf (runs isPartChar path.toList) (segments path) :=
  forall₂_map_right_iff.2 (forall₂_same.2 fun part hpart =>
    segmentOf_segment ((maximalRuns_runs _ _).of_mem part hpart).1)

/-- No identifier is empty or has a dot, so they can be read off the text that they are joined to. -/
theorem split_of_identifiers {segments : List String} (h : ∀ s ∈ segments, isIdentifier s = true) :
    segments = [] ∧ join "." segments = "" ∨
      segments ≠ [] ∧ join "." segments ≠ "" ∧ split '.' (join "." segments) = segments := by
  by_cases hne : segments = []
  · exact .inl ⟨hne, by rw [hne]; rfl⟩
  · have hsplit : split '.' (join "." segments) = segments := by
      refine split_join hne fun s hs hdot => ?_
      cases over_of_isIdentifier (h s hs) _ hdot
    refine .inr ⟨hne, fun hempty => ?_, hsplit⟩
    rw [hempty] at hsplit
    cases h "" (hsplit ▸ mem_singleton.2 rfl)

/-- The namespace is empty, or its segments between dots are identifiers, one for each part of the path in order, and
validation accepts it for every declaration. -/
theorem Options.namespaceOf_accepted (o : Options) (path : String) :
    badSegment? (o.namespaceOf path) = none ∧ (∀ decl (head : DeclHead),
      checkNames decl { head with ns := o.namespaceOf path } = .ok () ↔ isIdentifier head.name = true) ∧
    ∃ rest trimmed parts segments, Leaves o.trimPrefix path rest ∧ Leaves "/" rest trimmed ∧
      MaximalRuns isPartChar trimmed.toList parts ∧ Forall₂ SegmentOf parts segments ∧
      (segments = [] ∧ o.namespaceOf path = "" ∨
        segments ≠ [] ∧ o.namespaceOf path ≠ "" ∧ split '.' (o.namespaceOf path) = segments) := by
  have hruns := maximalRuns_runs isPartChar (trimStart "/" (trimStart o.trimPrefix path)).toList
  have hsegments := segmentOf_segments (trimStart "/" (trimStart o.trimPrefix path))
  have hident : ∀ s ∈ segments (trimStart "/" (trimStart o.trimPrefix path)), isIdentifier s = true := by
    intro s hs
    obtain ⟨part, _, hpart⟩ := Outcome.exists_of_mem_right hsegments hs
    exact hpart.ident
  have hsplit := split_of_identifiers hident
  rw [← Options.namespaceOf] at hsplit
  have hnone : badSegment? (o.namespaceOf path) = none := by
    rw [badSegment?_eq_none]
    intro hne
    rcases hsplit with ⟨-, hempty⟩ | ⟨-, -, hsplit⟩
    · exact absurd hempty hne
    · rwa [hsplit]
  refine ⟨hnone, fun decl head => ?_, _, _, _, _, leaves_trimStart _ _, leaves_trimStart _ _, hruns,
    hsegments, hsplit⟩
  simp only [checkNames_iff, hnone, and_true]

example : ({ trimPrefix := "example.c" } : Options).namespaceOf "example.com/ü-2/.2fa/" = "om.__2._2fa" := by
  decide +kernel

end Covenant.Extract
