import Covenant.Compile.Generate
import Covenant.Proofs.Outcome
import Covenant.Proofs.Text.Charset

/-!
# Failures of one class

A failure counts as one of a class by its origin or by its text, so one that was raised for a class could count as one
of another.  `Failure.Classified` rules this out.  All failures of compilation are of this kind but for three: a list
entry that is left out, a constant without a value, and a condition held to be impossible.
-/

namespace Covenant

open Outcome (FailsOnly)
open Text (Occurs)

namespace FailureClass

private theorem mem_all (cls : FailureClass) : cls ∈ all := by cases cls <;> decide

/-- The text occurs in no text of a class. -/
def isForeign (mark : String) : Bool := all.all fun cls => !Text.contains mark cls.text

private theorem ne_text {mark s : String} (hmark : isForeign mark = true) (h : Occurs mark s) (cls : FailureClass) :
    s ≠ cls.text := by
  rintro rfl
  have hnot := List.all_eq_true.1 hmark cls cls.mem_all
  rw [Text.contains_eq_true.2 h] at hnot
  cases hnot

end FailureClass

namespace Failure

/-- The failure was raised for a class, and its text stands for none. -/
structure Classified (f : Failure) : Prop where
  origin : ∃ cls, f.origin = .classified cls
  text : ∀ cls : FailureClass, f.text ≠ cls.text

namespace Classified

variable {f : Failure}

theorem within (h : f.Classified) (context : String) : (f.within context).Classified := ⟨h.origin, h.text⟩

theorem withHint (h : f.Classified) (hint : String) : (f.withHint hint).Classified := ⟨h.origin, h.text⟩

theorem mapError_within {α : Type} {x : Except Failure α} (h : FailsOnly Classified x) (context : String) :
    FailsOnly Classified (x.mapError (·.within context)) :=
  .mapError fun f hf => (h f hf).within context

/-- Such a failure counts as one of exactly one class. -/
theorem existsUnique (h : f.Classified) : ∃! cls, f.belongsTo cls = true := by
  obtain ⟨cls, hcls⟩ := h.origin
  refine ⟨cls, by simp [belongsTo, hcls], fun c hc => ?_⟩
  have hc : f.origin = .classified c := by simpa [belongsTo, h.text c] using hc
  exact (Origin.classified.inj (hcls.symm.trans hc)).symm

/-- What is held to be impossible is no such failure. -/
theorem origin_ne_assertion (h : f.Classified) : f.origin ≠ .assertion := by
  obtain ⟨cls, hcls⟩ := h.origin
  rw [hcls]
  exact nofun

section

variable (cls : FailureClass)

private theorem ofOccurs {text mark : String} (h : Occurs mark text) (hmark : FailureClass.isForeign mark = true) :
    (Failure.ofClass cls text).Classified :=
  ⟨⟨cls, rfl⟩, FailureClass.ne_text hmark h⟩

variable {mark : String} (hmark : FailureClass.isForeign mark = true)
include hmark

theorem ofText : (Failure.ofClass cls mark).Classified := .ofOccurs cls (.refl mark) hmark

theorem ofEnd {s : String} : (Failure.ofClass cls (s ++ mark)).Classified :=
  .ofOccurs cls (.append_left (.refl mark) s) hmark

theorem ofStart {t : String} : (Failure.ofClass cls (mark ++ t)).Classified :=
  .ofOccurs cls (.append_right (.refl mark) t) hmark

/-- The text has a part that is foreign to all classes. -/
theorem ofMiddle {s t : String} : (Failure.ofClass cls (s ++ mark ++ t)).Classified :=
  .ofOccurs cls (.append_right (.append_left (.refl mark) s) t) hmark

end

end Classified

end Failure

open Failure (Classified)

theorem Compile.OptionDefect.classified (d : OptionDefect) : d.toFailure.Classified := by
  induction d with
  | unknownLanguage => exact (Classified.ofStart _ (by decide)).withHint _
  | preamble d ih => exact ih.within _
  | emptyNamespace => exact .ofText _ (by decide)
  | repeatedLanguage | errorCodesName | unmangledName => exact .ofEnd _ (by decide)

theorem Typing.MapperDefect.classified (d : MapperDefect) : d.toFailure.Classified := by
  cases d with
  | noTarget category => exact .ofEnd _ (by decide)
  | emptyName => exact .ofText _ (by decide)
  | unknownCategory name value => exact (Classified.ofEnd _ (by decide)).withHint _

private theorem Contract.AliasDefect.classified (d : AliasDefect) : d.toFailure.Classified := by
  cases d with
  | empty => exact .ofText _ (by decide)
  | slash given => exact .ofEnd _ (by decide)
  | character given c => exact .ofMiddle _ (by decide)

/-- The rule that is broken is one about entries that are there. -/
def Contract.Defect.isKnown : Defect → Bool
  | .absentEntry _ => false
  | _ => true

/-- A broken rule fails with a class. -/
theorem Contract.Defect.classified (d : Defect) (h : d.isKnown = true) : d.toFailure.Classified := by
  cases d with
  | noProgram => exact .ofText _ (by decide)
  | programName | name | unexpectedResult | noValue | undeclaredAlias | localAlias => exact .ofEnd _ (by decide)
  | duplicate | noResult | genericRemote => exact (Classified.ofEnd _ (by decide)).withHint _
  | badAlias decl defect => exact defect.classified.within _
  | absentEntry => cases h
  | _ => exact .ofMiddle _ (by decide)

theorem Naming.Conflict.classified (c : Conflict) (h : ∀ decl, c ≠ .orphan decl) : c.toFailure.Classified := by
  cases c with
  | orphan decl => exact absurd rfl (h decl)
  | emptyMember => exact .ofEnd _ (by decide)
  | sameMember => exact .ofMiddle _ (by decide)
  | _ => exact (Classified.ofMiddle _ (by decide)).withHint _

theorem Binding.BindDefect.classified (d : BindDefect) : d.toFailure.Classified := by
  cases d with
  | missing => exact .ofText _ (by decide)
  | keyType => exact (Classified.ofMiddle _ (by decide)).withHint _
  | arity => exact .ofMiddle _ (by decide)
  | unresolved => exact (Classified.ofStart _ (by decide)).withHint _
  | _ => exact .ofEnd _ (by decide)

end Covenant
