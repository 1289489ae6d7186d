import Covenant.Contract.DocumentText
import Covenant.Proofs.Contract.WellFormed
import Covenant.Proofs.FailureClass

/-!
# Absent entries

A document may leave entries of its lists out.  Validation refuses a program that lacks a reference, but it reads type
parameters, fields and members of enumerations without looking whether they are there.  It comes to such an entry
exactly if it finds nothing wrong before it (`Declaration.beforeAbsent?`), and then its failure has no class.
-/

namespace Covenant.Contract

open Outcome

/-- No entry is left out of the lists of the declaration. -/
def Declaration.Present : Declaration → Prop
  | .enum _ members => none ∉ members
  | .type _ body _ => none ∉ body.typeParameters ∧ none ∉ body.fields

/-- The check fails because of an entry that is not there. -/
def ReadsAbsent (x : Except Defect Unit) : Prop := ∃ d, x = .error d ∧ d.isKnown = false

variable {v : Visit} (p : Program) {x : Except Defect Unit} {d : Declaration}

private theorem not_readsAbsent : ¬ReadsAbsent x ↔ FailsOnly (·.isKnown) x := by
  simp [ReadsAbsent, FailsOnly]

private theorem readsAbsent_bind {f : Unit → Except Defect Unit} :
    ReadsAbsent (x >>= f) ↔ ReadsAbsent x ∨ x = .ok () ∧ ReadsAbsent (f ()) := by
  cases x <;> simp [ok_bind, error_bind, ReadsAbsent]

private theorem readsAbsent_after (hx : FailsOnly (·.isKnown) x) {f : Unit → Except Defect Unit} :
    ReadsAbsent (x >>= f) ↔ x = .ok () ∧ ReadsAbsent (f ()) := by
  rw [readsAbsent_bind, or_iff_right (not_readsAbsent.2 hx)]

private theorem readsAbsent_throwIf {c : Prop} [Decidable c] {d : Defect} (hd : d.isKnown = true)
    {f : PUnit → Except Defect Unit} :
    ReadsAbsent (if c then throw d >>= f else x) ↔ ¬c ∧ ReadsAbsent x := by
  by_cases hc : c
  · rw [if_pos hc]
    exact iff_of_false (not_readsAbsent.2 (.error hd)) fun h => h.1 hc
  · rw [if_neg hc, and_iff_right hc]

section

variable {decl site : String}

private theorem checkArguments_known {as : List (Option TypeRef)}
    (h : ∀ r, some r ∈ as → FailsOnly (·.isKnown) (checkRef site r)) :
    FailsOnly (·.isKnown) (checkArguments site as) := by
  induction as with
  | nil => exact .ok ()
  | cons a as ih =>
    cases a with
    | none => exact .error rfl
    | some r =>
      rw [checkArguments]
      refine (h r (.head _)).bind fun _ _ => ?_
      exact ih fun r' hr' => h r' (.tail _ hr')

private theorem checkRef_known (r : TypeRef) : FailsOnly (·.isKnown) (checkRef site r) := by
  induction r using TypeRef.inductArguments with
  | step h as ih =>
    rw [checkRef]
    split
    · exact .error rfl
    · exact checkArguments_known ih

private theorem checkRefs_known (rs : List (Option TypeRef)) : FailsOnly (·.isKnown) (checkRefs site rs) := by
  rw [checkRefs]
  exact checkArguments_known fun r _ => checkRef_known r

private theorem checkNames_known (head : DeclHead) : FailsOnly (·.isKnown) (checkNames decl head) := by
  unfold checkNames
  split
  · exact .error rfl
  · split
    · exact .error rfl
    · exact .ok ()

private theorem checkResult_known (body : TypeBody) : FailsOnly (·.isKnown) (checkResult decl body) := by
  unfold checkResult
  split
  · exact .error rfl
  · exact .error rfl
  · exact checkRef_known _
  · exact .ok ()

private theorem checkParameter_known (seen : List TypeParameter) (p : TypeParameter) :
    FailsOnly (·.isKnown) (checkParameter decl seen p) := .throwIf rfl (checkRefs_known _)

private theorem checkField_known (seen : List Field) (f : Field) : FailsOnly (·.isKnown) (checkField decl seen f) :=
  .throwIf rfl (checkRefs_known _)

private theorem checkConstant_known (seen : List Constant) (c : Constant) :
    FailsOnly (·.isKnown) (checkConstant decl seen c) := by
  refine .throwIf rfl ?_
  split
  · exact .error rfl
  · exact .ok ()

private theorem checkMember_known (seen : List EnumMember) (m : EnumMember) :
    FailsOnly (·.isKnown) (checkMember decl seen m) := by
  refine .throwIf rfl ?_
  split
  · exact .error rfl
  · exact .ok ()

end

private theorem checkEnclosing_known (v : Visit) : FailsOnly (·.isKnown) (checkEnclosing v) := by
  unfold checkEnclosing
  split
  · split
    · exact .error rfl
    · exact .ok ()
  · exact .ok ()

private theorem claimAliases_known (decl : String) (taken : List (String × String)) (aliases : List String) :
    FailsOnly (·.isKnown) (claimAliases decl taken aliases) := by
  induction aliases generalizing taken with
  | nil => exact .ok taken
  | cons given aliases ih =>
    rw [claimAliases]
    split
    · exact .error rfl
    · exact .error rfl
    · exact ih _

private theorem checkAliases_known (taken : List (String × String)) (keys : List String) :
    FailsOnly (·.isKnown) (checkAliases p taken keys) := by
  induction keys generalizing taken with
  | nil => exact .ok ()
  | cons key keys ih =>
    rw [checkAliases]
    split
    · exact .error rfl
    · split
      · exact (claimAliases_known _ _ _).bind fun _ _ => ih _
      · exact .error rfl

section

variable {decl : String}

private theorem readsAbsent_checkEntries {α : Type} {check : List α → α → Except Defect Unit}
    (h : ∀ seen a, FailsOnly (·.isKnown) (check seen a)) (seen : List α) (cs : List (Option α)) :
    ReadsAbsent (checkEntries decl check seen cs) ↔
      none ∈ cs ∧ checkEntries decl check seen (cs.takeWhile (·.isSome)) = .ok () := by
  induction cs generalizing seen with
  | nil => simp [checkEntries, ReadsAbsent]
  | cons c cs ih =>
    cases c with
    | none => simp [checkEntries, ReadsAbsent, Defect.isKnown]
    | some a =>
      have hmem : none ∈ some a :: cs ↔ none ∈ cs := by simp
      rw [checkEntries, readsAbsent_after (h seen a), ih, hmem, List.takeWhile_cons_of_pos rfl, checkEntries,
        check_eq_ok]
      exact and_left_comm

/-- What a declaration says up to the first absent entry that validation reads.  It reads no type parameters of remote
types. -/
def Declaration.beforeAbsent? : Declaration → Option Declaration
  | .enum head members =>
    if members.any (·.isNone) then some (.enum head (members.takeWhile (·.isSome))) else none
  | .type head body nested =>
    if body.typeParameters.any (·.isNone) then
      if body.kind.isRemote then none
      else some (.type head
        { kind := body.kind, typeParameters := body.typeParameters.takeWhile (·.isSome),
          result := body.result } nested)
    else if body.fields.any (·.isNone) then
      some (.type head { body with fields := body.fields.takeWhile (·.isSome), constants := [] } nested)
    else none

private theorem any_isNone {α : Type} {l : List (Option α)} : l.any (·.isNone) = true ↔ none ∈ l := by simp

private theorem readsAbsent_checkType {head : DeclHead} {body : TypeBody} : ReadsAbsent (checkType decl head body) ↔
    checkNames decl head = .ok () ∧ checkResult decl body = .ok () ∧
      ¬(body.kind.isRemote && !body.typeParameters.isEmpty) = true ∧
      (none ∈ body.typeParameters ∧
          checkEntries decl (checkParameter decl) [] (body.typeParameters.takeWhile (·.isSome)) = .ok () ∨
        checkEntries decl (checkParameter decl) [] body.typeParameters = .ok () ∧
          checkRefs (decl ++ " base type") body.baseTypes = .ok () ∧ none ∈ body.fields ∧
          checkEntries decl (checkField decl) [] (body.fields.takeWhile (·.isSome)) = .ok ()) := by
  have hconstants : none ∉ body.constants.map some := by simp
  rw [checkType, readsAbsent_after (checkNames_known head), readsAbsent_after (checkResult_known body),
    readsAbsent_throwIf rfl, readsAbsent_bind, readsAbsent_checkEntries checkParameter_known,
    readsAbsent_after (checkRefs_known _), readsAbsent_bind, readsAbsent_checkEntries checkField_known,
    readsAbsent_checkEntries checkConstant_known]
  simp only [hconstants, false_and, and_false, or_false]

private theorem checkType_eq_ok {head : DeclHead} {body : TypeBody} : checkType decl head body = .ok () ↔
    checkNames decl head = .ok () ∧ checkResult decl body = .ok () ∧
      ¬(body.kind.isRemote && !body.typeParameters.isEmpty) = true ∧
      checkEntries decl (checkParameter decl) [] body.typeParameters = .ok () ∧
      checkRefs (decl ++ " base type") body.baseTypes = .ok () ∧
      checkEntries decl (checkField decl) [] body.fields = .ok () ∧
      checkEntries decl (checkConstant decl) [] (body.constants.map some) = .ok () := by
  simp only [checkType, check_eq_ok, throwIf_eq_ok]

private theorem readsAbsent_checkDeclaration (d : Declaration) : ReadsAbsent (checkDeclaration decl d) ↔
    ∃ cut, d.beforeAbsent? = some cut ∧ checkDeclaration decl cut = .ok () := by
  cases d with
  | enum head members =>
    rw [checkDeclaration, readsAbsent_after (checkNames_known head), readsAbsent_checkEntries checkMember_known,
      ← any_isNone, Declaration.beforeAbsent?]
    cases members.any (·.isNone) <;> simp [checkDeclaration, check_eq_ok]
  | type head body nested =>
    rw [checkDeclaration, readsAbsent_checkType, Declaration.beforeAbsent?]
    by_cases hparams : none ∈ body.typeParameters
    · have hfail : checkEntries decl (checkParameter decl) [] body.typeParameters ≠ .ok () := by
        intro h
        obtain ⟨_, hp, -⟩ := (checkParameters_eq_ok.1 h).1 none hparams
        cases hp
      have hne : body.typeParameters.isEmpty = false := by
        rw [List.isEmpty_eq_false_iff]
        exact List.ne_nil_of_mem hparams
      rw [if_pos (any_isNone.2 hparams)]
      cases hremote : body.kind.isRemote with
      | true => simp [hne]
      | false =>
        simp only [Bool.false_eq_true, if_false, Option.some.injEq, exists_eq_left', checkDeclaration,
          checkType_eq_ok]
        simp [checkResult, hremote, hparams, hfail, checkRefs, checkArguments, checkEntries]
    · rw [if_neg (mt any_isNone.1 hparams)]
      by_cases hfields : none ∈ body.fields
      · rw [if_pos (any_isNone.2 hfields)]
        simp only [Option.some.injEq, exists_eq_left', checkDeclaration, checkType_eq_ok]
        simp +contextual [checkResult, hparams, hfields, checkEntries]
      · rw [if_neg (mt any_isNone.1 hfields)]
        simp [hparams, hfields]

end

private theorem head_beforeAbsent {d cut : Declaration} (h : d.beforeAbsent? = some cut) : cut.head = d.head := by
  cases d <;> grind [Declaration.beforeAbsent?, Declaration.head]

/-- A visit of a declaration in place of another one with the same names. -/
def Visit.withDecl (v : Visit) (d : Declaration) : Visit := { v with decl := d }

private theorem Visit.qualified_withDecl (h : d.head = v.decl.head) : (v.withDecl d).qualified = v.qualified := by
  have hns : (v.withDecl d).ns = v.ns := by
    unfold ns withDecl
    cases v.parents <;> simp [Declaration.ns, h]
  rw [qualified, qualified, hns, path, path, names, names, withDecl, Declaration.name, Declaration.name, h]

private theorem checkEnclosing_withDecl (h : d.head = v.decl.head) :
    checkEnclosing (v.withDecl d) = .ok () ↔ checkEnclosing v = .ok () := by
  rw [checkEnclosing_eq_ok, checkEnclosing_eq_ok, Visit.withDecl, Declaration.ns, h]
  rfl

/-- Declarations pass up to one that is cut before its first absent entry. -/
def PassesUntil (check : List Visit → Prop) (vs : List Visit) : Prop :=
  ∃ before v after cut, vs = before ++ v :: after ∧ v.decl.beforeAbsent? = some cut ∧
    check (before ++ [v.withDecl cut])

private theorem checkVisits_cons {seen : List String} {vs : List Visit} : checkVisits seen (v :: vs) = .ok () ↔
    ¬seen.contains v.qualified = true ∧ checkEnclosing v = .ok () ∧ checkDeclaration v.qualified v.decl = .ok () ∧
      checkVisits (v.qualified :: seen) vs = .ok () := by
  simp only [checkVisits, throwIf_eq_ok, check_eq_ok]

private theorem readsAbsent_checkVisits (seen : List String) (vs : List Visit) :
    ReadsAbsent (checkVisits seen vs) ↔ PassesUntil (fun us => checkVisits seen us = .ok ()) vs := by
  induction vs generalizing seen with
  | nil => simp [checkVisits, ReadsAbsent, PassesUntil]
  | cons v vs ih =>
    rw [checkVisits, readsAbsent_throwIf rfl, readsAbsent_after (checkEnclosing_known v), readsAbsent_bind,
      readsAbsent_checkDeclaration, ih]
    constructor
    · rintro ⟨hnew, henclosing, ⟨cut, hcut, hdecl⟩ | ⟨hdecl, before, w, after, cut, rfl, hcut, hbefore⟩⟩
      · have hhead := head_beforeAbsent hcut
        refine ⟨[], v, vs, cut, rfl, hcut, checkVisits_cons.2 ?_⟩
        rw [Visit.qualified_withDecl hhead, checkEnclosing_withDecl hhead]
        exact ⟨hnew, henclosing, hdecl, rfl⟩
      · exact ⟨v :: before, w, after, cut, rfl, hcut, checkVisits_cons.2 ⟨hnew, henclosing, hdecl, hbefore⟩⟩
    · rintro ⟨before, w, after, cut, hvs, hcut, hbefore⟩
      cases before with
      | nil =>
        cases hvs
        have hhead := head_beforeAbsent hcut
        obtain ⟨hnew, henclosing, hdecl, -⟩ := checkVisits_cons.1 hbefore
        rw [Visit.qualified_withDecl hhead] at hnew hdecl
        exact ⟨hnew, (checkEnclosing_withDecl hhead).1 henclosing, .inl ⟨cut, hcut, hdecl⟩⟩
      | cons u before =>
        cases hvs
        obtain ⟨hnew, henclosing, hdecl, hrest⟩ := checkVisits_cons.1 hbefore
        exact ⟨hnew, henclosing, .inr ⟨hdecl, before, w, after, cut, rfl, hcut, hrest⟩⟩

/-- The declarations of the program are well formed up to one that is well formed before its first absent entry. -/
def Program.ComesToAbsent : Prop :=
  Text.isIdentifier p.name = true ∧ PassesUntil (fun us => (us.map (·.qualified)).Nodup ∧ ∀ u ∈ us,
    (∀ o, u.outer? = some o → u.decl.ns = "" ∨ u.decl.ns = o.decl.ns) ∧ u.decl.WellFormed) p.visits

private theorem Program.readsAbsent_validate : ReadsAbsent p.validate ↔ p.ComesToAbsent := by
  have haliases : FailsOnly (·.isKnown)
      (if !p.aliases.isEmpty then checkAliases p p.remoteNames p.aliasKeys else pure ()) := by
    split
    · exact checkAliases_known p _ _
    · exact .ok ()
  rw [validate, readsAbsent_throwIf rfl, readsAbsent_bind, or_iff_left fun h => not_readsAbsent.2 haliases h.2,
    readsAbsent_checkVisits, ComesToAbsent]
  simp only [checkVisits_eq_ok, Visit.checked_iff, List.not_mem_nil, not_false_eq_true, implies_true, true_and,
    Bool.not_eq_true', Bool.not_eq_false]

private theorem beforeAbsent_of_present (h : d.Present) : d.beforeAbsent? = none := by
  cases d with
  | enum head members => rw [Declaration.beforeAbsent?, if_neg (mt any_isNone.1 h)]
  | type head body nested =>
    rw [Declaration.beforeAbsent?, if_neg (mt any_isNone.1 h.1), if_neg (mt any_isNone.1 h.2)]

private theorem Program.not_comesToAbsent {p : Program} (h : ∀ v ∈ p.visits, v.decl.Present) : ¬p.ComesToAbsent := by
  rintro ⟨-, before, v, after, cut, hvisits, hcut, -⟩
  rw [beforeAbsent_of_present (h v (by simp [hvisits]))] at hcut
  cases hcut

/-- Where no entry is left out, validation comes to none. -/
theorem Program.validate_known {p : Program} (h : ∀ v ∈ p.visits, v.decl.Present) :
    FailsOnly (·.isKnown) p.validate := by
  rw [← not_readsAbsent, readsAbsent_validate]
  exact not_comesToAbsent h

private theorem Declaration.WellFormed.present (h : d.WellFormed) : d.Present := by
  cases h with
  | enum _ hmembers =>
    intro hnone
    obtain ⟨_, hm, -⟩ := hmembers.members none hnone
    cases hm
  | type _ hbody =>
    constructor
    · intro hnone
      obtain ⟨_, hp, -⟩ := hbody.parameters none hnone
      cases hp
    · intro hnone
      obtain ⟨_, hf, -⟩ := hbody.fields none hnone
      cases hf

private theorem Defect.classified_iff {d : Defect} : d.toFailure.Classified ↔ d.isKnown = true := by
  refine ⟨fun h => ?_, d.classified⟩
  cases d with
  | absentEntry decl =>
    obtain ⟨cls, hcls⟩ := h.origin
    cases hcls
  | _ => rfl

/-- Validation of any program accepts it or fails with a class, unless it comes to a type parameter, field or member
that is not there.  It comes to none in a program that lacks none, whatever references that lacks, and no program that
lacks one is accepted. -/
theorem validation_classified_iff (p : Program) :
    ((p.validate = .ok () ∨ ∃ d, p.validate = .error d ∧ d.toFailure.Classified) ↔ ¬p.ComesToAbsent) ∧
    ((∀ v ∈ p.visits, v.decl.Present) → ¬p.ComesToAbsent) ∧
    (p.validate = .ok () → ∀ v ∈ p.visits, v.decl.Present) := by
  refine ⟨?_, Program.not_comesToAbsent, fun h v hv => ?_⟩
  · rw [← p.readsAbsent_validate, not_readsAbsent, FailsOnly]
    cases p.validate with
    | ok a => simp
    | error d => simp [Defect.classified_iff]
  · exact ((p.validate_eq_ok_iff.1 h).declarations v hv).present

/-- A document whose only declaration has one field, which is left out. -/
def unknownField : Document :=
  { name := "Shop", declarations := [.mk { ns := "App", name := "User", fields := [none] } []] }

def unknownFieldProgram : Program :=
  { name := "Shop", version := defaultSchema
    declarations := [.type { ns := "App", name := "User" } { fields := [none] } []] }

/-- Validation of the program of the document reads the field, and fails without a class. -/
theorem unknownField_unclassified : unknownField.toProgram = .ok unknownFieldProgram ∧
    unknownFieldProgram.validate = .error (.absentEntry "App.User") ∧
    ¬(Defect.absentEntry "App.User").toFailure.Classified := by
  refine ⟨rfl, rfl, ?_⟩
  rw [Defect.classified_iff]
  decide

end Covenant.Contract
