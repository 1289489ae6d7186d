import Covenant.Proofs.Binding.Reading
import Covenant.Proofs.Contract.Validation

/-!
# Well-formed programs

What makes a program well formed is said here at once for all its declarations, without an order of checks and without
anything seen before.  Validation accepts exactly the well-formed programs (`Program.validate_eq_ok_iff`).
-/

namespace Covenant.Contract

open Outcome
open Text
open List

/-- The head of a reference fits the number of its arguments. -/
structure RefHead.Fits (h : RefHead) (count : Nat) : Prop where
  notBoth : ¬(h.isList = true ∧ h.isDictionary = true)
  list : h.isList = true → count = 1
  dictionary : h.isDictionary = true → count = 2
  named : h.isList = false → h.isDictionary = false → h.name ≠ ""

/-- At every depth the head fits the arguments, and these are all there. -/
inductive TypeRef.WellFormed : TypeRef → Prop
  | mk {h : RefHead} {as : List (Option TypeRef)} : h.Fits as.length → none ∉ as →
      (∀ r, some r ∈ as → r.WellFormed) → WellFormed (.mk h as)

def RefsWellFormed (rs : List (Option TypeRef)) : Prop := none ∉ rs ∧ ∀ r, some r ∈ rs → r.WellFormed

private theorem refDefect?_eq_none {h : RefHead} {ref : String} {count : Nat} :
    refDefect? h ref count = none ↔ h.Fits count := by
  unfold refDefect?
  constructor
  · intro hnone
    constructor <;> grind [String.isEmpty_iff]
  · rintro ⟨hboth, hlist, hdictionary, hnamed⟩
    grind [String.isEmpty_iff]

private theorem checkArguments_eq_ok {site : String} {as : List (Option TypeRef)} :
    checkArguments site as = .ok () ↔ none ∉ as ∧ ∀ r, some r ∈ as → checkRef site r = .ok () := by
  induction as with
  | nil => simp [checkArguments]
  | cons a as ih =>
    cases a with
    | none => simp [checkArguments]
    | some r =>
      simp only [checkArguments, check_eq_ok, ih, mem_cons, Option.some.injEq, reduceCtorEq, false_or]
      constructor
      · rintro ⟨hr, hpresent, has⟩
        exact ⟨hpresent, fun r' h => h.elim (fun h => h ▸ hr) (has r')⟩
      · rintro ⟨hpresent, has⟩
        exact ⟨has r (.inl rfl), hpresent, fun r' h => has r' (.inr h)⟩

private theorem checkRef_eq_ok {site : String} {r : TypeRef} : checkRef site r = .ok () ↔ r.WellFormed := by
  induction r using TypeRef.inductArguments with
  | step h as ih =>
    have hcheck : checkRef site (.mk h as) = .ok () ↔
        refDefect? h (TypeRef.mk h as).text as.length = none ∧ checkArguments site as = .ok () := by
      rw [checkRef]
      cases refDefect? h (TypeRef.mk h as).text as.length <;> simp
    rw [hcheck, refDefect?_eq_none, checkArguments_eq_ok]
    constructor
    · rintro ⟨hfits, hpresent, has⟩
      exact .mk hfits hpresent fun r hr => (ih r hr).1 (has r hr)
    · rintro ⟨hfits, hpresent, has⟩
      exact ⟨hfits, hpresent, fun r hr => (ih r hr).2 (has r hr)⟩

private theorem checkRefs_eq_ok {site : String} {rs : List (Option TypeRef)} :
    checkRefs site rs = .ok () ↔ RefsWellFormed rs := by
  rw [checkRefs, checkArguments_eq_ok]
  exact and_congr_right fun _ => forall₂_congr fun _ _ => checkRef_eq_ok

private theorem checkEntries_seen {α : Type} {decl : String} {check : List α → α → Except Defect Unit}
    {fine : α → Prop} {apart : α → α → Prop}
    (h : ∀ seen a, check seen a = .ok () ↔ fine a ∧ ∀ b ∈ seen, apart b a) {seen : List α} {cs : List (Option α)} :
    checkEntries decl check seen cs = .ok () ↔ (∀ c ∈ cs, ∃ a, c = some a ∧ fine a) ∧
      (∀ b ∈ seen, ∀ a ∈ cs.filterMap id, apart b a) ∧ (cs.filterMap id).Pairwise apart := by
  induction cs generalizing seen with
  | nil => simp [checkEntries]
  | cons c cs ih =>
    cases c with
    | none => simp [checkEntries]
    | some a =>
      simp only [checkEntries, check_eq_ok, h, ih, forall_mem_cons, filterMap_cons, id_eq, Option.some.injEq,
        exists_eq_left', pairwise_cons]
      grind

private theorem checkEntries_eq_ok {α : Type} {decl : String} {check : List α → α → Except Defect Unit}
    (fine : α → Prop) (apart : α → α → Prop) (h : ∀ seen a, check seen a = .ok () ↔ fine a ∧ ∀ b ∈ seen, apart b a)
    {cs : List (Option α)} : checkEntries decl check [] cs = .ok () ↔
      (∀ c ∈ cs, ∃ a, c = some a ∧ fine a) ∧ (cs.filterMap id).Pairwise apart := by
  simp [checkEntries_seen h]

structure DeclHead.WellFormed (h : DeclHead) : Prop where
  name : isIdentifier h.name = true
  segments : h.ns ≠ "" → ∀ segment ∈ split '.' h.ns, isIdentifier segment = true

/-- What a type says itself.  The entries of its lists are all there. -/
structure TypeBody.WellFormed (b : TypeBody) : Prop where
  hasResult_iff : b.result.isSome = true ↔ b.kind = .query ∨ b.kind = .operation
  result : ∀ r, b.result = some r → r.WellFormed
  notGeneric : b.kind = .command ∨ b.kind = .query ∨ b.kind = .operation → b.typeParameters = []
  parameters : ∀ c ∈ b.typeParameters, ∃ p, c = some p ∧ isIdentifier p.name = true ∧ RefsWellFormed p.constraints
  parameterNames : b.parameterNames.Nodup
  baseTypes : RefsWellFormed b.baseTypes
  fields : ∀ c ∈ b.fields, ∃ f, c = some f ∧ f.name ≠ "" ∧ ∃ r, f.type = some r ∧ r.WellFormed
  fieldNames : ((b.fields.filterMap id).map (·.name)).Nodup
  constants : ∀ c ∈ b.constants, isIdentifier c.name = true ∧ c.value ≠ none
  constantNames : (b.constants.map (·.name)).Nodup

/-- The members of an enumeration, all of which are there. -/
structure MembersWellFormed (ms : List (Option EnumMember)) : Prop where
  members : ∀ c ∈ ms, ∃ m, c = some m ∧ isIdentifier m.name = true
  names : ((ms.filterMap id).map (·.name)).Nodup
  values : ((ms.filterMap id).map (·.value)).Nodup

/-- What a declaration says itself, whatever is around it or nested in it. -/
inductive Declaration.WellFormed : Declaration → Prop
  | enum {head : DeclHead} {members : List (Option EnumMember)} : head.WellFormed → MembersWellFormed members →
      WellFormed (.enum head members)
  | type {head : DeclHead} {body : TypeBody} {nested : List Declaration} : head.WellFormed → body.WellFormed →
      WellFormed (.type head body nested)

theorem Declaration.WellFormed.head {d : Declaration} (h : d.WellFormed) : d.head.WellFormed := by
  cases h <;> assumption

theorem Declaration.WellFormed.body {d : Declaration} (h : d.WellFormed) {body : TypeBody}
    (hbody : d.body? = some body) : body.WellFormed := by
  cases h with
  | enum _ _ => cases hbody
  | type _ h =>
    cases hbody
    exact h

section

variable {decl : String}

theorem badSegment?_eq_none {ns : String} :
    badSegment? ns = none ↔ (ns ≠ "" → ∀ segment ∈ split '.' ns, isIdentifier segment = true) := by
  unfold badSegment?
  by_cases hns : ns = ""
  · simp [hns]
  · rw [if_neg (by simpa using hns), find?_eq_none]
    simp [hns]

/-- The name is an identifier, and so is every segment of the namespace. -/
theorem checkNames_iff {head : DeclHead} :
    checkNames decl head = .ok () ↔ isIdentifier head.name = true ∧ badSegment? head.ns = none := by
  unfold checkNames
  cases isIdentifier head.name with
  | false => simp
  | true => cases badSegment? head.ns <;> simp

private theorem checkNames_eq_ok {head : DeclHead} : checkNames decl head = .ok () ↔ head.WellFormed := by
  rw [checkNames_iff, badSegment?_eq_none]
  exact ⟨fun ⟨hname, hns⟩ => ⟨hname, hns⟩, fun h => ⟨h.name, h.segments⟩⟩

private theorem checkResult_eq_ok {body : TypeBody} :
    checkResult decl body = .ok () ↔
      (body.result.isSome = true ↔ body.kind = .query ∨ body.kind = .operation) ∧
        ∀ r, body.result = some r → r.WellFormed := by
  have hkind : body.kind.hasResult = true ↔ body.kind = .query ∨ body.kind = .operation := by
    cases body.kind <;> simp [Kind.hasResult]
  rw [checkResult, ← hkind]
  cases body.kind.hasResult <;> cases body.result <;> simp [checkRef_eq_ok]

theorem checkParameters_eq_ok {ps : List (Option TypeParameter)} :
    checkEntries decl (checkParameter decl) [] ps = .ok () ↔
      (∀ c ∈ ps, ∃ p, c = some p ∧ isIdentifier p.name = true ∧ RefsWellFormed p.constraints) ∧
        ((ps.filterMap id).map (·.name)).Nodup := by
  rw [Nodup, pairwise_map]
  refine checkEntries_eq_ok _ _ fun seen p => ?_
  simp only [checkParameter, throwIf_eq_ok, checkRefs_eq_ok]
  simp [and_assoc]
  exact fun _ => and_comm

private theorem checkFields_eq_ok {fs : List (Option Field)} :
    checkEntries decl (checkField decl) [] fs = .ok () ↔
      (∀ c ∈ fs, ∃ f, c = some f ∧ f.name ≠ "" ∧ ∃ r, f.type = some r ∧ r.WellFormed) ∧
        ((fs.filterMap id).map (·.name)).Nodup := by
  rw [Nodup, pairwise_map]
  refine checkEntries_eq_ok _ _ fun seen f => ?_
  simp only [checkField, throwIf_eq_ok, checkRefs_eq_ok, RefsWellFormed]
  cases f.type with
  | none => simp
  | some r =>
    simp [and_assoc]
    exact fun _ => and_comm

private theorem checkConstants_eq_ok {cs : List Constant} :
    checkEntries decl (checkConstant decl) [] (cs.map some) = .ok () ↔
      (∀ c ∈ cs, isIdentifier c.name = true ∧ c.value ≠ none) ∧ (cs.map (·.name)).Nodup := by
  rw [Nodup, pairwise_map, checkEntries_eq_ok (fun c => isIdentifier c.name = true ∧ c.value ≠ none)
    (fun c d => c.name ≠ d.name)]
  · simp
  · intro seen c
    simp only [checkConstant, throwIf_eq_ok]
    cases c.value <;> simp [pure_eq_ok]

private theorem checkMembers_eq_ok {ms : List (Option EnumMember)} :
    checkEntries decl (checkMember decl) [] ms = .ok () ↔ MembersWellFormed ms := by
  rw [checkEntries_eq_ok (fun m => isIdentifier m.name = true) (fun m n => m.name ≠ n.name ∧ m.value ≠ n.value),
    pairwise_and_iff]
  · exact ⟨fun ⟨hms, hnames, hvalues⟩ => ⟨hms, pairwise_map.2 hnames, pairwise_map.2 hvalues⟩,
      fun h => ⟨h.members, pairwise_map.1 h.names, pairwise_map.1 h.values⟩⟩
  · intro seen m
    rw [checkMember, throwIf_eq_ok]
    cases hfound : seen.find? (·.value == m.value) with
    | none =>
      have hnew : ∀ s ∈ seen, s.value ≠ m.value := by simpa using hfound
      simp +contextual [hnew, pure_eq_ok]
    | some other =>
      have hvalue : other.value = m.value := by simpa using find?_some hfound
      exact iff_of_false (fun h => throw_ne_ok h.2) fun h => (h.2 other (mem_of_find?_eq_some hfound)).2 hvalue

private theorem checkDeclaration_eq_ok {d : Declaration} : checkDeclaration decl d = .ok () ↔ d.WellFormed := by
  cases d with
  | enum head members =>
    rw [checkDeclaration, check_eq_ok, checkNames_eq_ok, checkMembers_eq_ok]
    constructor
    · rintro ⟨hhead, hmembers⟩
      exact .enum hhead hmembers
    · rintro (⟨hhead, hmembers⟩ | _)
      exact ⟨hhead, hmembers⟩
  | type head body nested =>
    have hremote : (body.kind.isRemote && !body.typeParameters.isEmpty) = true ↔
        ¬(body.kind = .command ∨ body.kind = .query ∨ body.kind = .operation → body.typeParameters = []) := by
      cases body.kind <;> simp [Kind.isRemote]
    simp only [checkDeclaration, checkType, check_eq_ok, throwIf_eq_ok, hremote, not_not, checkNames_eq_ok,
      checkResult_eq_ok, checkParameters_eq_ok, checkRefs_eq_ok, checkFields_eq_ok, checkConstants_eq_ok]
    constructor
    · rintro ⟨hhead, ⟨hiff, hresult⟩, hgeneric, ⟨hparams, hparamNames⟩, hbases, ⟨hfields, hfieldNames⟩, hconstants,
        hconstantNames⟩
      exact .type hhead ⟨hiff, hresult, hgeneric, hparams, hparamNames, hbases, hfields, hfieldNames, hconstants,
        hconstantNames⟩
    · rintro (_ | ⟨hhead, hbody⟩)
      exact ⟨hhead, ⟨hbody.hasResult_iff, hbody.result⟩, hbody.notGeneric, ⟨hbody.parameters, hbody.parameterNames⟩,
        hbody.baseTypes, ⟨hbody.fields, hbody.fieldNames⟩, hbody.constants, hbody.constantNames⟩

end

/-- An alias that can be used verbatim as a wire name. -/
structure AliasPath (given : String) : Prop where
  nonempty : given ≠ ""
  start : given.toList.head? ≠ some '/'
  stop : given.toList.getLast? ≠ some '/'
  characters : ∀ c ∈ given.toList, Text.isBlank c = false ∧ isControl c = false ∧
    c ≠ '"' ∧ c ≠ '\'' ∧ c.toNat ≠ 0x60 ∧ c ≠ '\\'

/-- The rules that all declarations and aliases of a program keep together. -/
structure Program.WellFormed (p : Program) : Prop where
  name : isIdentifier p.name = true
  distinct : (p.visits.map (·.qualified)).Nodup
  /-- A nested declaration has the namespace of the one directly around it or none. -/
  enclosed : ∀ v ∈ p.visits, ∀ u, v.outer? = some u → v.decl.ns = "" ∨ v.decl.ns = u.decl.ns
  declarations : ∀ v ∈ p.visits, v.decl.WellFormed
  /-- Only commands, queries and operations have aliases. -/
  aliased : ∀ q ∈ p.aliasKeys, ∃ v ∈ p.visits, v.qualified = q ∧ v.decl.isRemote = true
  aliasPaths : ∀ q, ∀ a ∈ p.aliasesOf q, AliasPath a
  aliasesDistinct : (p.aliasKeys.flatMap p.aliasesOf).Nodup
  /-- No alias is the wire name of a command, query or operation. -/
  aliasesFree : ∀ q, ∀ a ∈ p.aliasesOf q, ∀ v ∈ p.visits, v.decl.isRemote = true → a ≠ v.qualified

private theorem aliasDefect?_eq_none {given : String} : aliasDefect? given = none ↔ AliasPath given := by
  have hstart : hasPrefix "/" given = true ↔ given.toList.head? = some '/' := by
    rw [hasPrefix, isPrefixOf_iff_prefix]
    cases given.toList with
    | nil => simp
    | cons c cs => simp [eq_comm]
  have hstop : hasSuffix "/" given = true ↔ given.toList.getLast? = some '/' := by
    rw [hasSuffix, isSuffixOf_iff_suffix, getLast?_eq_some_iff]
    exact exists_congr fun _ => eq_comm
  have hcharacters : given.toList.find? isAliasBreaker = none ↔ ∀ c ∈ given.toList, Text.isBlank c = false ∧
      isControl c = false ∧ c ≠ '"' ∧ c ≠ '\'' ∧ c.toNat ≠ 0x60 ∧ c ≠ '\\' := by
    rw [find?_eq_none]
    simp [isAliasBreaker, and_assoc]
  have hdefect : aliasDefect? given = none ↔ ¬given.isEmpty = true ∧
      ¬(hasPrefix "/" given || hasSuffix "/" given) = true ∧
        given.toList.find? isAliasBreaker = none := by
    unfold aliasDefect?
    split
    · simp_all
    · split <;> simp_all
  rw [hdefect, Bool.or_eq_true, not_or, hstart, hstop, hcharacters, String.isEmpty_iff]
  constructor
  · rintro ⟨hempty, ⟨hstart, hstop⟩, hcs⟩
    exact ⟨hempty, hstart, hstop, hcs⟩
  · intro h
    exact ⟨h.nonempty, ⟨h.start, h.stop⟩, h.characters⟩

theorem checkEnclosing_eq_ok {v : Visit} :
    checkEnclosing v = .ok () ↔ ∀ u, v.outer? = some u → v.decl.ns = "" ∨ v.decl.ns = u.decl.ns := by
  rw [checkEnclosing, Visit.parent?, Visit.outer?]
  cases v.parents.getLast? with
  | none => simp
  | some d => simp [or_iff_not_imp_left]

/-- A declaration passes if it agrees with what is around it and is well formed. -/
theorem Visit.checked_iff {v : Visit} :
    v.Checked ↔ (∀ u, v.outer? = some u → v.decl.ns = "" ∨ v.decl.ns = u.decl.ns) ∧ v.decl.WellFormed := by
  rw [Checked, checkEnclosing_eq_ok, checkDeclaration_eq_ok]

section

variable {p : Program}

private theorem Program.visit?_eq_some (hd : p.DistinctNames) {q : String} {v : Visit} :
    p.visit? q = some v ↔ v ∈ p.visits ∧ v.qualified = q := by
  have hd' : (p.visits.reverse.map (·.qualified)).Nodup := by
    rw [map_reverse]
    exact nodup_reverse.2 hd
  rw [visit?, find?_key_eq_some hd', mem_reverse]

private theorem Program.mem_remoteNames (hd : p.DistinctNames) {q : String} :
    q ∈ p.remoteNames.map (·.1) ↔ ∃ v ∈ p.visits, v.qualified = q ∧ v.decl.isRemote = true := by
  have hmem : q ∈ p.remoteNames.map (·.1) ↔ q ∈ p.qualifiedNames ∧ (p.visit? q).any (·.decl.isRemote) = true := by
    rw [remoteNames, map_filterMap]
    simp only [mem_filterMap]
    constructor
    · rintro ⟨q', hq', heq⟩
      split at heq
      · cases heq
        exact ⟨hq', ‹_›⟩
      · cases heq
    · rintro ⟨hq, hremote⟩
      exact ⟨q, hq, by rw [if_pos hremote]; rfl⟩
  rw [hmem, Option.any_eq_true]
  constructor
  · rintro ⟨_, v, hv, hremote⟩
    obtain ⟨hv, hq⟩ := (visit?_eq_some hd).1 hv
    exact ⟨v, hv, hq, hremote⟩
  · rintro ⟨v, hv, hq, hremote⟩
    refine ⟨?_, v, (visit?_eq_some hd).2 ⟨hv, hq⟩, hremote⟩
    rw [qualifiedNames, mem_sortedSet]
    exact mem_map.2 ⟨v, hv, hq⟩

private theorem Program.forall_mem_aliases {P : String → Prop} :
    (∀ a ∈ p.aliasKeys.flatMap p.aliasesOf, P a) ↔ ∀ q, ∀ a ∈ p.aliasesOf q, P a := by
  constructor
  · intro h q a ha
    exact h a (mem_flatMap.2 ⟨q, mem_aliasKeys ha, ha⟩)
  · intro h a ha
    obtain ⟨q, _, ha⟩ := mem_flatMap.1 ha
    exact h q a ha

/-- Aliases belong to calls and are paths that nothing else is called under. -/
theorem Program.checkAliases_iff (hd : p.DistinctNames) :
    checkAliases p p.remoteNames p.aliasKeys = .ok () ↔
      (∀ q ∈ p.aliasKeys, ∃ v ∈ p.visits, v.qualified = q ∧ v.decl.isRemote = true) ∧
        (∀ q, ∀ a ∈ p.aliasesOf q, AliasPath a ∧ ∀ v ∈ p.visits, v.decl.isRemote = true → a ≠ v.qualified) ∧
        (p.aliasKeys.flatMap p.aliasesOf).Nodup := by
  rw [checkAliases_eq_ok, forall_mem_aliases]
  simp only [visit?_eq_some hd, mem_remoteNames hd, aliasDefect?_eq_none, and_assoc, not_exists, not_and]
  refine and_congr_right fun _ => and_congr_left fun _ => forall₃_congr fun _ a _ => and_congr_right fun _ => ?_
  exact ⟨fun h v hv hremote heq => h v hv heq.symm hremote, fun h v hv heq hremote => h v hv hremote heq.symm⟩

/-- Validation accepts exactly the well-formed programs. -/
theorem Program.validate_eq_ok_iff (p : Program) : p.validate = .ok () ↔ p.WellFormed := by
  rw [validate_eq_ok, checkVisits_eq_ok]
  constructor
  · rintro ⟨hname, ⟨hd, _, hchecked⟩, haliases⟩
    obtain ⟨hkeys, hpaths, hdistinct⟩ := (checkAliases_iff hd).1 haliases
    have hvisits := fun v hv => Visit.checked_iff.1 (hchecked v hv)
    exact ⟨hname, hd, fun v hv => (hvisits v hv).1, fun v hv => (hvisits v hv).2, hkeys,
      fun q a ha => (hpaths q a ha).1, hdistinct, fun q a ha => (hpaths q a ha).2⟩
  · intro h
    refine ⟨h.name, ⟨h.distinct, by simp, fun v hv => ?_⟩, (checkAliases_iff h.distinct).2 ⟨h.aliased, ?_, ?_⟩⟩
    · exact Visit.checked_iff.2 ⟨h.enclosed v hv, h.declarations v hv⟩
    · exact fun q a ha => ⟨h.aliasPaths q a ha, h.aliasesFree q a ha⟩
    · exact h.aliasesDistinct

end

end Covenant.Contract
