import Covenant.Contract.DocumentText
import Covenant.Proofs.Outcome

/-!
# Programs and documents

A document may leave out the namespace of a nested declaration, which is then that of the declaration around it
(`Declaration.within`).  A program can be written if its constants are texts or integers of 64 bits
(`exists_toDocument`), and reads as the program with its namespaces filled in (`toDeclarations_of_toDocs`).

The other way round, enumerations are read without three of the parts that only types have, and integers are read that
cannot be written.  `DeclarationDoc.toDoc_eq_completed_iff` says that nothing else is lost.
-/

namespace Covenant.Contract

open Outcome
open List
open Text

def DeclHead.within (h : DeclHead) (outer : String) : DeclHead :=
  { h with ns := if h.ns.isEmpty then outer else h.ns }

mutual

/-- The declaration inside a namespace, which it has if it states none, and so on for what is nested in it. -/
def Declaration.within (outer : String) : Declaration → Declaration
  | .enum h members => .enum (h.within outer) members
  | .type h body nested => .type (h.within outer) body (withinAll (h.within outer).ns nested)

def withinAll (outer : String) : List Declaration → List Declaration
  | [] => []
  | d :: ds => d.within outer :: withinAll outer ds

end

/-- The program with the version and the namespaces that a document may leave out. -/
def Program.completed (p : Program) : Program :=
  { p with
    version := if p.version.isEmpty then defaultSchema else p.version
    declarations := withinAll "" p.declarations }

/-- The head with which a type is written. -/
def DocHead.ofType (h : DeclHead) (body : TypeBody) (constants : List ConstantDoc) : DocHead :=
  { docHeadOf "type" h with
    contract := if body.kind = .plain then "" else body.kind.name
    typeParameters := body.typeParameters, baseTypes := body.baseTypes, fields := body.fields, constants
    result := body.result }

variable {h : DocHead} {body : TypeBody}

private theorem Declaration.toDoc_type {h : DeclHead} {nested : List Declaration} {doc : DeclarationDoc} :
    (Declaration.type h body nested).toDoc = .ok doc ↔ ∃ constants docs,
      body.constants.mapM (·.toDoc) = .ok constants ∧
      toDocs nested = .ok docs ∧ doc = .mk (.ofType h body constants) docs := by
  simp only [toDoc, bind_eq_ok, pure_eq_ok]
  constructor
  · rintro ⟨constants, hconstants, docs, hdocs, rfl⟩
    exact ⟨constants, docs, hconstants, hdocs, rfl⟩
  · rintro ⟨constants, docs, hconstants, hdocs, rfl⟩
    exact ⟨constants, hconstants, docs, hdocs, rfl⟩

private theorem toDocs_cons {d : Declaration} {ds : List Declaration} {docs : List DeclarationDoc} :
    toDocs (d :: ds) = .ok docs ↔ ∃ doc docs', d.toDoc = .ok doc ∧ toDocs ds = .ok docs' ∧ docs = doc :: docs' := by
  simp only [toDocs, bind_eq_ok, pure_eq_ok]
  constructor
  · rintro ⟨doc, hdoc, docs, hdocs, rfl⟩
    exact ⟨doc, docs, hdoc, hdocs, rfl⟩
  · rintro ⟨doc, docs, hdoc, hdocs, rfl⟩
    exact ⟨doc, hdoc, docs, hdocs, rfl⟩

private theorem DocHead.toTypeBody_eq_ok {decl : String} :
    h.toTypeBody decl = .ok body ↔ Kind.ofName? h.contract = some body.kind ∧ h.members = [] ∧
      h.constants.mapM (·.toConstant decl) = .ok body.constants ∧ h.typeParameters = body.typeParameters ∧
      h.baseTypes = body.baseTypes ∧ h.fields = body.fields ∧ h.result = body.result := by
  obtain ⟨kind, params, bases, fields, constants, result⟩ := body
  rw [toTypeBody]
  cases Kind.ofName? h.contract with
  | none => simp
  | some k =>
    by_cases hmembers : h.members = []
    · simp only [hmembers, isEmpty_nil, Bool.not_true, Bool.false_eq_true, ↓reduceIte, bind_eq_ok, pure_eq_ok]
      constructor
      · rintro ⟨cs, hcs, heq⟩
        cases heq
        exact ⟨rfl, trivial, hcs, rfl, rfl, rfl, rfl⟩
      · rintro ⟨hkind, _, hcs, rfl, rfl, rfl, rfl⟩
        cases hkind
        exact ⟨constants, hcs, rfl⟩
    · simp [hmembers]

private theorem DeclarationDoc.toDeclaration_eq_ok {nested : List DeclarationDoc} {outer : String}
    {d : Declaration} : (DeclarationDoc.mk h nested).toDeclaration outer = .ok d ↔
      (h.kind = "enum" ∧ h.hasTypeParts nested = false ∧ d = .enum (h.declHead outer) h.members) ∨
      ((h.kind = "type" ∨ h.kind = "") ∧ ∃ body ds, h.toTypeBody (qualify (h.nsWithin outer) h.name) = .ok body ∧
        toDeclarations (h.nsWithin outer) nested = .ok ds ∧ d = .type (h.declHead outer) body ds) := by
  rw [toDeclaration]
  by_cases henum : h.kind = "enum"
  · rw [if_pos henum]
    cases h.hasTypeParts nested with
    | false => simp [henum, eq_comm (a := d)]
    | true => simp [henum]
  · by_cases htype : h.kind = "type" ∨ h.kind = ""
    · simp only [henum, htype, ↓reduceIte, bind_eq_ok, pure_eq_ok, false_and, false_or, true_and]
      constructor
      · rintro ⟨body, hbody, ds, hds, rfl⟩
        exact ⟨body, ds, hbody, hds, rfl⟩
      · rintro ⟨body, ds, hbody, hds, rfl⟩
        exact ⟨body, hbody, ds, hds, rfl⟩
    · simp [henum, htype]

/-- Texts and integers of 64 bits can be written. -/
def Constant.Writable (c : Constant) : Prop :=
  (∃ s, c.value = some (.string s)) ∨ ∃ n, c.value = some (.int n) ∧ Number.isInt64 n = true

private theorem Constant.exists_toDoc {c : Constant} : (∃ doc, c.toDoc = .ok doc) ↔ c.Writable := by
  rw [toDoc, Writable]
  rcases c.value with _ | n | s | digits | b
  · simp
  · by_cases hn : Number.isInt64 n = true <;> simp [hn]
  · simp
  · simp
  · simp

def Declaration.Writable (d : Declaration) : Prop := ∀ body, d.body? = some body → ∀ c ∈ body.constants, c.Writable

mutual

private theorem Declaration.exists_toDoc (parents : List Declaration) :
    ∀ d : Declaration, (∃ doc, d.toDoc = .ok doc) ↔ ∀ v ∈ d.visits parents, v.decl.Writable
  | .enum h members => by simp [Declaration.toDoc, Declaration.visits, Declaration.Writable, Declaration.body?]
  | .type h body nested => by
    have hself : (Declaration.type h body nested).Writable ↔ ∃ docs, body.constants.mapM (·.toDoc) = .ok docs := by
      simp [Declaration.Writable, Declaration.body?, exists_mapM_eq_ok, Constant.exists_toDoc]
    rw [Declaration.visits, forall_mem_cons, hself, ← exists_toDocs _ nested]
    simp only [Declaration.toDoc_type]
    constructor
    · rintro ⟨_, constants, docs, hconstants, hdocs, _⟩
      exact ⟨⟨constants, hconstants⟩, docs, hdocs⟩
    · rintro ⟨⟨constants, hconstants⟩, docs, hdocs⟩
      exact ⟨_, constants, docs, hconstants, hdocs, rfl⟩

private theorem exists_toDocs (parents : List Declaration) :
    ∀ ds : List Declaration, (∃ docs, toDocs ds = .ok docs) ↔ ∀ v ∈ visitsOf parents ds, v.decl.Writable
  | [] => by simp [toDocs, visitsOf]
  | d :: ds => by
    rw [visitsOf, forall_mem_append, ← d.exists_toDoc parents, ← exists_toDocs parents ds]
    simp only [toDocs_cons]
    constructor
    · rintro ⟨_, doc, docs, hdoc, hdocs, _⟩
      exact ⟨⟨doc, hdoc⟩, docs, hdocs⟩
    · rintro ⟨⟨doc, hdoc⟩, docs, hdocs⟩
      exact ⟨_, doc, docs, hdoc, hdocs, rfl⟩

end

theorem Program.toDocument_eq_ok {p : Program} {doc : Document} :
    p.toDocument = .ok doc ↔ ∃ docs, toDocs p.declarations = .ok docs ∧
      doc = { version := p.version, name := p.name, aliases := p.aliases, declarations := docs } := by
  rw [toDocument, bind_eq_ok]
  exact exists_congr fun _ => and_congr_right fun _ => pure_eq_ok.trans eq_comm

/-- A program can be written just if all its constants can. -/
theorem Program.exists_toDocument {p : Program} :
    (∃ doc, p.toDocument = .ok doc) ↔ ∀ v ∈ p.visits, v.decl.Writable := by
  rw [visits, ← exists_toDocs]
  simp only [toDocument_eq_ok]
  exact ⟨fun ⟨_, docs, hdocs, _⟩ => ⟨docs, hdocs⟩, fun ⟨docs, hdocs⟩ => ⟨_, docs, hdocs, rfl⟩⟩

private theorem Kind.ofName?_name {k : Kind} (h : k ≠ .unknown) :
    Kind.ofName? (if k = .plain then "" else k.name) = some k := by
  cases k with
  | unknown => exact absurd rfl h
  | _ => decide +kernel

private theorem Constant.toConstant_of_toDoc {c : Constant} {doc : ConstantDoc} (h : c.toDoc = .ok doc)
    (owner : String) :
    doc.toConstant owner = .ok c := by
  obtain ⟨name, value⟩ := c
  rcases value with _ | n | s | digits | b
  · cases h
  · simp only [toDoc] at h
    split at h
    · cases h
      rfl
    · cases h
  · cases h
    rfl
  · cases h
  · cases h

mutual

private theorem Declaration.toDeclaration_of_toDoc (parents : List Declaration) (outer : String) :
    ∀ (d : Declaration) {doc : DeclarationDoc}, d.toDoc = .ok doc →
      (∀ v ∈ d.visits parents, v.decl.kind? ≠ some .unknown) → doc.toDeclaration outer = .ok (d.within outer)
  | .enum h members, doc, hdoc, _ => by
    cases hdoc
    rfl
  | .type h body nested, doc, hdoc, hkinds => by
    rw [Declaration.visits, forall_mem_cons] at hkinds
    obtain ⟨constants, docs, hconstants, hdocs, rfl⟩ := Declaration.toDoc_type.1 hdoc
    have hkind := Kind.ofName?_name fun h => hkinds.1 (congrArg some h)
    have hnested := toDeclarations_of_toDocs _ (h.within outer).ns nested hdocs hkinds.2
    refine DeclarationDoc.toDeclaration_eq_ok.2 (.inr ⟨.inl rfl, body, _, ?_, hnested, rfl⟩)
    refine DocHead.toTypeBody_eq_ok.2 ⟨hkind, rfl, ?_, rfl, rfl, rfl, rfl⟩
    rw [mapM_eq_ok] at hconstants ⊢
    exact hconstants.flip.imp fun _ _ hdoc => Constant.toConstant_of_toDoc hdoc _

/-- Declarations that are written are read with their namespaces filled in. -/
theorem toDeclarations_of_toDocs (parents : List Declaration) (outer : String) :
    ∀ (ds : List Declaration) {docs : List DeclarationDoc}, toDocs ds = .ok docs →
      (∀ v ∈ visitsOf parents ds, v.decl.kind? ≠ some .unknown) → toDeclarations outer docs = .ok (withinAll outer ds)
  | [], docs, hdocs, _ => by
    cases hdocs
    rfl
  | d :: ds, docs, hdocs, hkinds => by
    rw [visitsOf, forall_mem_append] at hkinds
    obtain ⟨doc, docs', hdoc, hdocs', rfl⟩ := toDocs_cons.1 hdocs
    rw [toDeclarations, d.toDeclaration_of_toDoc parents outer hdoc hkinds.1,
      toDeclarations_of_toDocs parents outer ds hdocs' hkinds.2]
    rfl

end

/-- The name with which a contract is written: in lower case, and none for plain types. -/
def contractName (given : String) : String :=
  if equalFold "plain" given then ""
  else (["command", "query", "operation"].find? fun name => equalFold name given).getD given

private theorem contractName_of_ofName? {given : String} {k : Kind} (h : Kind.ofName? given = some k) :
    contractName given = if k = .plain then "" else k.name := by
  rw [Kind.ofName?] at h
  split at h
  · -- No name is that of a plain type too.
    rename_i hempty
    cases h
    rw [String.isEmpty_iff.1 hempty]
    decide +kernel
  · rw [contractName]
    simp only [Kind.declared, Kind.name, find?_cons, find?_nil] at h ⊢
    revert h
    cases equalFold "plain" given with
    | true =>
      rintro ⟨⟩
      rfl
    | false =>
      cases equalFold "command" given with
      | true =>
        rintro ⟨⟩
        rfl
      | false =>
        cases equalFold "query" given with
        | true =>
          rintro ⟨⟩
          rfl
        | false =>
          cases equalFold "operation" given with
          | true =>
            rintro ⟨⟩
            rfl
          | false => exact nofun

namespace DocHead

/-- The head with all that may be left out or spelled in another way. -/
def completed (outer : String) (h : DocHead) : DocHead :=
  { h with
    kind := if h.kind = "" then "type" else h.kind
    ns := if h.ns.isEmpty then outer else h.ns
    contract := contractName h.contract }

/-- The head without the parts that an enumeration is read without. -/
def asRead (h : DocHead) : DocHead :=
  if h.kind = "enum" then { h with typeParameters := [], baseTypes := [], constants := [] } else h

/-- The integers among the constants of a type have 64 bits. -/
def Writable (h : DocHead) : Prop :=
  h.kind ≠ "enum" → ∀ c ∈ h.constants, ∀ n, c.value = .int n → Number.isInt64 n = true

/-- An enumeration has no parts that it is read without. -/
def Bare (h : DocHead) : Prop := h.kind = "enum" → h.typeParameters = [] ∧ h.baseTypes = [] ∧ h.constants = []

end DocHead

mutual

/-- The document with other heads, each of which may depend on the namespace around it. -/
def DeclarationDoc.recast (f : String → DocHead → DocHead) (outer : String) : DeclarationDoc → DeclarationDoc
  | .mk h nested => .mk (f outer h) (recastDocs f (if h.ns.isEmpty then outer else h.ns) nested)

def recastDocs (f : String → DocHead → DocHead) (outer : String) : List DeclarationDoc → List DeclarationDoc
  | [] => []
  | d :: ds => d.recast f outer :: recastDocs f outer ds

end

mutual

def DeclarationDoc.heads : DeclarationDoc → List DocHead
  | .mk h nested => h :: headsOf nested

def headsOf : List DeclarationDoc → List DocHead
  | [] => []
  | d :: ds => d.heads ++ headsOf ds

end

/-- The document with everything spelled out that may be left out. -/
def DeclarationDoc.completed (outer : String) (doc : DeclarationDoc) : DeclarationDoc :=
  doc.recast DocHead.completed outer

/-- The same without the parts that enumerations are read without. -/
def DeclarationDoc.asRead (outer : String) (doc : DeclarationDoc) : DeclarationDoc :=
  doc.recast (fun outer h => h.asRead.completed outer) outer

private theorem ConstantDoc.toDoc_of_toConstant {c c' : ConstantDoc} {k : Constant} {owner : String}
    (h : c.toConstant owner = .ok k) :
    k.toDoc = .ok c' ↔ (∀ n, c.value = .int n → Number.isInt64 n = true) ∧ c' = c := by
  obtain ⟨name, value⟩ := c
  cases value with
  | int n =>
    cases h
    by_cases hn : Number.isInt64 n = true <;> simp [Constant.toDoc, hn, eq_comm (a := c')]
  | text s =>
    cases h
    simp [Constant.toDoc, eq_comm (a := c')]
  | other type => cases h

private theorem mapM_toDoc_of_toConstant {cs docs : List ConstantDoc} {ks : List Constant} {owner : String}
    (h : cs.mapM (·.toConstant owner) = .ok ks) :
    ks.mapM (·.toDoc) = .ok docs ↔ (∀ c ∈ cs, ∀ n, c.value = .int n → Number.isInt64 n = true) ∧ docs = cs := by
  rw [mapM_eq_ok] at h ⊢
  induction h generalizing docs with
  | nil => simp
  | cons hc _ ih =>
    simp only [forall₂_cons_left_iff, ih, ConstantDoc.toDoc_of_toConstant hc, forall_mem_cons]
    constructor
    · rintro ⟨_, _, ⟨hfits, rfl⟩, ⟨hall, rfl⟩, rfl⟩
      exact ⟨⟨hfits, hall⟩, rfl⟩
    · rintro ⟨⟨hfits, hall⟩, rfl⟩
      exact ⟨_, _, ⟨hfits, rfl⟩, ⟨hall, rfl⟩, rfl⟩

private theorem DocHead.enum_eq_asRead (outer : String) {nested : List DeclarationDoc} (hkind : h.kind = "enum")
    (hparts : h.hasTypeParts nested = false) :
    { docHeadOf "enum" (h.declHead outer) with members := h.members } = h.asRead.completed outer ∧ nested = [] := by
  obtain ⟨kind, ns, name, contract, excluded, params, bases, fields, constants, result, members⟩ := h
  subst hkind
  simp only [hasTypeParts, Bool.or_eq_false_iff, Bool.not_eq_false', List.isEmpty_iff, String.isEmpty_iff,
    Option.isSome_eq_false_iff, Option.isNone_iff_eq_none] at hparts
  obtain ⟨⟨⟨rfl, rfl⟩, rfl⟩, rfl⟩ := hparts
  exact ⟨rfl, rfl⟩

private theorem DocHead.ofType_eq_asRead {decl outer : String}
    (hkind : h.kind = "type" ∨ h.kind = "") (hbody : h.toTypeBody decl = .ok body) :
    DocHead.ofType (h.declHead outer) body h.constants = h.asRead.completed outer := by
  obtain ⟨hcontract, hmembers, _, hparams, hbases, hfields, hresult⟩ := toTypeBody_eq_ok.1 hbody
  have hread : h.asRead = h := by
    rw [asRead, if_neg]
    rcases hkind with hkind | hkind <;> simp [hkind]
  have hname := contractName_of_ofName? hcontract
  have htype : (if h.kind = "" then "type" else h.kind) = "type" := by
    rcases hkind with hkind | hkind <;> simp [hkind]
  rw [hread, completed, htype, hname, ofType, docHeadOf, ← hparams, ← hbases, ← hfields, ← hresult]
  rw [hmembers]
  rfl

mutual

private theorem DeclarationDoc.toDoc_of_toDeclaration (outer : String) :
    ∀ (doc : DeclarationDoc) {d : Declaration} {doc' : DeclarationDoc}, doc.toDeclaration outer = .ok d →
      (d.toDoc = .ok doc' ↔ (∀ h ∈ doc.heads, h.Writable) ∧ doc' = doc.asRead outer)
  | .mk h nested, d, doc', hread => by
    rw [DeclarationDoc.heads, forall_mem_cons, DeclarationDoc.asRead, DeclarationDoc.recast]
    rcases DeclarationDoc.toDeclaration_eq_ok.1 hread with ⟨hkind, hparts, rfl⟩ | ⟨hkind, body, ds, hbody, hds, rfl⟩
    · -- The constants of an enumeration are not read, so they need not fit.
      obtain ⟨hhead, rfl⟩ := DocHead.enum_eq_asRead outer hkind hparts
      have hwritable : h.Writable := fun hne => absurd hkind hne
      rw [Declaration.toDoc, hhead]
      simp [hwritable, headsOf, recastDocs, eq_comm (a := doc')]
    · have hne : h.kind ≠ "enum" := by rcases hkind with hkind | hkind <;> simp [hkind]
      have hconstants := (DocHead.toTypeBody_eq_ok.1 hbody).2.2.1
      simp only [Declaration.toDoc_type, mapM_toDoc_of_toConstant hconstants, toDocs_of_toDeclarations _ nested hds]
      constructor
      · rintro ⟨_, _, ⟨hfits, rfl⟩, ⟨hall, rfl⟩, rfl⟩
        exact ⟨⟨fun _ => hfits, hall⟩, by rw [DocHead.ofType_eq_asRead hkind hbody, DocHead.nsWithin]⟩
      · rintro ⟨⟨hfits, hall⟩, rfl⟩
        exact ⟨_, _, ⟨hfits hne, rfl⟩, ⟨hall, rfl⟩, by rw [DocHead.ofType_eq_asRead hkind hbody, DocHead.nsWithin]⟩

private theorem toDocs_of_toDeclarations (outer : String) :
    ∀ (docs : List DeclarationDoc) {ds : List Declaration} {docs' : List DeclarationDoc},
      toDeclarations outer docs = .ok ds → (toDocs ds = .ok docs' ↔
        (∀ h ∈ headsOf docs, h.Writable) ∧
          docs' = recastDocs (fun outer h => h.asRead.completed outer) outer docs)
  | [], ds, docs', hread => by
    cases hread
    simp [toDocs, headsOf, recastDocs, eq_comm]
  | doc :: docs, ds, docs', hread => by
    simp only [toDeclarations, bind_eq_ok, pure_eq_ok] at hread
    obtain ⟨d, hd, ds, hds, rfl⟩ := hread
    rw [toDocs_cons, headsOf, forall_mem_append, recastDocs]
    simp only [doc.toDoc_of_toDeclaration outer hd, toDocs_of_toDeclarations outer docs hds]
    constructor
    · rintro ⟨_, _, ⟨hwritable, rfl⟩, ⟨hall, rfl⟩, rfl⟩
      exact ⟨⟨hwritable, hall⟩, rfl⟩
    · rintro ⟨⟨hwritable, hall⟩, rfl⟩
      exact ⟨_, _, ⟨hwritable, rfl⟩, ⟨hall, rfl⟩, rfl⟩

end

private theorem DocHead.asRead_completed_eq (outer : String) :
    h.asRead.completed outer = h.completed outer ↔ h.Bare := by
  rw [Bare, asRead]
  by_cases hkind : h.kind = "enum"
  · rw [if_pos hkind]
    constructor
    · intro h _
      exact ⟨(congrArg typeParameters h).symm, (congrArg baseTypes h).symm, (congrArg constants h).symm⟩
    · intro h
      obtain ⟨hparams, hbases, hconstants⟩ := h hkind
      rw [← hparams, ← hbases, ← hconstants]
  · simp [hkind]

mutual

private theorem DeclarationDoc.asRead_eq_completed (outer : String) :
    ∀ doc : DeclarationDoc, doc.asRead outer = doc.completed outer ↔ ∀ h ∈ doc.heads, h.Bare
  | .mk h nested => by
    rw [DeclarationDoc.heads, forall_mem_cons, ← DocHead.asRead_completed_eq outer,
      ← recastDocs_asRead_eq (if h.ns.isEmpty then outer else h.ns) nested, DeclarationDoc.asRead,
      DeclarationDoc.completed, DeclarationDoc.recast, DeclarationDoc.recast, DeclarationDoc.mk.injEq]

private theorem recastDocs_asRead_eq (outer : String) :
    ∀ docs : List DeclarationDoc, recastDocs (fun outer h => h.asRead.completed outer) outer docs =
      recastDocs DocHead.completed outer docs ↔ ∀ h ∈ headsOf docs, h.Bare
  | [] => by simp [recastDocs, headsOf]
  | doc :: docs => by
    rw [headsOf, forall_mem_append, ← doc.asRead_eq_completed outer, ← recastDocs_asRead_eq outer docs,
      recastDocs, recastDocs, cons.injEq]
    rfl

end

/-- A document that is read can be written if the integers of its types have 64 bits.  It is written back with nothing
lost but what its enumerations are read without; other parts of a type are not read in an enumeration. -/
theorem DeclarationDoc.toDoc_eq_completed_iff {doc : DeclarationDoc} {outer : String} {d : Declaration}
    (h : doc.toDeclaration outer = .ok d) :
    ((∃ doc', d.toDoc = .ok doc') ↔ ∀ head ∈ doc.heads, head.Writable) ∧
      (d.toDoc = .ok (doc.completed outer) ↔ ∀ head ∈ doc.heads, head.Writable ∧ head.Bare) ∧
      (∀ doc', d.toDoc = .ok doc' → doc' = doc.asRead outer) ∧
      ∀ head nested, doc = .mk head nested → head.kind = "enum" →
        head.contract = "" ∧ head.fields = [] ∧ nested = [] ∧ head.result = none := by
  refine ⟨?_, ?_, fun doc' hdoc => ((doc.toDoc_of_toDeclaration outer h).1 hdoc).2, ?_⟩
  · simp [doc.toDoc_of_toDeclaration outer h]
  · rw [doc.toDoc_of_toDeclaration outer h, eq_comm, doc.asRead_eq_completed outer]
    exact forall₂_and.symm
  · rintro head nested rfl hkind
    rcases toDeclaration_eq_ok.1 h with ⟨_, hparts, _⟩ | ⟨hkind', _⟩
    · simpa [DocHead.hasTypeParts, and_assoc] using hparts
    · rcases hkind' with hkind' | hkind' <;> simp [hkind] at hkind'

/-- A ticket with a state, written with what may be left out or spelled in another way. -/
def ticketDoc : DeclarationDoc :=
  .mk { name := "Ticket", contract := "Query", constants := [{ name := "Last", value := .int 9223372036854775807 }],
        result := some (.named "int") }
    [.mk { kind := "enum", name := "State", members := [some { name := "Open", value := 1 }] } []]

def ticket : Declaration :=
  .type { ns := "Desk", name := "Ticket" }
    { kind := .query, constants := [{ name := "Last", value := some (.int 9223372036854775807) }],
      result := some (.named "int") }
    [.enum { ns := "Desk", name := "State" } [some { name := "Open", value := 1 }]]

/-- The ticket is read and written with everything spelled out. -/
theorem DeclarationDoc.toDoc_eq_completed_ticket :
    ticketDoc.toDeclaration "Desk" = .ok ticket ∧ ticket.toDoc = .ok (ticketDoc.completed "Desk") := by
  have hread : ticketDoc.toDeclaration "Desk" = .ok ticket := rfl
  refine ⟨hread, (toDoc_eq_completed_iff hread).2.1.2 ?_⟩
  simp [ticketDoc, heads, headsOf, DocHead.Writable, DocHead.Bare, Number.isInt64, Number.int64Bound]

/-- An enumeration that has a constant. -/
def stateDoc : DeclarationDoc :=
  .mk { kind := "enum", name := "State", constants := [{ name := "Count", value := .int 1 }],
        members := [some { name := "Open", value := 1 }] } []

/-- A type with the largest constant of 64 bits without a sign. -/
def limitsDoc : DeclarationDoc :=
  .mk { name := "Limits", constants := [{ name := "Top", value := .int 18446744073709551615 }] } []

/-- An enumeration is read with a constant and written back without it, and a constant is read that is not written. -/
theorem DeclarationDoc.constants_lost :
    (∃ d doc, stateDoc.toDeclaration "Desk" = .ok d ∧ d.toDoc = .ok doc ∧ doc ≠ stateDoc.completed "Desk") ∧
      ∃ d, limitsDoc.toDeclaration "Desk" = .ok d ∧ d.toDoc = .error (.tooLarge "Top") := by
  refine ⟨⟨_, _, rfl, rfl, fun h => ?_⟩, _, rfl, rfl⟩
  have hhead : ∀ {h h' : DocHead} {ds ds' : List DeclarationDoc}, DeclarationDoc.mk h ds = .mk h' ds' →
      h.constants = h'.constants := fun h => congrArg _ (DeclarationDoc.mk.inj h).1
  cases hhead h

end Covenant.Contract
