import Covenant.Proofs.Extract.Declarations

/-!
# References to declarations of the package

Every reference with a namespace is made for a record or an enumeration that the conversion of some type comes to
(`exists_madeFor`).  References are made by looking at a type alone, declarations by looking at its directives and its
constants too, so there are types that have references but no declaration.
-/

namespace Covenant.Extract

open Contract Source Relation Extraction
open List

private theorem Holds.of_orNull {r q : TypeRef} (h : Holds r.orNull q) : q = r.orNull ∨ Holds r q := by
  obtain ⟨head, arguments⟩ := r
  rcases h.cases_mk with rfl | ⟨a, ha, h⟩
  · exact .inl rfl
  · exact .inr (.argument ha h)

@[simp] theorem ns_orNull (r : TypeRef) : r.orNull.head.ns = r.head.ns := by cases r; rfl

@[simp] theorem name_orNull (r : TypeRef) : r.orNull.head.name = r.head.name := by cases r; rfl

@[simp] theorem orNull_orNull (r : TypeRef) : r.orNull.orNull = r.orNull := by cases r; rfl

/-- The program refers to something, in any declaration and at any depth. -/
def ProgramRefers (prog : Program) (q : TypeRef) : Prop :=
  ∃ v ∈ prog.visits, ∃ body, v.decl.body? = some body ∧ ∃ r, some r ∈ Site.refsOf body ∧ Holds r q

/-- A declaration of the program has the namespace and the name of the reference. -/
def NamesDeclaration (prog : Program) (q : TypeRef) : Prop :=
  ∃ decl ∈ prog.declarations, decl.ns = q.head.ns ∧ decl.name = q.head.name

namespace Site

variable {s : Site} {p : Package} {t u : SourceType} {r q : TypeRef}

/-- A type is a record or an enumeration that references go to by its name. -/
structure Denotes (s : Site) (u : SourceType) (name : TypeName) (arguments : List SourceType) : Prop where
  named : s.world.unalias u = .named name arguments
  exported : isExported name.name = true
  declarable : (∃ fields, s.world.underlying (.named name arguments) = .record fields) ∨
    s.world.isEnum name arguments = true

/-- What can be said of a plan: what is not taken apart is a bare name, what stands for another type changes nothing
but whether it may be null, and what is put together is a list, a dictionary or a reference to what the type denotes.
-/
def Fits (s : Site) (t : SourceType) : Plan → Prop
  | .answer result => ∀ r, result = .ok r → ∃ name, r = .named name
  | .follow _ build => build = id ∨ build = TypeRef.orNull
  | .compose head _ =>
    head.ns = "" ∨ ∃ path name arguments, name.home = some path ∧ s.Denotes t name arguments ∧
      head = s.headOf path name

private theorem fits_ok (name : String) : s.Fits t (.answer (.ok (.named name))) :=
  fun _ hr => ⟨name, (Except.ok.inj hr).symm⟩

private theorem fits_error (failure : Failure) : s.Fits t (.answer (.error failure)) := by
  intro r hr
  cases hr

private theorem fits_named {name : TypeName} {arguments : List SourceType}
    (h : s.world.unalias t = .named name arguments) :
    s.Fits t (s.namedPlan name arguments) := by
  unfold namedPlan
  split
  next => exact fits_ok _
  next => exact fits_ok _
  next path hhome hwire =>
    split
    next fields hfields =>
      split
      next hexported => exact .inr ⟨path, name, arguments, hhome, ⟨h, hexported, .inl ⟨fields, hfields⟩⟩, rfl⟩
      next => exact fits_error _
    next => exact fits_ok _
    next b hb =>
      split
      next henum =>
        rw [Bool.and_eq_true] at henum
        exact .inr ⟨path, name, arguments, hhome, ⟨h, henum.2, .inr henum.1⟩, rfl⟩
      next => exact .inl rfl
    next => exact .inl rfl

private theorem fits_of_plan {plan : Plan} (h : s.plan t = plan) : s.Fits t plan := by
  subst h
  unfold plan
  split
  next =>
    split
    next => exact fits_ok _
    next => exact fits_error _
  next => exact .inr rfl
  next =>
    split
    next => exact fits_ok _
    next => exact .inl rfl
  next =>
    split
    next => exact fits_ok _
    next => exact .inl rfl
  next => exact .inl rfl
  next => exact fits_ok _
  next => exact fits_ok _
  next h => exact fits_named h
  next => exact fits_error _

/-- Converting a type comes to one that the reference is made for, up to whether it may be null. -/
structure MadeFor (s : Site) (t : SourceType) (name : TypeName) (arguments : List SourceType) (q : TypeRef) :
    Prop where
  source : ∃ u r, ReflTransGen s.Calls t u ∧ s.Denotes u name arguments ∧ (s.ref u).Gives r ∧ (q = r ∨ q = r.orNull)
  head : ∃ path, name.home = some path ∧ q.head.ns = s.options.namespaceOf path ∧ q.head.name = name.name

namespace MadeFor

variable {name : TypeName} {arguments : List SourceType}

private theorem of_call (h : s.MadeFor u name arguments q) (hcall : s.Calls t u) : s.MadeFor t name arguments q := by
  obtain ⟨v, r, hreach, hrest⟩ := h.source
  exact ⟨⟨v, r, .head hcall hreach, hrest⟩, h.head⟩

private theorem orNull (h : s.MadeFor t name arguments q) : s.MadeFor t name arguments q.orNull := by
  obtain ⟨v, r, hreach, hdenotes, hgives, hq⟩ := h.source
  refine ⟨⟨v, r, hreach, hdenotes, hgives, .inr ?_⟩, by simpa using h.head⟩
  rcases hq with rfl | rfl <;> simp

end MadeFor

private theorem calls_of_forall₂ {head : RefHead} {parts : List Part} {refs : List TypeRef}
    (hplan : s.plan t = .compose head parts) (h : Forall₂ (fun part r => (s.ref part.type).Gives r) parts refs)
    {part : Part} (hpart : part ∈ parts) : s.Calls t part.type := by
  obtain ⟨before, after, rfl⟩ := append_of_mem hpart
  refine .part hplan fun other hother => ?_
  obtain ⟨r, -, hr⟩ := Outcome.exists_of_mem_right h.flip (mem_append_left _ hother)
  exact ⟨r, hr⟩

/-- A reference with a namespace is made for a type that conversion comes to. -/
theorem exists_madeFor (h : (s.ref t).Gives r) (hq : Holds r q) (hns : q.head.ns ≠ "") :
    ∃ name arguments, s.MadeFor t name arguments q := by
  -- the conversion ends, so the types it comes to can be gone through by induction
  have hgrounded := ends_iff_grounded.1 h.ends
  induction hgrounded generalizing r q with
  | intro t _ ih =>
    have hstep {u : SourceType} (hcall : s.Calls t u) {r : TypeRef} (hr : (s.ref u).Gives r) (hq : Holds r q) :
        ∃ name arguments, s.MadeFor t name arguments q := by
      obtain ⟨name, arguments, hmade⟩ := ih u hcall hr hq hns
      exact ⟨name, arguments, hmade.of_call hcall⟩
    rcases hplan : s.plan t with result | ⟨u, build⟩ | ⟨head, parts⟩
    · have hresult : some result = some (.ok r) := (ref_of_answer hplan).symm.trans h
      obtain ⟨name, rfl⟩ := fits_of_plan hplan r (Option.some.inj hresult)
      rcases hq.cases_mk with rfl | ⟨a, ha, -⟩
      · exact absurd rfl hns
      · cases ha
    · obtain ⟨r', hr', rfl⟩ := gives_map.1 (ref_of_follow hplan ▸ h)
      have hcall : s.Calls t u := .follow hplan
      rcases fits_of_plan hplan with rfl | rfl
      · exact hstep hcall hr' hq
      · rcases hq.of_orNull with rfl | hq
        · obtain ⟨name, arguments, hmade⟩ := ih u hcall hr' (.refl r') (by simpa using hns)
          exact ⟨name, arguments, hmade.orNull.of_call hcall⟩
        · exact hstep hcall hr' hq
    · obtain ⟨refs, hrefs, rfl⟩ := gives_map.1 (ref_of_compose hplan ▸ h)
      rw [gives_pieces] at hrefs
      rcases hq.cases_mk with rfl | ⟨a, ha, hq⟩
      · rcases fits_of_plan hplan with hlist | ⟨path, name, arguments, hhome, hdenotes, rfl⟩
        · exact absurd hlist hns
        · refine ⟨name, arguments, ⟨t, _, .refl, hdenotes, h, .inl rfl⟩, path, hhome, ?_, ?_⟩ <;>
            simp only [TypeRef.head, headOf]
      · obtain ⟨part, hpart, hgives⟩ := Outcome.exists_of_mem_right hrefs (by simpa using ha)
        exact hstep (calls_of_forall₂ hplan hrefs hpart) hgives hq

private theorem gives_member {name : String} (hexported : isExported name = true) (h : (s.ref t).Gives r) :
    (s.member ({ name }, t)).Gives ([], [some { name, type := some r }]) := by
  have hshown : wireName "" = .shown none := rfl
  simp only [member, hshown, hexported, if_true]
  exact gives_bind.2 ⟨r, gives_within.2 h, gives_pure.2 rfl⟩

private theorem gives_head {head : RefHead} (h : s.plan t = .compose head []) : (s.ref t).Gives (.mk head []) := by
  rw [ref_of_compose h]
  exact gives_map.2 ⟨[], gives_mapM.2 .nil, rfl⟩

private theorem gives_enum {name : TypeName} {path : String} {arguments : List SourceType}
    (hdenotes : s.Denotes t name arguments) (henum : s.world.isEnum name arguments = true)
    (hhome : name.home = some path) (hplain : wellKnown.lookup name = none) :
    (s.ref t).Gives (.mk (s.headOf path name) []) := by
  obtain ⟨b, hb⟩ := exists_basic_of_isEnum henum
  refine gives_head ?_
  simp only [plan, hdenotes.named, namedPlan, hhome, hplain, hb, henum, hdenotes.exported, Bool.and_self, if_true]

/-- The reference is made for the type in the course of extracting the package. -/
def Produces (s : Site) (p : Package) (name : TypeName) (arguments : List SourceType) (q : TypeRef) : Prop :=
  ∃ t, s.Converts p t ∧ s.MadeFor t name arguments q

private theorem exists_produces {spec : TypeSpec} {d : Directives} {fields : List (FieldHead × SourceType)}
    {body : TypeBody}
    (hrecord : s.HasRecord p spec d fields) (h : (s.typeBody p spec fields d).Gives body) (hr : some r ∈ refsOf body)
    (hq : Holds r q) (hns : q.head.ns ≠ "") : ∃ name arguments, s.Produces p name arguments q := by
  obtain ⟨t, ht, r', hgives, hheld⟩ := reads_typeBody.origin h hr hq hns
  obtain ⟨name, arguments, hmade⟩ := exists_madeFor hgives hheld hns
  exact ⟨name, arguments, t, ⟨spec, d, fields, hrecord, ht⟩, hmade⟩

end Site

variable {s : Site} {p : Package} {prog : Program} {q : TypeRef}

private theorem holdsCodes_of_visit {parents decls : List Declaration} (h : ∀ decl ∈ decls, HoldsCodes decl)
    {v : Visit} (hv : v ∈ visitsOf parents decls) : HoldsCodes v.decl := by
  induction decls with
  | nil => cases hv
  | cons decl decls ih =>
    rcases mem_append.1 hv with hv | hv
    · obtain ⟨head, constants, rfl⟩ := h decl (.head _)
      cases mem_singleton.1 hv
      exact ⟨head, constants, rfl⟩
    · exact ih (fun other hother => h other (.tail _ hother)) hv

private theorem mem_or_holdsCodes {parents decls : List Declaration} (h : NestCodes decls) {v : Visit}
    (hv : v ∈ visitsOf parents decls) : v.decl ∈ decls ∨ HoldsCodes v.decl := by
  induction decls with
  | nil => cases hv
  | cons decl decls ih =>
    rcases mem_append.1 hv with hv | hv
    · cases decl with
      | enum head members =>
        cases mem_singleton.1 hv
        exact .inl (.head _)
      | type head body nested =>
        rcases mem_cons.1 hv with rfl | hv
        · exact .inl (.head _)
        · exact .inr (holdsCodes_of_visit (h _ (.head _)) hv)
    · exact (ih (fun other hother => h other (.tail _ hother)) hv).imp_left (mem_cons_of_mem _)

private theorem exists_record_of_gives {spec : TypeSpec} {d : Directives} {decl : Declaration} {body : TypeBody}
    (hown : IsOwn p spec d) (h : (declaration? s p spec d).Gives (some decl)) (hbody : decl.body? = some body) :
    ∃ fields, s.HasRecord p spec d fields ∧ (s.typeBody p spec fields d).Gives body := by
  rcases declaration_cases h with ⟨fields, body', hfields, hgives, rfl⟩ | ⟨-, rfl⟩
  · cases hbody
    exact ⟨fields, ⟨hown, hfields⟩, hgives⟩
  · cases hbody

private theorem IsExtracted.exists_produces (h : IsExtracted s p prog) (hq : ProgramRefers prog q)
    (hns : q.head.ns ≠ "") :
    ∃ name arguments, s.Produces p name arguments q := by
  obtain ⟨v, hv, body, hbody, r, hr, hq⟩ := hq
  rcases mem_or_holdsCodes h.nested hv with hmem | ⟨head, constants, hcodes⟩
  · obtain ⟨spec, d, hown, hgives⟩ := (h.outlines _).1 (mem_map_of_mem hmem)
    obtain ⟨fields, hrecord, hgives⟩ := exists_record_of_gives hown hgives (by simpa using hbody)
    exact Site.exists_produces hrecord hgives hr hq hns
  · rw [hcodes] at hbody
    cases hbody
    simp [Site.refsOf] at hr

/-- The package has a type with the name that becomes a declaration of its own. -/
def Declares (s : Site) (p : Package) (name : String) : Prop :=
  ∃ spec d, IsOwn p spec d ∧ spec.name = name ∧
    ((∃ fields, s.world.underlying (.named (typeName p name) []) = .record fields) ∨
      s.world.isEnum (typeName p name) [] = true)

private theorem IsExtracted.namesDeclaration_iff (h : IsExtracted s p prog) :
    NamesDeclaration prog q ↔ q.head.ns = s.options.namespaceOf p.path ∧ Declares s p q.head.name := by
  constructor
  · rintro ⟨decl, hdecl, hns, hname⟩
    obtain ⟨spec, d, hown, hgives⟩ := (h.outlines _).1 (mem_map_of_mem hdecl)
    have hcases := declaration_cases hgives
    have hhead : decl.head = declHead s p spec d := by
      rw [← head_outline]
      rcases hcases with ⟨_, _, -, -, heq⟩ | ⟨-, heq⟩ <;> rw [heq] <;> rfl
    rw [Declaration.ns, hhead, ns_declHead] at hns
    rw [Declaration.name, hhead, name_declHead] at hname
    refine ⟨hns.symm, spec, d, hown, hname, ?_⟩
    rw [← hname]
    exact hcases.imp (fun ⟨fields, _, hfields, _⟩ => ⟨fields, hfields⟩) fun henum => henum.1
  · rintro ⟨hns, spec, d, hown, hname, hkind⟩
    obtain ⟨made, hmade⟩ := h.taken spec d hown
    rw [← hname] at hkind
    have hdecl : ∃ decl, made = some decl ∧ decl.head = declHead s p spec d := by
      rcases hkind with ⟨fields, hfields⟩ | henum
      · obtain ⟨body, -, rfl⟩ := (gives_declaration_of_record hfields).1 hmade
        exact ⟨_, rfl, rfl⟩
      · obtain ⟨-, rfl⟩ := (gives_declaration_of_isEnum henum).1 hmade
        exact ⟨_, rfl, rfl⟩
    obtain ⟨outlined, rfl, hhead⟩ := hdecl
    obtain ⟨decl, hmem, rfl⟩ := mem_map.1 ((h.outlines outlined).2 ⟨spec, d, hown, hmade⟩)
    rw [head_outline] at hhead
    refine ⟨decl, hmem, ?_, ?_⟩
    · rw [Declaration.ns, hhead, hns, ns_declHead]
    · rw [Declaration.name, hhead, ← hname, name_declHead]

/-- The type is declared in the package, outside of functions and not as another name of a type. -/
structure IsTypeOf (p : Package) (name : TypeName) : Prop where
  spec : ∃ spec, p.spec? name.name = some spec ∧ spec.isAlias = false
  eq : name = typeName p name.name

/-- The type whose error codes the constants of a type are. -/
def codesOwner? (p : Package) (name : String) : Option String :=
  p.directives.toOption.bind fun all => ((all.lookup name).getD {}).errorsOf

private theorem IsTypeOf.declares_iff {name : TypeName} (h : IsTypeOf p name) (hall : ∃ all, p.directives = .ok all)
    (hexported : isExported name.name = true) :
    Declares s p name.name ↔ codesOwner? p name.name = none ∧
      ((∃ fields, s.world.underlying (.named name []) = .record fields) ∨ s.world.isEnum name [] = true) := by
  obtain ⟨all, hall⟩ := hall
  obtain ⟨spec, hspec, halias⟩ := h.spec
  have hname : spec.name = name.name := by simpa using find?_some hspec
  have hcodes : codesOwner? p name.name = ((all.lookup name.name).getD {}).errorsOf := by rw [codesOwner?, hall]; rfl
  rw [hcodes, Declares, ← h.eq]
  constructor
  · rintro ⟨spec', d, ⟨⟨all', hall', hmem⟩, hnone⟩, hname', hkind⟩
    cases hall.symm.trans hall'
    obtain ⟨-, -, -, rfl⟩ := mem_candidates.1 hmem
    rw [hname'] at hnone
    exact ⟨hnone, hkind⟩
  · rintro ⟨hnone, hkind⟩
    refine ⟨spec, _, ⟨⟨all, hall, mem_candidates.2 ⟨?_, ?_, halias, rfl⟩⟩, ?_⟩, hname, hkind⟩ <;>
      rw [hname] <;> assumption

/-- No type is defined to be a type parameter, which no package may do. -/
def DefinesNoParameter (w : World) : Prop :=
  ∀ name spec, w.spec? name = some spec → ∀ param serial, spec.definition ≠ .parameter param serial

private theorem underlyingBy_substitute {w : World} (hw : DefinesNoParameter w) {fuel : Nat} {t : SourceType}
    (ht : ∀ param serial, t ≠ .parameter param serial) (binding binding' : List (String × SourceType))
    (h : ∃ fields, w.underlyingBy fuel (t.substitute binding) = .record fields) :
    ∃ fields, w.underlyingBy fuel (t.substitute binding') = .record fields := by
  induction fuel generalizing t binding binding' with
  | zero =>
    cases t with
    | record fields => simp [SourceType.substitute, World.underlyingBy]
    | parameter param serial => exact absurd rfl (ht param serial)
    | _ => simp [SourceType.substitute, World.underlyingBy] at h
  | succ fuel ih =>
    cases t with
    | record fields => simp [SourceType.substitute, World.underlyingBy]
    | named name arguments =>
      simp only [SourceType.substitute, World.underlyingBy] at h ⊢
      cases hspec : w.spec? name with
      | none => simp [hspec] at h
      | some spec =>
        rw [hspec] at h
        exact ih (hw name spec hspec) _ _ h
    | parameter param serial => exact absurd rfl (ht param serial)
    | _ => simp [SourceType.substitute, World.underlyingBy] at h

private theorem record_of_arguments {w : World} (hw : DefinesNoParameter w) (name : TypeName)
    (arguments arguments' : List SourceType) (h : ∃ fields, w.underlying (.named name arguments) = .record fields) :
    ∃ fields, w.underlying (.named name arguments') = .record fields := by
  unfold World.underlying at h ⊢
  simp only [World.underlyingBy] at h ⊢
  cases hspec : w.spec? name with
  | none => simp [hspec] at h
  | some spec =>
    rw [hspec] at h
    exact underlyingBy_substitute hw (hw name spec hspec) _ _ h

/-- Every reference of an extracted program that has a namespace is made for a named type.  If that is a type of the
package itself, the reference names a declaration of the program exactly if the constants of the type are no error
codes and the type, without arguments, is a record or an enumeration. -/
theorem reference_declared_iff (h : (program s.world p s.options).Gives prog) (hw : DefinesNoParameter s.world) :
    (∀ q, ProgramRefers prog q → q.head.ns ≠ "" → ∃ name arguments, s.Produces p name arguments q) ∧
    (∀ name arguments q, s.Produces p name arguments q → name.home = some p.path →
      (NamesDeclaration prog q ↔ Declares s p name.name)) ∧
    (∀ name arguments q, s.Produces p name arguments q → IsTypeOf p name →
      (NamesDeclaration prog q ↔ codesOwner? p name.name = none ∧
        ((∃ fields, s.world.underlying (.named name arguments) = .record fields) ∨
          s.world.isEnum name [] = true))) := by
  have hextracted := isExtracted_of_gives h
  have hnames {name : TypeName} {arguments : List SourceType} {q : TypeRef} (hq : s.Produces p name arguments q)
      (hhome : name.home = some p.path) : NamesDeclaration prog q ↔ Declares s p name.name := by
    obtain ⟨t, -, hmade⟩ := hq
    obtain ⟨path, hpath, hns, hname⟩ := hmade.head
    rw [hextracted.namesDeclaration_iff, hname, hns, Option.some.inj (hpath.symm.trans hhome), eq_self, true_and]
  refine ⟨fun q => hextracted.exists_produces, fun name arguments q => hnames, ?_⟩
  intro name arguments q hq htype
  have hexported : isExported name.name = true := by
    obtain ⟨t, -, hmade⟩ := hq
    obtain ⟨u, r, -, hdenotes, -⟩ := hmade.source
    exact hdenotes.exported
  rw [hnames hq (by rw [htype.eq]; rfl), htype.declares_iff hextracted.checked hexported]
  refine and_congr_right fun _ => or_congr_left ?_
  exact ⟨record_of_arguments hw name [] arguments, record_of_arguments hw name arguments []⟩

def code : SourceType := .named { home := some "app", name := "Code" } []

def make : SourceType := .named { home := some "app", name := "Make" } []

def makeFields : List (FieldHead × SourceType) := [({ name := "Last" }, code), ({ name := "Next" }, .pointer make)]

def makeSpec : TypeSpec := { name := "Make", doc := some ["//contract:command"], definition := .record makeFields }

def codeSpec : TypeSpec := { name := "Code", doc := some ["//contract:errors Make"], definition := .basic .int }

/-- A command with a field whose type holds its error codes. -/
def bakery : Package :=
  { path := "app"
    groups := [{ specs := [makeSpec] }, { specs := [codeSpec] }]
    constants := [{ name := "CodeTaken", type := code, value := .int 1 }] }

def bakerySite : Site := { world := { packages := [bakery] }, options := {} }

def codeRef : TypeRef := .mk { name := "Code", ns := "app" } []

def makeRef : TypeRef := .mk { name := "Make", ns := "app" } []

def makeDecl (nested : List Declaration) : Declaration :=
  .type { ns := "app", name := "Make" }
    { kind := .command
      fields := [some { name := "Last", type := some codeRef },
        some { name := "Next", type := some makeRef.orNull }] }
    nested

def codesDecl : Declaration :=
  .type { ns := "app", name := "ErrorCodes" } { constants := [{ name := "Taken", value := some (.int 1) }] } []

def bakeryProgram : Program :=
  { name := "Contracts", version := defaultSchema, declarations := [makeDecl [codesDecl]] }

def bakeryDirectives : List (String × Directives) :=
  [("Code", { errorsOf := some "Make" }), ("Make", { kind := .command })]

private theorem bakery_candidates : candidates bakery bakeryDirectives =
    [(codeSpec, { errorsOf := some "Make" }), (makeSpec, { kind := .command })] := rfl

private theorem bakery_directives : bakery.directives = .ok bakeryDirectives := rfl

private theorem bakery_ns : bakerySite.options.namespaceOf "app" = "app" := by decide +kernel

private theorem bakery_head (name : String) :
    bakerySite.headOf "app" (typeName bakery name) = { name, ns := "app" } := by
  rw [Site.headOf, bakery_ns]
  rfl

private theorem code_denotes : bakerySite.Denotes code (typeName bakery "Code") [] :=
  ⟨rfl, rfl, .inr (by decide +kernel)⟩

private theorem gives_code : (bakerySite.ref code).Gives codeRef := by
  have h : (bakerySite.ref code).Gives (.mk (bakerySite.headOf "app" (typeName bakery "Code")) []) :=
    Site.gives_enum code_denotes (by decide +kernel) rfl rfl
  rwa [bakery_head] at h

private theorem gives_make : (bakerySite.ref make).Gives makeRef := by
  have hplan : bakerySite.plan make = .compose (bakerySite.headOf "app" (typeName bakery "Make")) [] := rfl
  rw [bakery_head] at hplan
  exact Site.gives_head hplan

private theorem gives_next : (bakerySite.ref (.pointer make)).Gives makeRef.orNull := by
  rw [Site.ref_of_follow rfl]
  exact gives_map.2 ⟨_, gives_make, rfl⟩

private theorem gives_makeDecl :
    (declaration? bakerySite bakery makeSpec { kind := .command }).Gives (some (makeDecl [])) := by
  refine (gives_declaration_of_record rfl).2 ⟨_, ?_, rfl⟩
  refine gives_bind.2 ⟨[], gives_mapM.2 .nil, ?_⟩
  refine gives_bind.2 ⟨_, gives_mapM.2 (.cons (Site.gives_member rfl gives_code)
    (.cons (Site.gives_member rfl gives_next) .nil)), ?_⟩
  exact gives_bind.2 ⟨none, gives_pure.2 rfl, gives_pure.2 rfl⟩

private theorem bakery_codes :
    addCodes bakerySite bakery [makeDecl []] codeSpec "Make" = .ok [makeDecl [codesDecl]] := by
  with_unfolding_all rfl

private theorem bakery_extracted : (program bakerySite.world bakery bakerySite.options).Gives bakeryProgram := by
  refine gives_bind.2 ⟨bakeryDirectives, ?_, ?_⟩
  · rw [gives_ofExcept, bakery_directives]
    rfl
  · rw [bakery_candidates]
    refine gives_bind.2 ⟨[({ kind := .command }, some (makeDecl []))], gives_mapM.2 (.cons ?_ .nil), ?_⟩
    · exact gives_bind.2 ⟨_, gives_makeDecl, gives_pure.2 rfl⟩
    · exact gives_bind.2 ⟨_, gives_ofExcept.2 bakery_codes, gives_pure.2 rfl⟩

private theorem bakery_definitions : DefinesNoParameter bakerySite.world := by
  intro name spec hspec param serial hparam
  unfold World.spec? at hspec
  split at hspec
  next =>
    have hmem := mem_of_find?_eq_some hspec
    simp only [predeclared, mem_cons, not_mem_nil, or_false] at hmem
    rcases hmem with rfl | rfl | rfl <;> cases hparam
  next path =>
    split at hspec
    next =>
      obtain ⟨found, hfound, hspec⟩ := Option.bind_eq_some_iff.1 hspec
      cases mem_singleton.1 (mem_of_find?_eq_some hfound)
      have hmem : spec ∈ [makeSpec, codeSpec] := mem_of_find?_eq_some hspec
      simp only [mem_cons, not_mem_nil, or_false] at hmem
      rcases hmem with rfl | rfl <;> cases hparam
    next => cases hspec

private theorem bakery_record : bakerySite.HasRecord bakery makeSpec { kind := .command } makeFields := by
  refine ⟨⟨⟨bakeryDirectives, bakery_directives, ?_⟩, rfl⟩, rfl⟩
  rw [bakery_candidates]
  simp

private theorem bakery_produces_code : bakerySite.Produces bakery (typeName bakery "Code") [] codeRef := by
  have hcode : bakerySite.Converts bakery code := ⟨_, _, _, bakery_record, .head _⟩
  exact ⟨code, hcode, ⟨code, codeRef, .refl, code_denotes, gives_code, .inl rfl⟩, "app", rfl, bakery_ns.symm, rfl⟩

private theorem bakery_produces_make : bakerySite.Produces bakery (typeName bakery "Make") [] makeRef.orNull := by
  have hnext : bakerySite.Converts bakery (.pointer make) :=
    ⟨_, _, _, bakery_record, .tail _ (.head _)⟩
  have hdenotes : bakerySite.Denotes make (typeName bakery "Make") [] := ⟨rfl, rfl, .inl ⟨_, rfl⟩⟩
  exact ⟨_, hnext, ⟨make, makeRef, .single (.follow rfl), hdenotes, gives_make, .inr rfl⟩, "app", rfl, bakery_ns.symm,
    rfl⟩

/-- The reference to the record of the package names its declaration. -/
theorem bakery_names_make : DefinesNoParameter bakerySite.world ∧ NamesDeclaration bakeryProgram makeRef.orNull := by
  have hdeclared := (reference_declared_iff bakery_extracted bakery_definitions).2.2
  have hcodes : codesOwner? bakery "Make" = none := by decide +kernel
  have htype : IsTypeOf bakery (typeName bakery "Make") := ⟨⟨makeSpec, rfl, rfl⟩, rfl⟩
  exact ⟨bakery_definitions, (hdeclared _ _ _ bakery_produces_make htype).2 ⟨hcodes, .inl ⟨_, rfl⟩⟩⟩

/-- The reference to the type of the error codes names nothing. -/
theorem bakery_lacks_code : (program bakerySite.world bakery bakerySite.options).Gives bakeryProgram ∧
    ProgramRefers bakeryProgram codeRef ∧ codeRef.head.ns ≠ "" ∧
    bakerySite.Produces bakery (typeName bakery "Code") [] codeRef ∧ IsTypeOf bakery (typeName bakery "Code") ∧
    ¬NamesDeclaration bakeryProgram codeRef := by
  refine ⟨bakery_extracted, ?_, by decide, bakery_produces_code, ⟨⟨codeSpec, rfl, rfl⟩, rfl⟩, ?_⟩
  · refine ⟨{ decl := makeDecl [codesDecl] }, ?_, _, rfl, codeRef, .head _, .refl codeRef⟩
    simp [bakeryProgram, Program.visits, visitsOf, Declaration.visits, makeDecl]
  · rintro ⟨decl, hdecl, -, hname⟩
    cases mem_singleton.1 hdecl
    exact absurd hname (by decide)

end Covenant.Extract
