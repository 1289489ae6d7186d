import Covenant.Proofs.Extract.Conversion
import Covenant.Proofs.Text.Order

/-!
# Declarations of an extracted program

Extraction takes the types of a package in two passes: those that become declarations, and those whose constants are
error codes of another one and end up nested in it.
-/

namespace Covenant.Extract

open Contract Source Extraction
open List

variable {s : Site} {p : Package} {spec : TypeSpec} {d : Directives}

private theorem mem_orderedSpecs : spec ∈ p.orderedSpecs ↔ p.spec? spec.name = some spec := by
  simp only [Package.orderedSpecs, mem_filterMap, Text.mem_sortedSet, mem_map]
  constructor
  · rintro ⟨name, -, h⟩
    have hname : spec.name = name := by simpa using find?_some h
    rwa [hname]
  · intro h
    exact ⟨spec.name, ⟨spec, mem_of_find?_eq_some h, rfl⟩, h⟩

/-- The candidates are the exported types that are no aliases. -/
theorem mem_candidates {all : List (String × Directives)} :
    (spec, d) ∈ candidates p all ↔ p.spec? spec.name = some spec ∧ isExported spec.name = true ∧
      spec.isAlias = false ∧ d = (all.lookup spec.name).getD {} := by
  simp only [candidates, mem_map, mem_filter, mem_orderedSpecs, Bool.and_eq_true, Bool.not_eq_true',
    Prod.mk.injEq]
  constructor
  · rintro ⟨other, ⟨hspec, hexported, halias⟩, rfl, rfl⟩
    exact ⟨hspec, hexported, halias, rfl⟩
  · rintro ⟨hspec, hexported, halias, rfl⟩
    exact ⟨spec, ⟨hspec, hexported, halias⟩, rfl, rfl⟩

def declHead (s : Site) (p : Package) (spec : TypeSpec) (d : Directives) : DeclHead :=
  { ns := s.options.namespaceOf p.path, name := spec.name, excluded := d.isExcluded }

@[simp] theorem ns_declHead : (declHead s p spec d).ns = s.options.namespaceOf p.path := by rw [declHead]

@[simp] theorem name_declHead : (declHead s p spec d).name = spec.name := by rw [declHead]

variable (decl : Declaration) {made : Option Declaration}

theorem gives_declaration_of_record {fields : List (FieldHead × SourceType)}
    (h : s.world.underlying (.named (typeName p spec.name) []) = .record fields) :
    (declaration? s p spec d).Gives made ↔
      ∃ body, (s.typeBody p spec fields d).Gives body ∧ made = some (.type (declHead s p spec d) body []) := by
  have heq :
      declaration? s p spec d = ((s.typeBody p spec fields d).within (p.path ++ "." ++ spec.name) >>= fun body =>
      pure (some (.type (declHead s p spec d) body []))) := by
    unfold typeName at h
    simp only [declaration?, h, declHead]
  simp only [heq, gives_bind, gives_within, gives_pure, eq_comm]

theorem exists_basic_of_isEnum {name : TypeName} {arguments : List SourceType}
    (h : s.world.isEnum name arguments = true) :
    ∃ b, s.world.underlying (.named name arguments) = .basic b := by
  simp only [World.isEnum, World.isInteger, Bool.and_eq_true] at h
  split at h
  next b hb => exact ⟨b, hb⟩
  next => exact absurd h.1 (by simp)

theorem gives_declaration_of_isEnum
    (h : s.world.isEnum (typeName p spec.name) [] = true) :
    (declaration? s p spec d).Gives made ↔ d.kind = .plain ∧
      made = some (.enum (declHead s p spec d) (enumMembers (s.world.members (typeName p spec.name) []))) := by
  obtain ⟨b, hb⟩ := exists_basic_of_isEnum h
  unfold typeName at h hb
  by_cases hkind : d.kind = .plain
  · simp [declaration?, hb, h, hkind, declHead, typeName, eq_comm]
  · simp [declaration?, hb, h, hkind]

private theorem gives_declaration_of_other
    (hrecord : ∀ fields, s.world.underlying (.named (typeName p spec.name) []) ≠ .record fields)
    (henum : s.world.isEnum (typeName p spec.name) [] = false) :
    (declaration? s p spec d).Gives made ↔ made = none := by
  have heq : declaration? s p spec d = pure none := by
    unfold typeName at hrecord henum
    unfold declaration?
    dsimp only
    split
    next fields hfields => exact absurd hfields (hrecord fields)
    next => rw [henum]; rfl
    next => rfl
  rw [heq, gives_pure, eq_comm]

/-- A declaration is that of a record or of an enumeration. -/
theorem declaration_cases {decl : Declaration} (h : (declaration? s p spec d).Gives (some decl)) :
    (∃ fields body, s.world.underlying (.named (typeName p spec.name) []) = .record fields ∧
      (s.typeBody p spec fields d).Gives body ∧ decl = .type (declHead s p spec d) body []) ∨
    (s.world.isEnum (typeName p spec.name) [] = true ∧
      decl = .enum (declHead s p spec d) (enumMembers (s.world.members (typeName p spec.name) []))) := by
  by_cases hrecord : ∃ fields, s.world.underlying (.named (typeName p spec.name) []) = .record fields
  · obtain ⟨fields, hfields⟩ := hrecord
    obtain ⟨body, hbody, hdecl⟩ := (gives_declaration_of_record hfields).1 h
    exact .inl ⟨fields, body, hfields, hbody, Option.some.inj hdecl⟩
  · cases henum : s.world.isEnum (typeName p spec.name) [] with
    | true => exact .inr ⟨rfl, Option.some.inj ((gives_declaration_of_isEnum henum).1 h).2⟩
    | false => cases (gives_declaration_of_other (fun fields hfields => hrecord ⟨fields, hfields⟩) henum).1 h

/-- A declaration without those nested in it. -/
def outline : Declaration → Declaration
  | .enum head members => .enum head members
  | .type head body _ => .type head body []

@[simp] theorem head_outline : (outline decl).head = decl.head := by cases decl <;> rfl

@[simp] theorem body?_outline : (outline decl).body? = decl.body? := by cases decl <;> rfl

/-- The declaration holds constants and nothing else. -/
def HoldsCodes : Prop := ∃ head constants, decl = .type head { constants } []

/-- Declarations in which only error codes are nested. -/
def NestCodes (decls : List Declaration) : Prop := ∀ decl ∈ decls, ∀ inner ∈ decl.nested, HoldsCodes inner

private theorem map_outline_nestInto (owner : String) (codes : Declaration) (decls : List Declaration) :
    (nestInto owner codes decls).map outline = decls.map outline := by
  fun_induction nestInto owner codes decls with
  | case1 => rfl
  | case2 => rfl
  | case3 head body nested rest _ ih => rw [map_cons, ih, map_cons]
  | case4 decl rest _ ih => rw [map_cons, ih, map_cons]

private theorem nestCodes_nestInto {owner : String} {codes : Declaration} (hcodes : HoldsCodes codes)
    {decls : List Declaration} (h : NestCodes decls) : NestCodes (nestInto owner codes decls) := by
  fun_induction nestInto owner codes decls with
  | case1 => exact h
  | case2 head body nested rest =>
    obtain ⟨hfirst, hrest⟩ := forall_mem_cons.1 h
    exact forall_mem_cons.2 ⟨forall_mem_append.2 ⟨hfirst, forall_mem_singleton.2 hcodes⟩, hrest⟩
  | case3 head body nested rest _ ih =>
    obtain ⟨hfirst, hrest⟩ := forall_mem_cons.1 h
    exact forall_mem_cons.2 ⟨hfirst, ih hrest⟩
  | case4 first rest _ ih =>
    obtain ⟨hfirst, hrest⟩ := forall_mem_cons.1 h
    exact forall_mem_cons.2 ⟨hfirst, ih hrest⟩

private theorem exists_of_addCodes {decls decls' : List Declaration} {owner : String}
    (h : addCodes s p decls spec owner = .ok decls') :
    ∃ codes, HoldsCodes codes ∧ decls' = nestInto owner codes decls := by
  unfold addCodes at h
  dsimp only at h
  rw [Outcome.errorIf_eq_ok, Outcome.errorIf_eq_ok] at h
  exact ⟨_, ⟨_, _, rfl⟩, (Except.ok.inj h.2.2).symm⟩

private theorem outlines_of_addCodes {codes : List (TypeSpec × Directives)} {decls decls' : List Declaration}
    (h : codes.foldlM (fun ds c => addCodes s p ds c.1 (c.2.errorsOf.getD "")) decls = .ok decls')
    (hnested : NestCodes decls) : decls'.map outline = decls.map outline ∧ NestCodes decls' := by
  induction codes generalizing decls with
  | nil =>
    cases h
    exact ⟨rfl, hnested⟩
  | cons c codes ih =>
    rw [foldlM_cons, Outcome.bind_eq_ok] at h
    obtain ⟨next, hnext, hrest⟩ := h
    obtain ⟨added, hadded, rfl⟩ := exists_of_addCodes hnext
    obtain ⟨houtline, hcodes⟩ := ih hrest (nestCodes_nestInto hadded hnested)
    exact ⟨houtline.trans (map_outline_nestInto _ added decls), hcodes⟩

structure IsExtracted (s : Site) (p : Package) (prog : Program) : Prop where
  checked : ∃ all, p.directives = .ok all
  /-- Every type is taken without a failure. -/
  taken : ∀ spec d, IsOwn p spec d → ∃ made, (declaration? s p spec d).Gives made
  /-- What is taken makes up the declarations of the program. -/
  outlines : ∀ decl, decl ∈ prog.declarations.map outline ↔ ∃ spec d, IsOwn p spec d ∧
    (declaration? s p spec d).Gives (some decl)
  nested : NestCodes prog.declarations

private theorem outline_of_gives {decl : Declaration} (h : (declaration? s p spec d).Gives (some decl)) :
    outline decl = decl ∧ decl.nested = [] := by
  rcases declaration_cases h with ⟨fields, body, -, -, rfl⟩ | ⟨-, rfl⟩ <;> exact ⟨rfl, rfl⟩

/-- The two passes of an extraction. -/
theorem passes_of_gives {prog : Program} (h : (program s.world p s.options).Gives prog) :
    ∃ all declared, p.directives = .ok all ∧
      Forall₂ (fun (c : TypeSpec × Directives) (r : Directives × Option Declaration) =>
          (declaration? s p c.1 c.2).Gives r.2)
        ((candidates p all).filter (·.2.errorsOf.isNone)) declared ∧
      ((candidates p all).filter (·.2.errorsOf.isSome)).foldlM
        (fun ds c => addCodes s p ds c.1 (c.2.errorsOf.getD "")) (declared.filterMap (·.2)) =
          .ok prog.declarations := by
  unfold program at h
  obtain ⟨all, hall, h⟩ := gives_bind.1 h
  rw [gives_ofExcept, Outcome.mapError_eq_ok] at hall
  obtain ⟨declared, hdeclared, h⟩ := gives_bind.1 h
  obtain ⟨decls, hdecls, h⟩ := gives_bind.1 h
  rw [gives_ofExcept] at hdecls
  cases gives_pure.1 h
  refine ⟨all, declared, hall, (gives_mapM.1 hdeclared).imp fun c r hr => ?_, hdecls⟩
  obtain ⟨made, hmade, hpair⟩ := gives_bind.1 hr
  cases gives_pure.1 hpair
  exact hmade

/-- Up to what is nested, declarations are what types become. -/
theorem isExtracted_of_gives {prog : Program} (h : (program s.world p s.options).Gives prog) :
    IsExtracted s p prog := by
  obtain ⟨all, declared, hall, hmade, hdecls⟩ := passes_of_gives h
  have hown (spec : TypeSpec) (d : Directives) :
      (spec, d) ∈ (candidates p all).filter (·.2.errorsOf.isNone) ↔ IsOwn p spec d := by
    rw [mem_filter]
    constructor
    · rintro ⟨hmem, hcodes⟩
      exact ⟨⟨all, hall, hmem⟩, by simpa using hcodes⟩
    · rintro ⟨⟨all', hall', hmem⟩, hcodes⟩
      cases hall.symm.trans hall'
      exact ⟨hmem, by simp [hcodes]⟩
  have htaken {spec : TypeSpec} {d : Directives} (h : IsOwn p spec d) :
      ∃ r ∈ declared, (declaration? s p spec d).Gives r.2 :=
    Outcome.exists_of_mem_right hmade.flip ((hown spec d).2 h)
  have hfound (decl : Declaration) : decl ∈ declared.filterMap (·.2) ↔
      ∃ spec d, IsOwn p spec d ∧ (declaration? s p spec d).Gives (some decl) := by
    rw [mem_filterMap]
    constructor
    · rintro ⟨r, hr, hdecl⟩
      obtain ⟨c, hc, hgives⟩ := Outcome.exists_of_mem_right hmade hr
      exact ⟨c.1, c.2, (hown c.1 c.2).1 hc, hdecl ▸ hgives⟩
    · rintro ⟨spec, d, hspec, hgives⟩
      obtain ⟨r, hr, hgives'⟩ := htaken hspec
      have heq : some (Except.ok r.2) = some (Except.ok (some decl)) := hgives'.symm.trans hgives
      exact ⟨r, hr, by simpa using heq⟩
  have hbare (decl : Declaration) (hdecl : decl ∈ declared.filterMap (·.2)) :
      outline decl = decl ∧ decl.nested = [] := by
    obtain ⟨spec, d, -, hgives⟩ := (hfound decl).1 hdecl
    exact outline_of_gives hgives
  -- the second pass only adds codes inside of what the first one made
  obtain ⟨houtlines, hnested⟩ := outlines_of_addCodes hdecls fun decl hdecl inner hinner => by
    rw [(hbare decl hdecl).2] at hinner
    cases hinner
  rw [map_congr_left fun decl hdecl => (hbare decl hdecl).1, map_id'] at houtlines
  refine ⟨⟨all, hall⟩, ?_, ?_, hnested⟩
  · intro spec d hspec
    obtain ⟨r, -, hgives⟩ := htaken hspec
    exact ⟨r.2, hgives⟩
  · intro decl
    rw [houtlines, hfound]

end Covenant.Extract
