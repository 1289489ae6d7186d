import Covenant.Proofs.Binding.Parts
import Covenant.Proofs.Naming.Words

/-!
# The names in bound types and shapes

Everything that a reference can be bound to is known from the table of names: its entries are entries of the table,
and its names are words if those of the table, of the primitive types, of the markers and of the type parameters are.
-/

namespace Covenant.Binding

open Contract (DeclHead Declaration TypeRef)
open Naming (Entry)
open Outcome
open Text (IsWord)
open List

/-- The type is bound from a reference that sees the type parameters of a declaration. -/
def Binder.Binds (b : Binder) (e : Entry) (t : Bound) : Prop :=
  ∃ scope r, scope.params = (Scope.inside e).params ∧ b.bind scope r = .ok t

namespace Binder

variable {b : Binder} {e : Entry} {t u : Bound}

private theorem binds_of_inside {r : Option TypeRef} (h : b.bindOptional (.inside e) r = .ok t) : b.Binds e t := by
  obtain ⟨r, _, hr⟩ := bindOptional_eq_ok.1 h
  exact ⟨_, r, rfl, hr⟩

theorem Binds.within (h : b.Binds e t) (hu : u.Within t) : b.Binds e u := by
  obtain ⟨scope, r, hscope, hr⟩ := h
  obtain ⟨r', hr'⟩ := bind_within hu hr
  exact ⟨scope, r', hscope, hr'⟩

private theorem binds_markers {refs : List (Option TypeRef)} {base? base'? : Option Bound}
    {markers markers' : List Bound} (h : b.Sorts e base'? markers' base? markers refs)
    (hmarkers : ∀ t ∈ markers, b.Binds e t) : ∀ t ∈ markers', b.Binds e t := by
  induction h with
  | done => exact hmarkers
  | marker ht _ ih =>
    exact ih (forall_mem_append.2 ⟨hmarkers, forall_mem_singleton.2 (binds_of_inside ht)⟩)
  | named _ _ _ ih => exact ih hmarkers

end Binder

def Shape.paramNames (s : Shape) : List String := s.params.map (·.name)

def Shape.types (s : Shape) : List Bound :=
  s.params.flatMap (·.constraints) ++ s.base?.toList ++ s.markers ++ s.fields.map (·.type) ++ s.result?.toList

namespace Shape

variable {s : Shape}

theorem constraint_mem_types {p : ShapeParam} (hp : p ∈ s.params) {t : Bound} (ht : t ∈ p.constraints) :
    t ∈ s.types := by
  simp only [types, mem_append, mem_flatMap]
  exact .inl (.inl (.inl (.inl ⟨p, hp, ht⟩)))

theorem base_mem_types {base : Bound} (h : s.base? = some base) : base ∈ s.types := by simp [types, h]

theorem marker_mem_types {marker : Bound} (h : marker ∈ s.markers) : marker ∈ s.types := by simp [types, h]

theorem type_mem_types {f : ShapeField} (hf : f ∈ s.fields) : f.type ∈ s.types := by
  simp only [types, mem_append]
  exact .inl (.inr (mem_map_of_mem hf))

theorem result_mem_types {result : Bound} (h : s.result? = some result) : result ∈ s.types := by simp [types, h]

theorem mem_fields_of_own {f : ShapeField} (hf : f ∈ s.ownFields) : f ∈ s.fields := (mem_filter.1 hf).1

end Shape

namespace Binder

variable {b : Binder} {e : Entry} {s : Shape} {codesName : String}

private theorem binds_field {head : DeclHead} {nested : List Declaration}
    {inherited own : List ShapeField} (hparts : ShapeParts b codesName e s head nested inherited own)
    {f : ShapeField} (hf : f ∈ s.fields) : b.Binds e f.type := by
  rw [hparts.fields] at hf
  obtain ⟨g, hg, rfl⟩ := mem_map.1 hf
  simp only [ShapeField.identified]
  rcases mem_append.1 hg with hg | hg
  · obtain ⟨site, hsite, hfilled, _⟩ := exists_of_mem_right (chainFields_filled hparts.chain) hg
    obtain ⟨l, _, hsite⟩ := mem_flatMap.1 hsite
    obtain ⟨field, _, rfl⟩ := mem_map.1 hsite
    obtain ⟨r, _, hr⟩ := bindOptional_eq_ok.1 hfilled.2
    exact ⟨l.scope e, r, rfl, hr⟩
  · obtain ⟨field, _, t, ht, rfl⟩ := exists_of_mem_right hparts.bound hg
    exact binds_of_inside ht

/-- The types of a shape are bound for its declaration. -/
theorem binds_of_mem_types (h : b.shapeOf codesName e = .ok s) {t : Bound} (ht : t ∈ s.types) : b.Binds e t := by
  obtain ⟨head, nested, inherited, own, hparts⟩ := shapeOf_eq_ok h
  simp only [Shape.types, mem_append] at ht
  rcases ht with (((ht | ht) | ht) | ht) | ht
  · obtain ⟨p, hp, ht⟩ := mem_flatMap.1 ht
    obtain ⟨q, _, hq⟩ := exists_of_mem_right (mapM_eq_ok.1 hparts.params) hp
    obtain ⟨constraints, hconstraints, hq⟩ := bind_eq_ok.1 hq
    obtain rfl := pure_eq_ok.1 hq
    obtain ⟨r, _, hr⟩ := exists_of_mem_right (mapM_eq_ok.1 hconstraints) ht
    exact binds_of_inside (bindFor_eq_ok.1 hr)
  · have hbase : s.base? = some t := by simpa using ht
    rcases (sorts_of_shapeBases hparts.bases).base with hnone | ⟨occ, base, as, hbase', r, _, hr⟩
    · rw [hbase] at hnone
      cases hnone
    · rw [hbase'] at hbase
      obtain rfl := Option.some.inj hbase
      exact binds_of_inside hr
  · exact binds_markers (sorts_of_shapeBases hparts.bases) (by simp) t ht
  · obtain ⟨f, hf, rfl⟩ := mem_map.1 ht
    exact binds_field hparts hf
  · have hresult : s.result? = some t := by simpa using ht
    have hres := hparts.result
    unfold shapeResult at hres
    split at hres
    · obtain ⟨u, hu, hres⟩ := bind_eq_ok.1 hres
      rw [hresult] at hres
      obtain rfl := Option.some.inj (pure_eq_ok.1 hres)
      exact binds_of_inside (bindFor_eq_ok.1 hu)
    · rw [hresult] at hres
      split at hres <;> cases hres

end Binder

def Bound.entry? : Bound → Option Entry
  | named _ e _ | enum _ e => some e
  | _ => none

namespace Binder

variable {b : Binder} {scope : Scope}

/-- An entry in a bound type is one of the table, and a type just if it is named. -/
theorem Binds.lookup_entry {e : Entry} {t u : Bound} (h : b.Binds e t) (hu : u.Within t) {e' : Entry}
    (he' : u.entry? = some e') :
    (∃ q, b.table.lookup q = some e') ∧ (e'.decl.body?.isSome = true ↔ ∃ occ as, u = .named occ e' as) := by
  obtain ⟨scope, ⟨head, as⟩, _, hr⟩ := h.within hu
  cases bind_mk_eq_ok.1 hr with
  | enum hread hdecl =>
    cases he'
    exact ⟨(b.of_reading scope head).1 _ hread, by simp [hdecl, Declaration.body?]⟩
  | named hread hdecl _ _ =>
    cases he'
    exact ⟨(b.of_reading scope head).1 _ hread, by simp [hdecl, Declaration.body?]⟩
  | _ => cases he'

end Binder

def Bound.label? : Bound → Option String
  | primitive _ _ name | param _ name | marker _ name _ => some name
  | named _ e _ | enum _ e => some e.name
  | list .. | map .. => none

def Bound.Worded (t : Bound) : Prop := ∀ u : Bound, u.Within t → ∀ name, u.label? = some name → IsWord name

theorem Bound.Worded.within {t u : Bound} (h : t.Worded) (hu : u.Within t) : u.Worded := fun v hv => h v (hv.trans hu)

/-- The names that bound types can have are words. -/
structure Binder.Worded (b : Binder) : Prop where
  found : ∀ q e, b.table.lookup q = some e → e ∈ b.table.entries
  names : ∀ e ∈ b.table.entries, IsWord e.name
  params : ∀ e ∈ b.table.entries, ∀ name ∈ (Scope.inside e).params, IsWord name
  markers : ∀ name, b.table.policy.isUnmangled name = true → IsWord name
  targets : ∀ category, IsWord (b.types.targets category)
  policy : b.table.policy.Plain

namespace Binder

variable {b : Binder} {e : Entry} {s : Shape} {codesName : String}

theorem Binds.worded {t : Bound} (h : b.Binds e t) (hb : b.Worded) (he : e ∈ b.table.entries) : t.Worded := by
  intro u hu name hname
  obtain ⟨scope, ⟨head, as⟩, hscope, hr⟩ := h.within hu
  obtain ⟨hdeclared, hparam, hmarker⟩ := b.of_reading scope head
  cases bind_mk_eq_ok.1 hr with
  | list | map => cases hname
  | param hread =>
    cases hname
    exact hb.params e he _ (hscope ▸ hparam _ hread)
  | primitive =>
    cases hname
    exact hb.targets _
  | enum hread | named hread =>
    cases hname
    obtain ⟨q, hq⟩ := hdeclared _ hread
    exact hb.names _ (hb.found q _ hq)
  | marker hread =>
    cases hname
    exact hb.markers _ (hmarker _ hread)

end Binder

structure Shape.Worded (s : Shape) : Prop where
  name : IsWord s.entry.name
  params : ∀ p ∈ s.params, IsWord p.name
  idents : ∀ f ∈ s.fields, IsWord f.ident
  constants : ∀ c ∈ s.constants, IsWord c.ident
  types : ∀ t ∈ s.types, t.Worded

namespace Binder

variable {b : Binder} {e : Entry} {s : Shape} {codesName : String}

theorem paramNames_of_shapeOf (h : b.shapeOf codesName e = .ok s) : s.paramNames = (Scope.inside e).params := by
  obtain ⟨head, nested, inherited, own, parts⟩ := shapeOf_eq_ok h
  have hnames : Forall₂ (fun q p => q.name = p.name) s.body.parameters s.params := by
    refine (mapM_eq_ok.1 parts.params).imp fun q p hp => ?_
    obtain ⟨constraints, _, hp⟩ := bind_eq_ok.1 hp
    rw [← pure_eq_ok.1 hp]
  rw [Scope.inside, parts.decl, Declaration.body?, Option.map_some, Option.getD_some,
    Contract.TypeBody.parameterNames, Shape.paramNames, eq_comm, ← forall₂_eq_eq_eq, forall₂_map_left_iff,
    forall₂_map_right_iff]
  exact hnames

/-- All names in the shape of an entry are words. -/
theorem worded_of_shapeOf (hb : b.Worded) (he : e ∈ b.table.entries) (h : b.shapeOf codesName e = .ok s) :
    s.Worded := by
  obtain ⟨head, nested, inherited, own, hparts⟩ := shapeOf_eq_ok h
  refine ⟨?_, fun p hp => ?_, fun f hf => ?_, fun c hc => ?_, fun t ht => (binds_of_mem_types h ht).worded hb he⟩
  · rw [hparts.entry]
    exact hb.names e he
  · refine hb.params e he p.name ?_
    rw [← paramNames_of_shapeOf h]
    exact mem_map_of_mem hp
  · have hfields := hparts.identified
    unfold identify at hfields
    split at hfields
    · cases hfields
    · obtain ⟨idents, hidents, hfields⟩ := bind_eq_ok.1 hfields
      rw [← pure_eq_ok.1 hfields, ← map_uncurry_zip_eq_zipWith] at hf
      obtain ⟨⟨g, ident⟩, hg, rfl⟩ := mem_map.1 hf
      exact Naming.Policy.isWord_of_membersAfter hb.policy (mapError_eq_ok.1 hidents) (of_mem_zip hg).2
  · obtain ⟨idents, hidents, hconstants⟩ := bind_eq_ok.1 hparts.constants
    obtain ⟨⟨d, ident⟩, hd, hc⟩ := exists_of_mem_right (mapM_eq_ok.1 hconstants) hc
    rw [ident_of_shapeConstant hc]
    exact Naming.Policy.isWord_of_membersAfter hb.policy (mapError_eq_ok.1 hidents) (of_mem_zip hd).2

end Binder

end Covenant.Binding
