import Covenant.Proofs.Binding.Erasure
import Covenant.Proofs.Binding.Shape
import Covenant.Proofs.Naming.NameTable

/-!
# What binding does not look at

Of a declaration a binder looks at the core, never at the namespace that it states or at what is nested in it
(`Binder.shapeOf_core`).  Two target languages bind the same program with different tables.  Binders whose tables hold
the same declarations but for names (`Binder.Parallel`) become the same binder when names are erased, so the shapes of
a type are the same up to names (`shapeOf_parallel`).
-/

namespace Covenant

open List

namespace Contract.Declaration

/-- The declaration without its namespace and without what is nested in it. -/
def core : Declaration → Declaration
  | enum h members => enum { h with ns := "" } members
  | type h body _ => type { h with ns := "" } body []

@[simp] theorem name_core (d : Declaration) : d.core.name = d.name := by cases d <;> rfl

@[simp] theorem body?_core (d : Declaration) : d.core.body? = d.body? := by cases d <;> rfl

private theorem core_bare (d : Declaration) : d.bare.core = d.core := by cases d <;> rfl

end Contract.Declaration

namespace Naming

@[simps] def Entry.core (e : Entry) : Entry := { e with decl := e.decl.core }

namespace Table

/-- The table with the cores of its entries, in order of their names throughout. -/
def core (t : Table) : Table :=
  { policy := t.policy, entries := t.entries.map Entry.core, resolved := t.entries.map Entry.core }

theorem lookup_core {t : Table} (ht : t.Coherent) (q : String) : t.core.lookup q = (t.lookup q).map Entry.core := by
  rw [← ht q, lookup, core, find?_map]
  rfl

theorem core_eq_of_bare {t t' : Table} (h : t.bare = t'.bare) : t.core = t'.core := by
  have hcore : ∀ t : Table, t.core = t.bare.core := by
    intro t
    have hentry : Entry.core ∘ Entry.bare = Entry.core := by
      funext e
      rw [Function.comp_apply, Entry.core, Entry.bare, Contract.Declaration.core_bare]
      rfl
    simp only [core, bare, map_map, hentry]
  rw [hcore t, h, hcore t']

end Table

end Naming

namespace Binding

open Contract (Declaration)
open Naming (Entry Table)
open Outcome

namespace Bound

mutual

def core : Bound → Bound
  | primitive occ category target => primitive occ category target
  | named occ e as => named occ e.core (coreAll as)
  | enum occ e => enum occ e.core
  | param occ name => param occ name
  | list occ t => list occ t.core
  | map occ k v => map occ k.core v.core
  | marker occ name as => marker occ name (coreAll as)

def coreAll : List Bound → List Bound
  | [] => []
  | t :: ts => t.core :: coreAll ts

end

private theorem coreAll_eq_map (ts : List Bound) : coreAll ts = ts.map core := by
  induction ts with
  | nil => rfl
  | cons t ts ih => rw [coreAll, ih, map_cons]

@[simp] theorem nullable_core (t : Bound) : t.core.nullable = t.nullable := by cases t <;> rfl

end Bound

@[simps] def ShapeField.core (f : ShapeField) : ShapeField := { f with type := f.type.core }

@[simps] def ShapeParam.core (p : ShapeParam) : ShapeParam := { p with constraints := p.constraints.map Bound.core }

@[simps] def Shape.core (s : Shape) : Shape :=
  { entry := s.entry.core, body := s.body, params := s.params.map ShapeParam.core, base? := s.base?.map Bound.core
    markers := s.markers.map Bound.core, fields := s.fields.map ShapeField.core, constants := s.constants
    result? := s.result?.map Bound.core, errorCodes := s.errorCodes }

def Binder.core (b : Binder) : Binder := { b with table := b.table.core }

abbrev Erasure.core : Erasure where
  entry := Entry.core
  target := id
  bound := Bound.core
  entry_qualified _ := rfl
  entry_ns _ := rfl
  entry_enum h := ⟨_, by rw [Entry.core_decl, h, Declaration.core]⟩
  entry_type {_ head _ _} h := ⟨{ head with ns := "" }, [], rfl, by rw [Entry.core_decl, h, Declaration.core]⟩
  bound_primitive _ _ _ := rfl
  bound_named _ _ as := by rw [Bound.core, Bound.coreAll_eq_map]
  bound_enum _ _ := rfl
  bound_param _ _ := rfl
  bound_list _ _ := rfl
  bound_map _ _ _ := rfl
  bound_marker _ _ as := by rw [Bound.core, Bound.coreAll_eq_map]

namespace Binder

variable {b : Binder}

@[simp] theorem length_entries_core : b.core.table.entries.length = b.table.entries.length := length_map _

private theorem identify_core (owner : String) (fields : List ShapeField) :
    b.core.identify owner (fields.map ShapeField.core) = List.map ShapeField.core <$> b.identify owner fields := by
  have hwire : (fields.map ShapeField.core).map (·.wire) = fields.map (·.wire) := by
    rw [map_map]
    rfl
  have hzip : ∀ idents : List String, (fields.map ShapeField.core).zipWith (fun f ident => { f with ident }) idents =
      (fields.zipWith (fun f ident => { f with ident }) idents).map ShapeField.core := by
    intro idents
    rw [zipWith_map_left, map_zipWith]
    rfl
  have hpolicy : b.core.table.policy = b.table.policy := rfl
  rw [identify, identify, hwire, hpolicy]
  split
  · rfl
  · simp only [map_bind, map_pure, hzip]

private theorem erases_core (hb : b.table.Coherent) : Erases .core b b.core where
  lookup := Table.lookup_core hb
  category := rfl
  targets _ := rfl
  unmangled := rfl
  length := length_entries_core

/-- The shapes made with the cores of a table are the cores of the shapes. -/
theorem shapeOf_core (hb : b.table.Coherent) (codesName : String) (e : Entry) :
    b.core.shapeOf codesName e.core = Shape.core <$> b.shapeOf codesName e := by
  have hcore := erases_core hb
  have hdecl : (Erasure.core.entry e).decl = e.decl.core := rfl
  have hbases : ∀ rs, b.core.shapeBases (Erasure.core.entry e) none [] rs = _ := hcore.shapeBases e none []
  have hidentify : ∀ owner fields, b.core.identify owner (List.map Erasure.core.field fields) = _ := identify_core
  have hconstants : ∀ owner cs, b.core.shapeConstants owner cs = b.shapeConstants owner cs := fun _ _ => rfl
  show b.core.shapeOf codesName (Erasure.core.entry e) = _
  rw [shapeOf, shapeOf, hdecl]
  cases e.decl with
  | enum head members => rfl
  | type head body nested =>
    simp only [Declaration.core, length_entries_core, Erasure.core.inside_entry, hcore.shapeParams, hbases,
      hcore.chainFields, hcore.mapM_fields, ← map_append, hidentify, hcore.shapeResult, hcore.declaredConstants,
      hconstants, map_bind, bind_map_left, map_pure]
    rfl

end Binder

end Binding

open Contract (Constant Declaration)
open Naming (Entry Policy)
open Outcome

def Naming.Entry.unnamed (e : Entry) : Entry := { e with name := "" }

theorem Naming.Entry.unnamed_eq_iff {e e' : Entry} : e.unnamed = e'.unnamed ↔
    e.qualified = e'.qualified ∧ e.ns = e'.ns ∧ e.path = e'.path ∧ e.decl = e'.decl ∧ e.parent? = e'.parent? := by
  simp [unnamed]

namespace Binding

namespace Bound

mutual

/-- The bound type without emitted names and target types. -/
def unnamed : Bound → Bound
  | primitive occ category _ => primitive occ category ""
  | named occ e as => named occ e.unnamed (unnamedAll as)
  | enum occ e => enum occ e.unnamed
  | param occ name => param occ name
  | list occ t => list occ t.unnamed
  | map occ k v => map occ k.unnamed v.unnamed
  | marker occ name as => marker occ name (unnamedAll as)

def unnamedAll : List Bound → List Bound
  | [] => []
  | t :: ts => t.unnamed :: unnamedAll ts

end

private theorem unnamedAll_eq_map (ts : List Bound) : unnamedAll ts = ts.map unnamed := by
  induction ts with
  | nil => rfl
  | cons t ts ih => rw [unnamedAll, ih, map_cons]

end Bound

def ShapeField.unnamed (f : ShapeField) : ShapeField := { f with ident := "", type := f.type.unnamed }

def ShapeConstant.unnamed (c : ShapeConstant) : ShapeConstant := { c with ident := "" }

def ShapeParam.unnamed (p : ShapeParam) : ShapeParam := { p with constraints := p.constraints.map Bound.unnamed }

/-- The shape without emitted names, target types and identifiers of members: what a value of the type looks like on
the wire, and where that comes from. -/
def Shape.unnamed (s : Shape) : Shape :=
  { entry := s.entry.unnamed, body := s.body, params := s.params.map ShapeParam.unnamed
    base? := s.base?.map Bound.unnamed, markers := s.markers.map Bound.unnamed
    fields := s.fields.map ShapeField.unnamed, constants := s.constants.map ShapeConstant.unnamed
    result? := s.result?.map Bound.unnamed, errorCodes := s.errorCodes }

abbrev Erasure.unnamed : Erasure where
  entry := Entry.unnamed
  target _ := ""
  bound := Bound.unnamed
  entry_qualified _ := rfl
  entry_ns _ := rfl
  entry_enum h := ⟨_, h⟩
  entry_type h := ⟨_, _, rfl, h⟩
  bound_primitive _ _ _ := rfl
  bound_named _ _ _ := by rw [Bound.unnamed, Bound.unnamedAll_eq_map]
  bound_enum _ _ := rfl
  bound_param _ _ := rfl
  bound_list _ _ := rfl
  bound_map _ _ _ := rfl
  bound_marker _ _ _ := by rw [Bound.unnamed, Bound.unnamedAll_eq_map]

namespace Binder

/-- The binders hold the same declarations, primitives and markers; names and target types may differ. -/
structure Parallel (b b' : Binder) : Prop where
  lookup : ∀ q, (b.table.lookup q).map Entry.unnamed = (b'.table.lookup q).map Entry.unnamed
  category : b.types.category? = b'.types.category?
  unmangled : b.table.policy.isUnmangled = b'.table.policy.isUnmangled
  length : b.table.entries.length = b'.table.entries.length

/-- Binders that two languages build for one program are parallel. -/
theorem parallel_of_build {b b' : Binder} {p : Contract.Program} {targets targets' : Typing.Targets}
    {overrides : List (String × String)} {policy policy' : Policy} (hd : p.DistinctKept)
    (hunmangled : policy.unmangled = policy'.unmangled) (hb : build targets overrides policy p = .ok b)
    (hb' : build targets' overrides policy' p = .ok b') : Parallel b b' := by
  obtain ⟨htypes, htable⟩ := build_eq_ok.1 hb
  obtain ⟨htypes', htable'⟩ := build_eq_ok.1 hb'
  obtain ⟨names, _, _, ht⟩ := (Naming.Table.resolve_eq_ok hd).1 htable
  obtain ⟨names', _, _, ht'⟩ := (Naming.Table.resolve_eq_ok hd).1 htable'
  refine ⟨fun q => ?_, ?_, ?_, ?_⟩
  · rw [ht, ht', Naming.Table.lookup, Naming.Table.lookup, Naming.Table.ofNames, Naming.Table.ofNames, find?_map,
      find?_map, Option.map_map, Option.map_map]
    rfl
  · have hoverrides : ∀ {targets : Typing.Targets} {types : Typing.Mapper},
        Typing.Mapper.build targets overrides = .ok types →
        Typing.Mapper.readOverrides [] (Text.sortedByKey overrides) = .ok types.overrides := by
      intro targets types h
      unfold Typing.Mapper.build at h
      split at h
      · cases h
      · obtain ⟨read, hread, h⟩ := bind_eq_ok.1 h
        rw [hread, ← pure_eq_ok.1 h]
    have heq := (hoverrides htypes).symm.trans (hoverrides htypes')
    funext name
    rw [Typing.Mapper.category?, Typing.Mapper.category?, Except.ok.inj heq]
  · rw [ht, ht']
    funext name
    exact congrArg (·.contains name) hunmangled
  · rw [ht, ht', Naming.Table.ofNames, Naming.Table.ofNames, (Text.perm_sortBy _ _).length_eq,
      (Text.perm_sortBy _ _).length_eq, length_map, length_map]

variable {b b' : Binder}

/-- Without names, the two are the same binder. -/
theorem Parallel.erases (hb : Parallel b b') : ∃ b₀, Erases .unnamed b b₀ ∧ Erases .unnamed b' b₀ := by
  let b₀ : Binder :=
    { types := { b.types with targets := fun _ => "" }
      table := { b.table with
        entries := b.table.entries.map Entry.unnamed, resolved := b.table.resolved.map Entry.unnamed } }
  have hlookup : ∀ q, b₀.table.lookup q = (b.table.lookup q).map Entry.unnamed := by
    intro q
    rw [Naming.Table.lookup, Naming.Table.lookup, find?_map]
    rfl
  exact ⟨b₀, ⟨hlookup, rfl, fun _ => rfl, rfl, length_map _⟩,
    ⟨fun q => (hlookup q).trans (hb.lookup q), hb.category, fun _ => rfl, hb.unmangled,
      (length_map _).trans hb.length⟩⟩

private theorem shapeConstant_unnamed {owner ident ident' : String} {c : Constant} {x x' : ShapeConstant}
    (h : shapeConstant owner c ident = .ok x) (h' : shapeConstant owner c ident' = .ok x') :
    x.unnamed = x'.unnamed := by
  unfold shapeConstant at h h'
  split at h <;> rename_i hvalue <;> simp only [hvalue] at h' <;> cases h <;> cases h' <;> rfl

private theorem shapeConstants_unnamed {owner : String} {cs : List Constant} {xs xs' : List ShapeConstant}
    (h : b.shapeConstants owner cs = .ok xs) (h' : b'.shapeConstants owner cs = .ok xs') :
    xs.map ShapeConstant.unnamed = xs'.map ShapeConstant.unnamed := by
  refine map_eq_of_forall₂ ?_ (shapeConstants_eq_ok h).1 (shapeConstants_eq_ok h').1
  rintro c x x' ⟨_, hx⟩ ⟨_, hx'⟩
  exact shapeConstant_unnamed hx hx'

/-- Results that become the same are the same in what they become. -/
private theorem eq_of_map_ok {ε α β : Type} {f : α → β} {x x' : Except ε α} {y : Except ε β} {a a' : α}
    (h : y = f <$> x) (h' : y = f <$> x') (hx : x = .ok a) (hx' : x' = .ok a') : f a = f a' := by
  subst hx hx'
  exact Except.ok.inj (h.symm.trans h')

/-- Parallel binders give a type the same shape up to names. -/
theorem shapeOf_parallel (hb : Parallel b b') {codesName : String} {e e' : Entry} (he : e.unnamed = e'.unnamed)
    {s s' : Shape} (h : b.shapeOf codesName e = .ok s) (h' : b'.shapeOf codesName e' = .ok s') :
    s.unnamed = s'.unnamed := by
  obtain ⟨b₀, hb, hb'⟩ := hb.erases
  have hentry : Erasure.unnamed.entry e' = Erasure.unnamed.entry e := he.symm
  have hinside : Scope.inside e' = Scope.inside e := by
    rw [← Erasure.unnamed.inside_entry e', hentry, Erasure.unnamed.inside_entry]
  obtain ⟨head, nested, inherited, own, parts⟩ := shapeOf_eq_ok h
  obtain ⟨head', nested', inherited', own', parts'⟩ := shapeOf_eq_ok h'
  obtain ⟨hq, _, _, hdecl, hparent⟩ := Entry.unnamed_eq_iff.1 he
  obtain ⟨rfl, hbody, rfl⟩ := Declaration.type.inj (parts.decl.symm.trans (hdecl.trans parts'.decl))
  obtain ⟨hbase, hmarkers⟩ : s.base?.map Bound.unnamed = s'.base?.map Bound.unnamed ∧
      s.markers.map Bound.unnamed = s'.markers.map Bound.unnamed :=
    Prod.mk.inj (eq_of_map_ok (hb.shapeBases e none [] _) (hentry ▸ hb'.shapeBases e' none [] _) parts.bases
      (hbody ▸ parts'.bases))
  have herrors : s.errorCodes = s'.errorCodes := by rw [parts.errorCodes, parts'.errorCodes, hparent]
  have hlength : b'.table.entries.length = b.table.entries.length := hb'.length.symm.trans hb.length
  have hchain := parts'.chain
  rw [hlength, ← hq] at hchain
  have hinherited := eq_of_map_ok (hb.chainFields e _ _ _) (by rw [hbase, ← hentry]; exact hb'.chainFields e' _ _ _)
    parts.chain hchain
  -- own fields are bound in the scope of the type, which has no names in it
  have hown : own.map ShapeField.unnamed = own'.map ShapeField.unnamed := by
    have hbound := parts'.bound
    rw [← hbody, hinside] at hbound
    refine map_eq_of_forall₂ ?_ parts.bound hbound
    rintro f _ _ ⟨t, ht, rfl⟩ ⟨t', ht', rfl⟩
    have htype := eq_of_map_ok (hb.bindOptional _ f.type) (hb'.bindOptional _ f.type) ht ht'
    exact congrArg (fun type => ({ wire := f.name, type } : ShapeField)) htype
  have hfields : s.fields.map ShapeField.unnamed = s'.fields.map ShapeField.unnamed := by
    have hident : ∀ p, ShapeField.unnamed ∘ ShapeField.identified p = ShapeField.unnamed := fun _ => rfl
    have hfield : (fun f : ShapeField => { f with ident := "" }) ∘ Erasure.unnamed.field = ShapeField.unnamed := rfl
    have hunnamed := congrArg (List.map fun f : ShapeField => { f with ident := "" }) hinherited
    rw [map_map, map_map, hfield] at hunnamed
    rw [parts.fields, parts'.fields, map_map, map_map, hident, hident, map_append, map_append,
      hunnamed, hown]
  have hconstants := parts'.constants
  rw [← hb'.declaredConstants, ← hq, hentry, ← hbody, ← herrors, ← hbase, hb.declaredConstants] at hconstants
  have hparams := eq_of_map_ok (hb.shapeParams e _) (hentry ▸ hb'.shapeParams e' _) parts.params
    (hbody ▸ parts'.params)
  have hresult := eq_of_map_ok (hb.shapeResult e _) (hentry ▸ hb'.shapeResult e' _) parts.result
    (hbody ▸ parts'.result)
  rw [Shape.unnamed, Shape.unnamed, parts.entry, parts'.entry, he, hbody, hbase, hmarkers, hfields, herrors,
    shapeConstants_unnamed parts.constants hconstants, hresult]
  exact congrArg (fun params => Shape.mk _ _ params _ _ _ _ _ _) hparams

end Binder

end Binding

end Covenant
