import Covenant.Binding.Shape
import Covenant.Proofs.Binding.Reading
import Covenant.Proofs.Naming.Resolution

/-!
# The parts of a shape

A successful `shapeOf` is read apart into the results of its steps.  The walk along the base chain visits bases
(`Binder.links`), every one of which contributes the sites of its fields (`Link.sites`): a wire name, and a reference
with the scope that it is bound in.
-/

namespace Covenant

open Contract (DeclHead Declaration TypeBody TypeRef)
open Naming (Entry Policy)
open Outcome
open List

namespace Binding

/-- The field with the identifier that a policy gives it. -/
def ShapeField.identified (p : Policy) (f : ShapeField) : ShapeField := { f with ident := p.member f.wire }

namespace Binder

variable {b : Binder}

theorem bindFor_eq_ok {context : String} {scope : Scope} {r : Option TypeRef} {t : Bound} :
    b.bindFor context scope r = .ok t ↔ b.bindOptional scope r = .ok t := by
  rw [bindFor, mapError_eq_ok]

theorem identify_eq_ok {owner : String} {fields identified : List ShapeField}
    (h : b.identify owner fields = .ok identified) :
    identified = fields.map (·.identified b.table.policy) := by
  unfold identify at h
  split at h
  · cases h
  · obtain ⟨idents, hidents, h⟩ := bind_eq_ok.1 h
    rw [← pure_eq_ok.1 h, (Policy.membersAfter_eq_ok.1 (mapError_eq_ok.1 hidents)).1, map_map,
      zipWith_map_right, zipWith_self]
    simp only [ShapeField.identified, Function.comp_apply]

theorem nodup_of_identify {owner : String} {fields identified : List ShapeField}
    (h : b.identify owner fields = .ok identified) : (identified.map (·.ident)).Nodup := by
  have hidents : identified.map (·.ident) = (fields.map (·.wire)).map b.table.policy.member := by
    rw [identify_eq_ok h]
    simp only [map_map, Function.comp_def, ShapeField.identified]
  unfold identify at h
  split at h
  · cases h
  · obtain ⟨idents, hmembers, _⟩ := bind_eq_ok.1 h
    rw [hidents]
    exact (Policy.membersAfter_eq_ok.1 (mapError_eq_ok.1 hmembers)).2.2

section

variable {owner : String} {cs : List Contract.Constant} {xs : List ShapeConstant}

private theorem shapeConstants_named (h : b.shapeConstants owner cs = .ok xs) :
    Forall₂ (fun c x => shapeConstant owner c (b.table.policy.member c.name) = .ok x) cs xs ∧
      ((cs.map (·.name)).map b.table.policy.member).Nodup := by
  obtain ⟨idents, hidents, h⟩ := bind_eq_ok.1 h
  obtain ⟨rfl, _, hnodup⟩ := Policy.membersAfter_eq_ok.1 (mapError_eq_ok.1 hidents)
  have hzip : cs.zip ((cs.map (·.name)).map b.table.policy.member) =
      cs.map fun c => (c, b.table.policy.member c.name) := by
    rw [map_map, zip, zipWith_map_right, zipWith_self]
    simp only [Function.comp_apply]
  rw [hzip, mapM_eq_ok, forall₂_map_left_iff] at h
  exact ⟨h, hnodup⟩

theorem shapeConstants_eq_ok (h : b.shapeConstants owner cs = .ok xs) :
    Forall₂ (fun c x => ∃ ident, shapeConstant owner c ident = .ok x) cs xs ∧ (cs.map (·.name)).Nodup := by
  obtain ⟨hnamed, hnodup⟩ := shapeConstants_named h
  exact ⟨hnamed.imp fun c x hx => ⟨_, hx⟩, hnodup.of_map _⟩

theorem ident_of_shapeConstant {c : Contract.Constant} {ident : String} {x : ShapeConstant}
    (h : shapeConstant owner c ident = .ok x) : x.ident = ident := by
  unfold shapeConstant at h
  split at h <;> cases h <;> rfl

theorem idents_of_shapeConstants (h : b.shapeConstants owner cs = .ok xs) :
    xs.map (·.ident) = (cs.map (·.name)).map b.table.policy.member ∧ (xs.map (·.ident)).Nodup := by
  obtain ⟨hnamed, hnodup⟩ := shapeConstants_named h
  have hidents : xs.map (·.ident) = (cs.map (·.name)).map b.table.policy.member := by
    rw [map_map, ← forall₂_eq_eq_eq, forall₂_map_left_iff, forall₂_map_right_iff]
    exact hnamed.flip.imp fun x c hx => by rw [ident_of_shapeConstant hx, Function.comp_apply]
  exact ⟨hidents, hidents ▸ hnodup⟩

end

/-- What a shape consists of, one step of `shapeOf` after the other. -/
structure ShapeParts (b : Binder) (codesName : String) (e : Entry) (s : Shape) (head : DeclHead)
    (nested : List Declaration) (inherited own : List ShapeField) : Prop where
  fields : s.fields = (inherited ++ own).map (·.identified b.table.policy)
  chain : b.chainFields e (b.table.entries.length + 1) [e.qualified] s.base? = .ok inherited
  bound : Forall₂ (fun f g => ∃ t, b.bindOptional (.inside e) f.type = .ok t ∧
    g = ({ wire := f.name, type := t } : ShapeField)) (s.body.fields.filterMap id) own
  decl : e.decl = .type head s.body nested
  entry : s.entry = e
  errorCodes : s.errorCodes = (e.parent?.isSome && head.name == codesName)
  params : b.shapeParams e s.body = .ok s.params
  bases : b.shapeBases e none [] s.body.baseTypes = .ok (s.base?, s.markers)
  result : b.shapeResult e s.body = .ok s.result?
  constants : b.shapeConstants e.qualified (b.declaredConstants e s.body s.base? s.errorCodes) = .ok s.constants
  identified : b.identify e.qualified (inherited ++ own) = .ok s.fields

/-- A shape has parts, one for each step that made it. -/
theorem shapeOf_eq_ok {codesName : String} {e : Entry} {s : Shape} (h : b.shapeOf codesName e = .ok s) :
    ∃ head nested inherited own, ShapeParts b codesName e s head nested inherited own := by
  unfold shapeOf at h
  split at h
  · cases h
  · rename_i head body nested hdecl
    obtain ⟨params, hparams, h⟩ := bind_eq_ok.1 h
    obtain ⟨⟨base?, markers⟩, hbases, h⟩ := bind_eq_ok.1 h
    obtain ⟨inherited, hinherited, h⟩ := bind_eq_ok.1 h
    obtain ⟨own, hown, h⟩ := bind_eq_ok.1 h
    obtain ⟨fields, hfields, h⟩ := bind_eq_ok.1 h
    obtain ⟨result?, hresult, h⟩ := bind_eq_ok.1 h
    obtain ⟨constants, hconstants, h⟩ := bind_eq_ok.1 h
    obtain rfl := pure_eq_ok.1 h
    refine ⟨head, nested, inherited, own, identify_eq_ok hfields, hinherited, ?_, hdecl, rfl, rfl, hparams, hbases,
      hresult, hconstants, hfields⟩
    refine (mapM_eq_ok.1 hown).imp fun f g hg => ?_
    obtain ⟨t, ht, hg⟩ := bind_eq_ok.1 hg
    exact ⟨t, bindFor_eq_ok.1 ht, (pure_eq_ok.1 hg).symm⟩

/-- How base types are sorted, from the base and the markers that were found to those in the end. -/
inductive Sorts (b : Binder) (e : Entry) (base'? : Option Bound) (markers' : List Bound) :
    Option Bound → List Bound → List (Option TypeRef) → Prop
  | done : Sorts b e base'? markers' base'? markers' []
  | marker {base? : Option Bound} {markers : List Bound} {r : Option TypeRef} {refs : List (Option TypeRef)}
      {occ : Occurrence} {name : String} {as : List Bound}
      (ht : b.bindOptional (.inside e) r = .ok (.marker occ name as))
      (h : Sorts b e base'? markers' base? (markers ++ [.marker occ name as]) refs) :
      Sorts b e base'? markers' base? markers (r :: refs)
  | named {base? : Option Bound} {markers : List Bound} {r : Option TypeRef} {refs : List (Option TypeRef)}
      {occ : Occurrence} {x : Entry} {as : List Bound}
      (ht : b.bindOptional (.inside e) r = .ok (.named occ x as)) (hnone : base?.bind (·.declared?) = none)
      (h : Sorts b e base'? markers' (some (.named occ x as)) markers refs) :
      Sorts b e base'? markers' base? markers (r :: refs)

section

variable {e : Entry} {refs : List (Option TypeRef)} {base? base'? : Option Bound} {markers markers' : List Bound}

/-- Sorting base types goes step by step. -/
theorem sorts_of_shapeBases (h : b.shapeBases e base? markers refs = .ok (base'?, markers')) :
    b.Sorts e base'? markers' base? markers refs := by
  induction refs generalizing base? markers with
  | nil =>
    cases h
    exact .done
  | cons r refs ih =>
    rw [shapeBases] at h
    obtain ⟨t, ht, h⟩ := bind_eq_ok.1 h
    rw [bindFor_eq_ok] at ht
    split at h
    next => exact .marker ht (ih h)
    next hnone => exact .named ht hnone (ih h)
    next => exact absurd h throw_ne_ok
    next => exact absurd h throw_ne_ok

theorem Sorts.base (h : b.Sorts e base'? markers' base? markers refs) :
    base'? = base? ∨ ∃ occ base as, base'? = some (.named occ base as) ∧
      ∃ r ∈ refs, b.bindOptional (.inside e) r = .ok (.named occ base as) := by
  induction h with
  | done => exact .inl rfl
  | marker _ _ ih =>
    rcases ih with h | ⟨occ, base, as, h, r, hr, ht⟩
    · exact .inl h
    · exact .inr ⟨occ, base, as, h, r, .tail _ hr, ht⟩
  | named ht _ _ ih =>
    rcases ih with h | ⟨occ, base, as, h, r, hr, ht⟩
    · exact .inr ⟨_, _, _, h, _, .head _, ht⟩
    · exact .inr ⟨occ, base, as, h, r, .tail _ hr, ht⟩

end

end Binder

/-- A base on the chain of a type, with the arguments that its type parameters stand for. -/
structure Link where
  entry : Entry
  body : TypeBody
  arguments : List (Option TypeRef)

/-- Where a field gets its type: its wire name, and the reference with the scope that it is bound in. -/
structure Site where
  wire : String
  scope : Scope
  ref : Option TypeRef

/-- What the names of a base can see while it is walked through on behalf of `e`. -/
def Link.scope (e : Entry) (l : Link) : Scope :=
  { Scope.inside e with namespaces := l.entry.ns :: (Scope.inside e).namespaces }

def Link.bindings (l : Link) : TypeRef.Bindings := Binder.baseBindings l.body l.arguments

def Link.sites (e : Entry) (l : Link) : List Site :=
  (l.body.fields.filterMap id).map fun f => ⟨f.name, l.scope e, f.type.map (·.substitute l.bindings)⟩

def ownSites (e : Entry) (body : TypeBody) : List Site :=
  (body.fields.filterMap id).map fun f => ⟨f.name, .inside e, f.type⟩

namespace Binder

/-- The bases that the walk on behalf of `e` visits, the nearest first. -/
def links (b : Binder) (e : Entry) : Nat → Option Bound → List Link
  | fuel + 1, some (.named occ base _) =>
    match base.decl with
    | .enum _ _ => []
    | .type head body _ =>
      let l : Link := ⟨base, body, occ.ref.arguments⟩
      l :: match b.firstNamed ("base type of " ++ head.name) (l.scope e)
          (body.baseTypes.map (·.map (·.substitute l.bindings))) with
        | .ok next => links b e fuel next
        | .error _ => []
  | _, _ => []

/-- The sites of the fields that `e` inherits from a base, those of the root first. -/
def inheritedSites (b : Binder) (e : Entry) (base? : Option Bound) : List Site :=
  (b.links e (b.table.entries.length + 1) base?).reverse.flatMap (·.sites e)

/-- A field has the wire name of its site, and the type that the reference there is bound to. -/
def FilledBy (b : Binder) (s : Site) (f : ShapeField) : Prop :=
  f.wire = s.wire ∧ b.bindOptional s.scope s.ref = .ok f.type

variable {b : Binder}

private theorem level_filled {e : Entry} {l : Link} {context : Contract.Field → String} {level : List ShapeField}
    (h : ((l.body.fields.filterMap id).mapM fun f => do
      let type ← b.bindFor (context f) (l.scope e) (f.type.map (TypeRef.substitute l.bindings))
      return ({ wire := f.name, type, inherited := true } : ShapeField)) = .ok level) :
    Forall₂ (fun s f => b.FilledBy s f ∧ f.inherited = true) (l.sites e) level := by
  rw [Link.sites, forall₂_map_left_iff]
  refine (mapM_eq_ok.1 h).imp fun f g hg => ?_
  obtain ⟨t, ht, hg⟩ := bind_eq_ok.1 hg
  rw [← pure_eq_ok.1 hg]
  exact ⟨⟨rfl, bindFor_eq_ok.1 ht⟩, rfl⟩

/-- The walk fills the sites of the bases, those of the root first. -/
theorem chainFields_filled {e : Entry} {fuel : Nat} {seen : List String} {base? : Option Bound}
    {fields : List ShapeField} (h : b.chainFields e fuel seen base? = .ok fields) :
    Forall₂ (fun s f => b.FilledBy s f ∧ f.inherited = true)
      ((b.links e fuel base?).reverse.flatMap (·.sites e)) fields := by
  induction fuel generalizing seen base? fields with
  | zero =>
    simp only [chainFields] at h
    cases h
    simp [links]
  | succ fuel ih =>
    rcases base? with _ | t
    · simp only [chainFields] at h
      cases h
      simp [links]
    · cases t with
      | named occ base as =>
        unfold chainFields at h
        unfold links
        rcases hdecl : base.decl with ⟨head, members⟩ | ⟨head, body, nested⟩
        · simp only [hdecl] at h
          cases h
          simp
        · simp only [hdecl] at h
          split at h
          · exact absurd h throw_ne_ok
          · obtain ⟨level, hlevel, h⟩ := bind_eq_ok.1 h
            obtain ⟨next, hnext, h⟩ := bind_eq_ok.1 h
            obtain ⟨rest, hrest, h⟩ := bind_eq_ok.1 h
            rw [← pure_eq_ok.1 h]
            -- the fields of this base stand behind those of the bases beyond it
            have hlevel' := level_filled (l := ⟨base, body, occ.ref.arguments⟩) hlevel
            simp only [Link.scope, Link.bindings]
            rw [hnext]
            simp only [reverse_cons, flatMap_append, flatMap_cons, flatMap_nil, append_nil]
            exact rel_append (ih hrest) hlevel'
      | _ =>
        simp only [chainFields] at h
        cases h
        simp [links]

end Binder

end Binding

end Covenant
