import Covenant.Emit.Dart
import Covenant.Proofs.Binding.Agreement
import Covenant.Proofs.Binding.Shape

/-!
# Inherited fields

A type inherits the fields of its base chain with the type parameters of every base replaced.  The references are
substituted before they are bound, in a scope that joins the namespace of the base with the scope of the derived type,
so a name of either side can be captured.  `inherited_hygienic_iff` tells when none is.
-/

namespace Covenant.Binding

open Contract (DeclHead Declaration Program TypeBody TypeRef)
open Naming (Entry)
open Outcome
open List

/-- What the type parameters of a base stand for in a type that extends it; of equal names the last counts. -/
def baseArguments (body : TypeBody) (arguments : List Bound) : List (String × Bound) :=
  (body.parameterNames.zip arguments).reverse

/-- The inherited fields of `derived` are, in order, the fields of `base` with the type parameters of the base
replaced by `arguments`, up to the references that the types were bound from. -/
def Hygienic (derived base : Shape) (arguments : List Bound) : Prop :=
  derived.inheritedFields.map (fun f => (f.wire, f.ident, f.type.erased)) =
    base.fields.map fun f =>
      (f.wire, f.ident, (f.type.instantiate (baseArguments base.body arguments)).erased)

/-- A type parameter of the base has to be met by a reference that reads in `scope` as the argument reads inside the
derived type, and is nullable if either is; without an argument, by itself. -/
def StandsFor (b : Binder) (inside scope : Scope) (bindings : TypeRef.Bindings) (name : String) (nullable : Bool)
    (r : TypeRef) : Prop :=
  match bindings.lookup name with
  | some a => ReadsAlike b inside scope (if nullable then a.orNull else a) r
  | none => b.reading scope r.head = .param name ∧ nullable = r.head.nullable

/-- No name is captured: along the walk from `derived`, every name in the type of a field reads as the name in its
place reads along the walk from `base`, and an argument reads as it does inside `derived`. -/
def Uncaptured (b : Binder) (derived base : Shape) (arguments : List (Option TypeRef)) : Prop :=
  Forall₂ (fun s s' => s.wire = s'.wire ∧ AgreesAll b s.scope s'.scope
      (StandsFor b (.inside derived.entry) s'.scope (Binder.baseBindings base.body arguments)) [s.ref] [s'.ref])
    (b.inheritedSites base.entry base.base? ++ ownSites base.entry base.body)
    (b.inheritedSites derived.entry derived.base?)

section

variable {b : Binder} {scope : Scope} {ts : List Bound}

private theorem bind_orNull {r : TypeRef} {t : Bound} (h : b.bind scope r = .ok t) :
    b.bind scope r.orNull = .ok (t.withOccurrence ⟨r.orNull, true⟩) := by
  obtain ⟨hd, as⟩ := r
  -- the reading of a head does not look at its nullability
  have hread : b.reading scope { hd with nullable := true } = b.reading scope hd := rfl
  apply Binder.bind_mk_eq_ok.2
  cases Binder.bind_mk_eq_ok.1 h with
  | list hr ha => exact .list (hread.trans hr) ha
  | map hr hk hv hkey => exact .map (hread.trans hr) hk hv hkey
  | param hr => exact .param (hread.trans hr)
  | primitive hr => exact .primitive (hread.trans hr)
  | enum hr hdecl => exact .enum (hread.trans hr) hdecl
  | named hr hdecl hlen has => exact .named (hread.trans hr) hdecl hlen has
  | marker hr has => exact .marker (hread.trans hr) has

private theorem bind_nullable {r : TypeRef} {t : Bound} (h : b.bind scope r = .ok t) (nullable : Bool) :
    ∃ u, b.bind scope (if nullable then r.orNull else r) = .ok u ∧ u.erased = (t.orNullIf nullable).erased := by
  cases nullable with
  | false =>
    refine ⟨t, h, ?_⟩
    cases t <;> simp [Bound.orNullIf, Bound.withOccurrence, Bound.nullable, Bound.occurrence]
  | true => exact ⟨_, bind_orNull h, Bound.erased_withOccurrence (by simp) t⟩

private theorem named_arguments {r : Option TypeRef} {occ : Occurrence} {e : Entry}
    (h : b.bindOptional scope r = .ok (.named occ e ts)) :
    Forall₂ (fun a t => b.bindOptional scope a = .ok t) occ.ref.arguments ts := by
  obtain ⟨⟨hd, as⟩, rfl, h⟩ := Binder.bindOptional_eq_ok.1 h
  cases Binder.bind_mk_eq_ok.1 h with
  | named _ _ _ has => exact has

private theorem forall₂_baseBindings (body : TypeBody) {as : List (Option TypeRef)}
    (h : Forall₂ (fun a t => b.bindOptional scope a = .ok t) as ts) :
    Forall₂ (fun p q => p.1 = q.1 ∧ b.bind scope p.2 = .ok q.2)
      (Binder.baseBindings body as) (baseArguments body ts) := by
  rw [Binder.baseBindings, baseArguments, forall₂_reverse_iff]
  generalize body.parameterNames = names
  induction h generalizing names with
  | nil => simp
  | cons ha _ ih =>
    obtain ⟨r, rfl, hr⟩ := Binder.bindOptional_eq_ok.1 ha
    cases names with
    | nil => simp
    | cons name names => exact .cons ⟨rfl, hr⟩ (ih names)

private theorem lookup_forall₂ {ps : List (String × TypeRef)} {qs : List (String × Bound)} (name : String)
    (h : Forall₂ (fun p q => p.1 = q.1 ∧ b.bind scope p.2 = .ok q.2) ps qs) :
    (ps.lookup name = none ∧ qs.lookup name = none) ∨
      ∃ a t, ps.lookup name = some a ∧ qs.lookup name = some t ∧ b.bind scope a = .ok t := by
  induction h with
  | nil => exact .inl ⟨rfl, rfl⟩
  | @cons p q ps qs hpq _ ih =>
    obtain ⟨n, a⟩ := p
    obtain ⟨m, t⟩ := q
    obtain ⟨rfl, ha⟩ : n = m ∧ b.bind scope a = .ok t := hpq
    by_cases hn : name = n
    · subst hn
      exact .inr ⟨a, t, by simp, by simp, ha⟩
    · have hb : (name == n) = false := beq_eq_false_iff_ne.2 hn
      simp only [lookup_cons, hb]
      exact ih

private theorem standsFor_iff {scope' : Scope} {body : TypeBody} {as : List (Option TypeRef)}
    (h : Forall₂ (fun a t => b.bindOptional scope a = .ok t) as ts) {occ : Occurrence} {name : String}
    {r' : TypeRef} {t' : Bound} (ht' : b.bind scope' r' = .ok t') :
    StandsFor b scope scope' (Binder.baseBindings body as) name occ.nullable r' ↔
      t'.erased = (Bound.instantiate (baseArguments body ts) (.param occ name)).erased := by
  unfold StandsFor
  rw [Bound.instantiate, Bound.onParams]
  rcases lookup_forall₂ name (forall₂_baseBindings body h) with ⟨hp, hq⟩ | ⟨a, t, hp, hq, ha⟩
  · rw [hp, hq]
    exact readsAs_param ht'
  · rw [hp, hq]
    obtain ⟨u, hu, hue⟩ := bind_nullable ha occ.nullable
    show ReadsAlike b scope scope' _ r' ↔ t'.erased = (t.orNullIf occ.nullable).erased
    rw [readsAlike_iff hu ht', hue]

end

section

variable {b : Binder} {codesName : String} {e : Entry} {s : Shape} {head : DeclHead} {nested : List Declaration}
  {inherited own : List ShapeField}

private theorem parts_filled (h : b.ShapeParts codesName e s head nested inherited own) :
    Forall₂ b.FilledBy (b.inheritedSites e s.base? ++ ownSites e s.body) (inherited ++ own) := by
  refine rel_append ((Binder.chainFields_filled h.chain).imp fun _ _ h => h.1) ?_
  rw [ownSites, forall₂_map_left_iff]
  refine h.bound.imp fun f g => ?_
  rintro ⟨t, ht, rfl⟩
  exact ⟨rfl, ht⟩

private theorem parts_inheritedFields (h : b.ShapeParts codesName e s head nested inherited own) :
    s.inheritedFields = inherited.map (·.identified b.table.policy) := by
  have h1 : (inherited.filter (·.inherited)) = inherited := by
    refine filter_eq_self.2 fun f hf => ?_
    obtain ⟨_, _, hf⟩ := exists_of_mem_right (Binder.chainFields_filled h.chain) hf
    exact hf.2
  have h2 : (own.filter (·.inherited)) = [] := by
    refine filter_eq_nil_iff.2 fun f hf => ?_
    obtain ⟨_, _, t, _, rfl⟩ := exists_of_mem_right h.bound hf
    simp
  rw [Shape.inheritedFields, h.fields, filter_map]
  show ((inherited ++ own).filter (·.inherited)).map _ = _
  rw [filter_append, h1, h2, append_nil]

end

/-- The fields that a type inherits are those of its base with the type arguments put in, exactly if no name is
captured. -/
theorem inherited_hygienic_iff {b : Binder} {codesName : String} {derived base : Entry} {s t : Shape}
    {occ : Occurrence} {arguments : List Bound} (hs : b.shapeOf codesName derived = .ok s)
    (hbase : s.base? = some (.named occ base arguments)) (ht : b.shapeOf codesName base = .ok t) :
    Hygienic s t arguments ↔ Uncaptured b s t occ.ref.arguments := by
  obtain ⟨_, _, inherited, own, ps⟩ := Binder.shapeOf_eq_ok hs
  obtain ⟨_, _, inherited', own', pt⟩ := Binder.shapeOf_eq_ok ht
  -- the arguments are bound inside the derived type
  have hargs : Forall₂ (fun a t => b.bindOptional (.inside derived) a = .ok t) occ.ref.arguments arguments := by
    rcases (Binder.sorts_of_shapeBases ps.bases).base with h | ⟨_, _, _, h, r, _, hr⟩
    · rw [hbase] at h
      cases h
    · rw [hbase] at h
      cases h
      exact named_arguments hr
  have hfields : Hygienic s t arguments ↔ Forall₂ (fun f g => f.wire = g.wire ∧
      g.type.erased = (f.type.instantiate (baseArguments t.body arguments)).erased)
        (inherited' ++ own') inherited := by
    rw [Hygienic, parts_inheritedFields ps, pt.fields, map_map, map_map, eq_comm,
      ← forall₂_eq_eq_eq, forall₂_map_left_iff, forall₂_map_right_iff]
    constructor
    · refine fun h => h.imp fun f g hfg => ?_
      simp only [Function.comp, ShapeField.identified, Prod.mk.injEq] at hfg
      exact ⟨hfg.1, hfg.2.2.symm⟩
    · refine fun h => h.imp fun f g hfg => ?_
      simp only [Function.comp, ShapeField.identified, Prod.mk.injEq]
      exact ⟨hfg.1, by rw [hfg.1], hfg.2.symm⟩
  rw [hfields, Uncaptured, ps.entry, pt.entry]
  refine (forall₂_iff_of_forall₂ ?_ (parts_filled pt)
    ((Binder.chainFields_filled ps.chain).imp fun _ _ h => h.1)).symm
  rintro site f site' g ⟨hw, hf⟩ ⟨hw', hg⟩
  obtain ⟨r, hr, hf⟩ := Binder.bindOptional_eq_ok.1 hf
  obtain ⟨r', hr', hg⟩ := Binder.bindOptional_eq_ok.1 hg
  rw [hw, hw', hr, hr', AgreesAll, AgreesAll, and_true, agrees_iff (standsFor_iff hargs) r hf hg]
  rfl

/-- A generic page with its users in one namespace, and in another one a type that extends the page with users of its
own. -/
def shop : Program :=
  { name := "Shop"
    declarations :=
      [.type { ns := "App", name := "User" } {} [],
        .type { ns := "App", name := "Page" }
          { typeParameters := [some { name := "T" }],
            fields := [some { name := "Item", type := some (.named "T") }] } [],
        .type { ns := "Shop", name := "User" } {} [],
        .type { ns := "Shop", name := "Users" }
          { baseTypes := [some (.within "App" "Page" [.named "User"])] } []] }

def Bound.declaredName? (t : Bound) : Option String := t.declared?.map (·.qualified)

/-- The declared types of the fields that a type of a program inherits, and those that its base has for them. -/
def inheritedNames (p : Program) (derived : String) : Option (List (Option String) × List (Option String)) :=
  match Binder.build Emit.Dart.targets [] Emit.Dart.policy p with
  | .error _ => none
  | .ok b =>
    match b.table.lookup derived with
    | none => none
    | some e =>
      match b.shapeOf "ErrorCodes" e with
      | .error _ => none
      | .ok s =>
        match s.base? with
        | some (.named _ base arguments) =>
          match b.shapeOf "ErrorCodes" base with
          | .error _ => none
          | .ok t => some (s.inheritedFields.map (·.type.declaredName?),
              t.fields.map fun f => (f.type.instantiate (baseArguments t.body arguments)).declaredName?)
        | _ => none

private theorem declaredName?_erased (t : Bound) : t.erased.declaredName? = t.declaredName? := by
  cases t <;> rfl

private theorem inheritedNames_eq_some {p : Program} {derived : String} {names names' : List (Option String)}
    (h : inheritedNames p derived = some (names, names')) :
    ∃ (b : Binder) (e base : Entry) (s t : Shape) (occ : Occurrence) (arguments : List Bound),
      Binder.build Emit.Dart.targets [] Emit.Dart.policy p = .ok b ∧ b.table.lookup derived = some e ∧
      b.shapeOf "ErrorCodes" e = .ok s ∧ s.base? = some (.named occ base arguments) ∧
      b.shapeOf "ErrorCodes" base = .ok t ∧ (Hygienic s t arguments → names = names') := by
  unfold inheritedNames at h
  split at h
  · cases h
  · rename_i b hb
    split at h
    · cases h
    · rename_i e he
      split at h
      · cases h
      · rename_i s hs
        split at h
        · rename_i occ base arguments hbase
          split at h
          · cases h
          · rename_i t ht
            cases h
            refine ⟨b, e, base, s, t, occ, arguments, hb, he, hs, hbase, ht, fun hyg => ?_⟩
            have := congrArg (List.map fun f => f.2.2.declaredName?) hyg
            simpa [map_map, Function.comp_def, declaredName?_erased] using this
        · cases h

private theorem inheritedNames_shop :
    inheritedNames shop "Shop.Users" = some ([some "App.User"], [some "Shop.User"]) := by
  decide +kernel

/-- In `shop` the users of the shop inherit the users of the page: the argument of the base is captured by the
namespace of the base. -/
theorem inherited_argument_captured :
    ∃ (b : Binder) (derived base : Entry) (s t : Shape) (occ : Occurrence) (arguments : List Bound),
      Binder.build Emit.Dart.targets [] Emit.Dart.policy shop = .ok b ∧
      b.table.lookup "Shop.Users" = some derived ∧ b.shapeOf "ErrorCodes" derived = .ok s ∧
      s.base? = some (.named occ base arguments) ∧ b.shapeOf "ErrorCodes" base = .ok t ∧
      ¬Hygienic s t arguments := by
  obtain ⟨b, e, base, s, t, occ, arguments, hb, he, hs, hbase, ht, hyg⟩ := inheritedNames_eq_some inheritedNames_shop
  refine ⟨b, e, base, s, t, occ, arguments, hb, he, hs, hbase, ht, fun h => ?_⟩
  have := hyg h
  simp at this

/-- The captured name of `shop` shows along the two walks. -/
theorem inherited_hygienic_iff_shop :
    ∃ (b : Binder) (derived base : Entry) (s t : Shape) (occ : Occurrence) (arguments : List Bound),
      b.shapeOf "ErrorCodes" derived = .ok s ∧ s.base? = some (.named occ base arguments) ∧
      b.shapeOf "ErrorCodes" base = .ok t ∧ ¬Uncaptured b s t occ.ref.arguments := by
  obtain ⟨b, e, base, s, t, occ, arguments, _, _, hs, hbase, ht, hyg⟩ := inheritedNames_eq_some inheritedNames_shop
  refine ⟨b, e, base, s, t, occ, arguments, hs, hbase, ht, fun hu => ?_⟩
  have := hyg ((inherited_hygienic_iff hs hbase ht).2 hu)
  simp at this

end Covenant.Binding
