import Covenant.Proofs.Binding.Shape

/-!
# Substitutions one after the other

Putting references in for type parameters and then others for the parameters of those is one substitution
(`Bindings.andThen`).  So a walk along generic bases may put the arguments of each base into those of the next one
before it puts them into the types of fields.
-/

namespace Covenant.Contract.TypeRef

open Binding (Binder)
open List

variable {bindings : Bindings} {h : RefHead} {as : List (Option TypeRef)}

/-- The bindings that stand for the first and then the second. -/
def Bindings.andThen (first second : Bindings) : Bindings := first.map (Prod.map id (·.substitute second)) ++ second

private theorem Bindings.lookup_andThen (first second : Bindings) (name : String) :
    (first.andThen second).lookup name = ((first.lookup name).map (·.substitute second)).or (second.lookup name) := by
  induction first with
  | nil => rfl
  | cons b first ih =>
    obtain ⟨key, r⟩ := b
    simp only [andThen, map_cons, cons_append, Prod.map_apply, id, lookup_cons] at ih ⊢
    cases name == key with
    | true => rfl
    | false => exact ih

private theorem substituteArguments_eq_map (as : List (Option TypeRef)) :
    substituteArguments bindings as = as.map (·.map (·.substitute bindings)) := by
  induction as with
  | nil => rfl
  | cons a as ih => cases a <;> simp [substituteArguments, ih]

def bound? (bindings : Bindings) (r : TypeRef) : Option TypeRef :=
  if r.isSimple then bindings.lookup r.head.name else none

private theorem substitute_of_bound {r : TypeRef} (hbound : bound? bindings (mk h as) = some r) :
    (mk h as).substitute bindings = if h.nullable then r.orNull else r := by
  rw [bound?] at hbound
  split at hbound
  next hsimple =>
    cases as with
    | nil => rw [substitute, if_pos hsimple, show bindings.lookup h.name = some r from hbound]
    | cons a as => simp [isSimple] at hsimple
  next => cases hbound

private theorem substitute_of_free (hfree : bound? bindings (mk h as) = none) :
    (mk h as).substitute bindings = mk h (as.map (·.map (·.substitute bindings))) := by
  cases as with
  | nil =>
    rw [bound?] at hfree
    rw [substitute]
    split
    next hsimple =>
      rw [if_pos hsimple] at hfree
      rw [show bindings.lookup h.name = none from hfree]
      rfl
    next => rfl
  | cons a as => rw [substitute, substituteArguments_eq_map]

private theorem substitute_orNull (bindings : Bindings) (r : TypeRef) :
    r.orNull.substitute bindings = (r.substitute bindings).orNull := by
  obtain ⟨h, as⟩ := r
  have hbound : bound? bindings (mk { h with nullable := true } as) = bound? bindings (mk h as) := rfl
  cases hr : bound? bindings (mk h as) with
  | none => rw [orNull, substitute_of_free (hbound.trans hr), substitute_of_free hr, orNull]
  | some r =>
    rw [orNull, substitute_of_bound (hbound.trans hr), substitute_of_bound hr]
    cases h.nullable <;> cases r <;> rfl

private theorem substitute_substitute {first second both : Bindings}
    (hboth : ∀ name, both.lookup name = (first.andThen second).lookup name) (r : TypeRef) :
    (r.substitute first).substitute second = r.substitute both := by
  induction r using inductArguments with
  | step h as ih =>
    have hbound : bound? both (mk h as) =
        ((bound? first (mk h as)).map (·.substitute second)).or (bound? second (mk h as)) := by
      unfold bound?
      split
      · rw [hboth, Bindings.lookup_andThen]
      · rfl
    -- the first substitution binds the reference, or only its arguments change
    cases hfirst : bound? first (mk h as) with
    | some r =>
      rw [hfirst] at hbound
      rw [substitute_of_bound hfirst, substitute_of_bound hbound]
      split
      · exact substitute_orNull second r
      · rfl
    | none =>
      rw [hfirst] at hbound
      have hargs : as.map (·.map (·.substitute both)) =
          (as.map (·.map (·.substitute first))).map (·.map (·.substitute second)) := by
        rw [map_map]
        refine map_congr_left fun a ha => ?_
        cases a with
        | none => rfl
        | some a => exact congrArg some (ih a ha).symm
      have hsecond : bound? second (mk h (as.map (·.map (·.substitute first)))) = bound? second (mk h as) := by
        simp [bound?, isSimple, head]
      rw [substitute_of_free hfirst]
      cases hr : bound? second (mk h as) with
      | some r =>
        rw [hr] at hbound hsecond
        rw [substitute_of_bound hsecond, substitute_of_bound hbound]
      | none =>
        rw [hr] at hbound hsecond
        rw [substitute_of_free hsecond, substitute_of_free hbound, hargs]

private theorem substitute_nil (r : TypeRef) : r.substitute [] = r := by
  induction r using inductArguments with
  | step h as ih =>
    have hfree : bound? [] (mk h as) = none := by
      unfold bound?
      split <;> rfl
    have hargs : as.map (·.map (·.substitute [])) = as := by
      refine (map_congr_left fun a ha => ?_).trans (map_id as)
      cases a with
      | none => rfl
      | some a => exact congrArg some (ih a ha)
    rw [substitute_of_free hfree, hargs]

private theorem substitute_chain (chain : List Bindings) (r : TypeRef) :
    chain.foldl (fun r bindings => r.substitute bindings) r = r.substitute (chain.foldr Bindings.andThen []) := by
  induction chain generalizing r with
  | nil => exact (substitute_nil r).symm
  | cons first rest ih => rw [foldl_cons, ih, foldr_cons, substitute_substitute fun _ => rfl]

private theorem baseBindings_substitute (body : TypeBody) {base : TypeRef} (hbase : base.arguments ≠ []) :
    Binder.baseBindings body (base.substitute bindings).arguments ++ bindings =
      (Binder.baseBindings body base.arguments).andThen bindings := by
  obtain ⟨h, as⟩ := base
  have hfree : bound? bindings (mk h as) = none := by
    have has : as.isEmpty = false := isEmpty_eq_false_iff.2 hbase
    simp [bound?, isSimple, has]
  rw [substitute_of_free hfree]
  simp only [arguments, Bindings.andThen, Binder.baseBindings, map_reverse, zip_map_right, filterMap_map,
    map_filterMap]
  congr 3
  funext p
  obtain ⟨name, a⟩ := p
  cases a <;> rfl

/-- Two substitutions, one after the other, are one with composed bindings, and so are any number of them.
Substitution keeps what may be null, and without bindings it changes nothing.  Putting the arguments of a base into a
type and then what they are bound to is putting in the arguments with that already in them. -/
theorem substitutions_compose (first second : Bindings) :
    (∀ name, (first.andThen second).lookup name =
      ((first.lookup name).map (·.substitute second)).or (second.lookup name)) ∧
    (∀ both : Bindings, (∀ name, both.lookup name = (first.andThen second).lookup name) →
      ∀ r : TypeRef, (r.substitute first).substitute second = r.substitute both) ∧
    (∀ r : TypeRef, r.orNull.substitute first = (r.substitute first).orNull ∧ r.substitute [] = r) ∧
    (∀ (chain : List Bindings) (r : TypeRef),
      chain.foldl (fun r bindings => r.substitute bindings) r = r.substitute (chain.foldr Bindings.andThen [])) ∧
    ∀ (body : TypeBody) (base r : TypeRef), base.arguments ≠ [] →
      (r.substitute (Binder.baseBindings body base.arguments)).substitute first =
        r.substitute (Binder.baseBindings body (base.substitute first).arguments ++ first) := by
  refine ⟨first.lookup_andThen second, fun both hboth => substitute_substitute hboth,
    fun r => ⟨substitute_orNull first r, substitute_nil r⟩, substitute_chain, fun body base r hbase => ?_⟩
  rw [baseBindings_substitute body hbase]
  exact substitute_substitute (fun _ => rfl) r

end Covenant.Contract.TypeRef
