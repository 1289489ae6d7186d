import Covenant.Proofs.Binding.Reading

/-!
# Agreement of references

Two references, each in its own scope, agree if their names read alike down to the last argument, where a type
parameter of the first may stand for a whole reference of the second (`Agrees`).  This decides when the bound types
are equal after type parameters are replaced, up to the references they were bound from (`agrees_iff`).
-/

namespace Covenant.Binding

open Contract (RefHead TypeRef)
open Outcome
open List

def Occurrence.erased (occ : Occurrence) : Occurrence := { occ with ref := default }

namespace Bound

mutual

/-- The bound type without the references that it was bound from. -/
def erased : Bound → Bound
  | primitive occ category target => primitive occ.erased category target
  | named occ e as => named occ.erased e (erasedAll as)
  | enum occ e => enum occ.erased e
  | param occ name => param occ.erased name
  | list occ t => list occ.erased t.erased
  | map occ k v => map occ.erased k.erased v.erased
  | marker occ name as => marker occ.erased name (erasedAll as)

def erasedAll : List Bound → List Bound
  | [] => []
  | t :: ts => t.erased :: erasedAll ts

end

private theorem erasedAll_eq_map (ts : List Bound) : erasedAll ts = ts.map erased := by
  induction ts with
  | nil => rfl
  | cons t ts ih => rw [erasedAll, ih, map_cons]

def reading : Bound → Reading
  | primitive _ category _ => .primitive category
  | named _ e _ | enum _ e => .declared e
  | param _ name => .param name
  | list _ _ => .list
  | map _ _ _ => .dictionary
  | marker _ name _ => .marker name

/-- What binding settles about a head besides its reading: the target of a primitive, and that enumerations and types
are told apart by their declarations. -/
def Settled (b : Binder) : Bound → Prop
  | primitive _ category target => target = b.types.targets category
  | named _ e _ => e.decl.body?.isSome = true
  | enum _ e => e.decl.body? = none
  | _ => True

private theorem erased_eq_iff {b : Binder} {t u : Bound} (ht : t.Settled b) (hu : u.Settled b) :
    t.erased = u.erased ↔
      t.reading = u.reading ∧ t.nullable = u.nullable ∧ t.children.map erased = u.children.map erased := by
  have hocc : ∀ o o' : Occurrence, o.erased = o'.erased ↔ o.nullable = o'.nullable := by
    intro o o'
    simp [Occurrence.erased]
  cases t <;> cases u <;>
    simp only [erased, reading, nullable, occurrence, children, Settled, erasedAll_eq_map, hocc, map_nil,
      map_cons, primitive.injEq, named.injEq, enum.injEq, param.injEq, list.injEq, map.injEq, marker.injEq,
      Reading.primitive.injEq, Reading.declared.injEq, Reading.param.injEq, Reading.marker.injEq, cons.injEq,
      reduceCtorEq, false_and, and_true, true_and] at ht hu ⊢
  all_goals grind

def withOccurrence (occ : Occurrence) : Bound → Bound
  | primitive _ category target => primitive occ category target
  | named _ e as => named occ e as
  | enum _ e => enum occ e
  | param _ name => param occ name
  | list _ t => list occ t
  | map _ k v => map occ k v
  | marker _ name as => marker occ name as

/-- The type, with null among its values if it was or if `nullable` says so. -/
def orNullIf (nullable : Bool) (t : Bound) : Bound :=
  t.withOccurrence { t.occurrence with nullable := t.nullable || nullable }

theorem erased_withOccurrence {occ occ' : Occurrence} (h : occ.nullable = occ'.nullable) (t : Bound) :
    (t.withOccurrence occ).erased = (t.withOccurrence occ').erased := by
  cases t <;> simp [withOccurrence, erased, Occurrence.erased, h]

mutual

/-- The type with every type parameter replaced by what `f` makes of it. -/
def onParams (f : Occurrence → String → Bound) : Bound → Bound
  | param occ name => f occ name
  | primitive occ category target => primitive occ category target
  | named occ e as => named occ e (onParamsAll f as)
  | enum occ e => enum occ e
  | list occ t => list occ (onParams f t)
  | map occ k v => map occ (onParams f k) (onParams f v)
  | marker occ name as => marker occ name (onParamsAll f as)

def onParamsAll (f : Occurrence → String → Bound) : List Bound → List Bound
  | [] => []
  | t :: ts => onParams f t :: onParamsAll f ts

end

/-- The type with type parameters replaced by types; a nullable occurrence makes its replacement nullable. -/
def instantiate (arguments : List (String × Bound)) : Bound → Bound :=
  onParams fun occ name =>
    match arguments.lookup name with
    | some t => t.orNullIf occ.nullable
    | none => .param occ name

variable (f : Occurrence → String → Bound)

private theorem onParamsAll_eq_map (ts : List Bound) : onParamsAll f ts = ts.map (onParams f) := by
  induction ts with
  | nil => rfl
  | cons t ts ih => rw [onParamsAll, ih, map_cons]

private theorem onParams_head {b : Binder} {t : Bound} (hp : ∀ name, t.reading ≠ .param name) (ht : t.Settled b) :
    (t.onParams f).reading = t.reading ∧ (t.onParams f).nullable = t.nullable ∧
      (t.onParams f).children = t.children.map (onParams f) ∧ (t.onParams f).Settled b := by
  cases t with
  | param occ name => exact absurd rfl (hp name)
  | primitive occ category target => exact ⟨rfl, rfl, rfl, ht⟩
  | named occ e as => exact ⟨rfl, rfl, onParamsAll_eq_map f as, ht⟩
  | enum occ e => exact ⟨rfl, rfl, rfl, ht⟩
  | list occ t => exact ⟨rfl, rfl, rfl, trivial⟩
  | map occ k v => exact ⟨rfl, rfl, rfl, trivial⟩
  | marker occ name as => exact ⟨rfl, rfl, onParamsAll_eq_map f as, trivial⟩

end Bound

/-- What a bound type says of the reference that it is bound from. -/
theorem BindStep.head {b : Binder} {scope : Scope} {h : RefHead} {as : List (Option TypeRef)} {t : Bound}
    (hs : BindStep b scope h as t) : t.reading = b.reading scope h ∧ t.nullable = h.nullable ∧
      Forall₂ (fun a u => b.bindOptional scope a = .ok u) as t.children ∧ t.Settled b := by
  cases hs with
  | list hr ha => exact ⟨hr.symm, rfl, .cons ha .nil, trivial⟩
  | map hr hk hv _ => exact ⟨hr.symm, rfl, .cons hk (.cons hv .nil), trivial⟩
  | param hr => exact ⟨hr.symm, rfl, .nil, trivial⟩
  | primitive hr => exact ⟨hr.symm, rfl, .nil, rfl⟩
  | enum hr hd => exact ⟨hr.symm, rfl, .nil, by simp [Bound.Settled, hd, Contract.Declaration.body?]⟩
  | named hr hd _ has => exact ⟨hr.symm, rfl, has, by simp [Bound.Settled, hd, Contract.Declaration.body?]⟩
  | marker hr has => exact ⟨hr.symm, rfl, has, trivial⟩

mutual

/-- Two references agree: their heads read alike in their scopes, are nullable alike, and their arguments agree.
Where the first is a type parameter, `stands` decides. -/
def Agrees (b : Binder) (scope scope' : Scope) (stands : String → Bool → TypeRef → Prop) :
    TypeRef → TypeRef → Prop
  | .mk h as, .mk h' as' =>
    match b.reading scope h with
    | .param name => stands name h.nullable (.mk h' as')
    | r => r = b.reading scope' h' ∧ h.nullable = h'.nullable ∧ AgreesAll b scope scope' stands as as'

def AgreesAll (b : Binder) (scope scope' : Scope) (stands : String → Bool → TypeRef → Prop) :
    List (Option TypeRef) → List (Option TypeRef) → Prop
  | [], [] => True
  | some a :: as, some a' :: as' =>
    Agrees b scope scope' stands a a' ∧ AgreesAll b scope scope' stands as as'
  | _, _ => False

end

/-- Two references read alike in their scopes: every name of the one means what the name in its place means. -/
def ReadsAlike (b : Binder) (scope scope' : Scope) : TypeRef → TypeRef → Prop :=
  Agrees b scope scope' fun name nullable r =>
    b.reading scope' r.head = .param name ∧ nullable = r.head.nullable

section

variable {b : Binder} {scope scope' : Scope} {stands : String → Bool → TypeRef → Prop}
  {f : Occurrence → String → Bound}

private theorem agreesAll_iff {as as' : List (Option TypeRef)} {ts ts' : List Bound}
    (ih : ∀ a, some a ∈ as → ∀ {t a' t'}, b.bind scope a = .ok t → b.bind scope' a' = .ok t' →
      (Agrees b scope scope' stands a a' ↔ t'.erased = (t.onParams f).erased))
    (hts : Forall₂ (fun a t => b.bindOptional scope a = .ok t) as ts)
    (hts' : Forall₂ (fun a t => b.bindOptional scope' a = .ok t) as' ts') :
    AgreesAll b scope scope' stands as as' ↔
      ts'.map Bound.erased = (ts.map (Bound.onParams f)).map Bound.erased := by
  induction hts generalizing as' ts' with
  | nil =>
    cases hts' with
    | nil => simp [AgreesAll]
    | cons ha _ => simp [AgreesAll]
  | cons ha _ ihs =>
    obtain ⟨r, rfl, hr⟩ := Binder.bindOptional_eq_ok.1 ha
    cases hts' with
    | nil => simp [AgreesAll]
    | cons ha' hs' =>
      obtain ⟨r', rfl, hr'⟩ := Binder.bindOptional_eq_ok.1 ha'
      rw [AgreesAll, ih r (by simp) hr hr', ihs (fun a h => ih a (by simp [h])) hs']
      simp only [map_cons, cons.injEq]

/-- Agreement decides equality of bound types, if `stands` does so where the first reference is a type parameter. -/
theorem agrees_iff (hf : ∀ {occ : Occurrence} {name : String} {r' : TypeRef} {t' : Bound},
      b.bind scope' r' = .ok t' → (stands name occ.nullable r' ↔ t'.erased = (f occ name).erased))
    (r : TypeRef) : ∀ {t : Bound} {r' : TypeRef} {t' : Bound}, b.bind scope r = .ok t → b.bind scope' r' = .ok t' →
      (Agrees b scope scope' stands r r' ↔ t'.erased = (t.onParams f).erased) := by
  induction r using TypeRef.inductArguments with
  | step h as ih =>
    intro t r' t' ht ht'
    obtain ⟨h', as'⟩ := r'
    obtain ⟨hread, hnull, hargs, hset⟩ := (Binder.bind_mk_eq_ok.1 ht).head
    obtain ⟨hread', hnull', hargs', hset'⟩ := (Binder.bind_mk_eq_ok.1 ht').head
    by_cases hp : ∃ name, b.reading scope h = .param name
    · -- a type parameter: `stands` decides
      obtain ⟨name, hp⟩ := hp
      cases t with
      | param occ x =>
        obtain rfl : x = name := by simpa [Bound.reading, hp] using hread
        have hn : occ.nullable = h.nullable := hnull
        rw [Agrees, hp, ← hn]
        exact hf ht'
      | _ => simp [Bound.reading, hp] at hread
    · -- another head: it stays what it is, and the arguments decide
      have hne : ∀ name, t.reading ≠ .param name := fun name e => hp ⟨name, by rw [← hread, e]⟩
      obtain ⟨hr, hn, hc, hs⟩ := Bound.onParams_head f hne hset
      have hag : Agrees b scope scope' stands (.mk h as) (.mk h' as') ↔
          b.reading scope h = b.reading scope' h' ∧ h.nullable = h'.nullable ∧
            AgreesAll b scope scope' stands as as' := by
        rw [Agrees]
        split
        · exact absurd ⟨_, ‹_›⟩ hp
        · rfl
      rw [hag, Bound.erased_eq_iff hset' hs, hr, hn, hc, hread, hread', hnull, hnull',
        agreesAll_iff (fun a ha _ _ _ => ih a ha) hargs hargs', eq_comm (a := b.reading scope' h'),
        eq_comm (a := h'.nullable)]

end

mutual

private theorem onParams_param : ∀ t : Bound, t.onParams .param = t
  | .param _ _ | .primitive _ _ _ | .enum _ _ => rfl
  | .named occ e as => by rw [Bound.onParams, onParamsAll_param as]
  | .list occ t => by rw [Bound.onParams, onParams_param t]
  | .map occ k v => by rw [Bound.onParams, onParams_param k, onParams_param v]
  | .marker occ name as => by rw [Bound.onParams, onParamsAll_param as]

private theorem onParamsAll_param : ∀ ts : List Bound, Bound.onParamsAll .param ts = ts
  | [] => rfl
  | t :: ts => by rw [Bound.onParamsAll, onParams_param t, onParamsAll_param ts]

end

theorem readsAs_param {b : Binder} {scope : Scope} {occ : Occurrence} {name : String} {r : TypeRef} {t : Bound}
    (ht : b.bind scope r = .ok t) :
    (b.reading scope r.head = .param name ∧ occ.nullable = r.head.nullable) ↔
      t.erased = (Bound.param occ name).erased := by
  obtain ⟨h, as⟩ := r
  obtain ⟨hread, hnull, _, hset⟩ := (Binder.bind_mk_eq_ok.1 ht).head
  rw [Bound.erased_eq_iff hset (u := .param occ name) trivial, hread, hnull]
  constructor
  · rintro ⟨hp, hn⟩
    refine ⟨hp, hn.symm, ?_⟩
    rw [TypeRef.head] at hp
    cases t with
    | param => rfl
    | _ => simp [Bound.reading, hp] at hread
  · rintro ⟨hp, hn, _⟩
    exact ⟨hp, hn.symm⟩

/-- References read alike exactly if they are bound to the same type. -/
theorem readsAlike_iff {b : Binder} {scope scope' : Scope} {r r' : TypeRef} {t t' : Bound}
    (ht : b.bind scope r = .ok t) (ht' : b.bind scope' r' = .ok t') :
    ReadsAlike b scope scope' r r' ↔ t'.erased = t.erased := by
  rw [ReadsAlike, agrees_iff readsAs_param r ht ht', onParams_param]

end Covenant.Binding
