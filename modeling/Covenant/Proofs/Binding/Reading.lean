import Covenant.Binding.Bind
import Covenant.Proofs.Outcome

/-!
# What a reference reads as

Binding a reference is two things: reading its head in a scope (`Binder.reading`), and binding its arguments.
`BindStep` says once what a successful binding can be, one case for each reading; nothing after it unfolds `bind`.
-/

namespace Covenant

open Contract (DeclHead Declaration EnumMember RefHead TypeBody TypeRef)
open Naming (Entry)
open Typing (Primitive)
open Outcome
open List

/-- Induction on references: a property holds of a reference if it holds of the arguments that are there. -/
theorem Contract.TypeRef.inductArguments {P : TypeRef → Prop}
    (step : ∀ h as, (∀ a, some a ∈ as → P a) → P (.mk h as)) : ∀ r, P r
  | .mk h as => step h as fun a _ => inductArguments step a
termination_by r => sizeOf r
decreasing_by
  rename_i ha
  have := sizeOf_lt_of_mem ha
  simp only [Option.some.sizeOf_spec, TypeRef.mk.sizeOf_spec] at this ⊢
  omega

namespace Binding

theorem Bound.eq_named_of_declared? {t : Bound} {x : Entry} (h : t.declared? = some x) :
    ∃ occ as, t = .named occ x as := by
  cases t with
  | named occ e as =>
    cases h
    exact ⟨occ, as, rfl⟩
  | _ => cases h

inductive Reading where
  | list
  | dictionary
  | param (name : String)
  | primitive (category : Primitive)
  | declared (entry : Entry)
  | marker (name : String)
  | unknown

/-- Reads the head of a reference: collections first, and then the meanings of a name in their order. -/
def Binder.reading (b : Binder) (scope : Scope) (h : RefHead) : Reading :=
  if h.isList then .list
  else if h.isDictionary then .dictionary
  else if h.ns.isEmpty && scope.params.contains h.name then .param h.name
  else match (if h.ns.isEmpty then b.types.category? h.name else none) with
    | some category => .primitive category
    | none =>
      match b.resolve? scope h with
      | some e => .declared e
      | none => if h.ns.isEmpty && b.table.policy.isUnmangled h.name then .marker h.name else .unknown

/-- Binds a reference whose head reads as given: what is left is its arguments. -/
def Binder.bindAs (b : Binder) (scope : Scope) (h : RefHead) (as : List (Option TypeRef)) :
    Reading → Except BindDefect Bound
  | .list =>
    match as with
    | [a] => return .list ⟨.mk h as, h.nullable⟩ (← b.bindOptional scope a)
    | _ => .error (.listArguments (TypeRef.mk h as).text)
  | .dictionary =>
    match as with
    | [k, v] => do
      let key ← b.bindOptional scope k
      let value ← b.bindOptional scope v
      if key.isKey then return .map ⟨.mk h as, h.nullable⟩ key value
      else throw (.keyType (TypeRef.mk h as).text key.ref.text)
    | _ => .error (.dictionaryArguments (TypeRef.mk h as).text)
  | .param name => if as.isEmpty then .ok (.param ⟨.mk h as, h.nullable⟩ name) else .error (.paramArguments h.name)
  | .primitive category =>
    if as.isEmpty then .ok (.primitive ⟨.mk h as, h.nullable⟩ category (b.types.targets category))
    else .error (.primitiveArguments h.name)
  | .declared e =>
    match e.decl with
    | .enum _ _ => if as.isEmpty then .ok (.enum ⟨.mk h as, h.nullable⟩ e) else .error (.enumArguments e.qualified)
    | .type _ body _ =>
      if as.length = body.typeParameters.length then
        return .named ⟨.mk h as, h.nullable⟩ e (← b.bindArguments scope as)
      else .error (.arity e.qualified body.typeParameters.length as.length (TypeRef.mk h as).text)
  | .marker name => return .marker ⟨.mk h as, h.nullable⟩ name (← b.bindArguments scope as)
  | .unknown => .error (.unresolved (TypeRef.mk h as).text)

/-- The bound types that a reference with the given head and arguments can become. -/
inductive BindStep (b : Binder) (scope : Scope) (h : RefHead) : List (Option TypeRef) → Bound → Prop
  | list {a : Option TypeRef} {t : Bound} : b.reading scope h = .list → b.bindOptional scope a = .ok t →
      BindStep b scope h [a] (.list ⟨.mk h [a], h.nullable⟩ t)
  | map {k v : Option TypeRef} {key value : Bound} : b.reading scope h = .dictionary →
      b.bindOptional scope k = .ok key → b.bindOptional scope v = .ok value → key.isKey = true →
      BindStep b scope h [k, v] (.map ⟨.mk h [k, v], h.nullable⟩ key value)
  | param {name : String} : b.reading scope h = .param name →
      BindStep b scope h [] (.param ⟨.mk h [], h.nullable⟩ name)
  | primitive {category : Primitive} : b.reading scope h = .primitive category →
      BindStep b scope h [] (.primitive ⟨.mk h [], h.nullable⟩ category (b.types.targets category))
  | enum {e : Entry} {head : DeclHead} {members : List (Option EnumMember)} : b.reading scope h = .declared e →
      e.decl = .enum head members → BindStep b scope h [] (.enum ⟨.mk h [], h.nullable⟩ e)
  | named {e : Entry} {head : DeclHead} {body : TypeBody} {nested : List Declaration}
      {as : List (Option TypeRef)} {ts : List Bound} : b.reading scope h = .declared e →
      e.decl = .type head body nested → as.length = body.typeParameters.length →
      Forall₂ (fun a t => b.bindOptional scope a = .ok t) as ts →
      BindStep b scope h as (.named ⟨.mk h as, h.nullable⟩ e ts)
  | marker {name : String} {as : List (Option TypeRef)} {ts : List Bound} : b.reading scope h = .marker name →
      Forall₂ (fun a t => b.bindOptional scope a = .ok t) as ts →
      BindStep b scope h as (.marker ⟨.mk h as, h.nullable⟩ name ts)

namespace Binder

variable {b : Binder} {scope : Scope} {h : RefHead}

theorem build_eq_ok {targets : Typing.Targets} {overrides : List (String × String)} {policy : Naming.Policy}
    {p : Contract.Program} :
    build targets overrides policy p = .ok b ↔
      Typing.Mapper.build targets overrides = .ok b.types ∧ Naming.Table.resolve p policy = .ok b.table := by
  simp only [build, bind_eq_ok, mapError_eq_ok, pure_eq_ok]
  constructor
  · rintro ⟨types, htypes, table, htable, rfl⟩
    exact ⟨htypes, htable⟩
  · rintro ⟨htypes, htable⟩
    exact ⟨b.types, htypes, b.table, htable, rfl⟩

theorem targets_of_build {targets : Typing.Targets} {overrides : List (String × String)} {policy : Naming.Policy}
    {p : Contract.Program} (h : build targets overrides policy p = .ok b) : b.types.targets = targets := by
  have h := (build_eq_ok.1 h).1
  unfold Typing.Mapper.build at h
  split at h
  · cases h
  · obtain ⟨_, _, h⟩ := bind_eq_ok.1 h
    rw [← pure_eq_ok.1 h]

theorem bindOptional_eq_ok {a : Option TypeRef} {t : Bound} :
    b.bindOptional scope a = .ok t ↔ ∃ r, a = some r ∧ b.bind scope r = .ok t := by
  cases a <;> simp [bindOptional]

private theorem bindArguments_eq_ok {as : List (Option TypeRef)} {ts : List Bound} :
    b.bindArguments scope as = .ok ts ↔ Forall₂ (fun a t => b.bindOptional scope a = .ok t) as ts := by
  induction as generalizing ts with
  | nil =>
    rw [bindArguments, forall₂_nil_left_iff]
    simp [eq_comm]
  | cons a as ih =>
    rw [bindArguments, forall₂_cons_left_iff]
    simp only [bind_eq_ok, pure_eq_ok, ih]
    constructor
    · rintro ⟨t, ht, ts', hts, rfl⟩
      exact ⟨t, ts', ht, hts, rfl⟩
    · rintro ⟨t, ts', ht, hts, rfl⟩
      exact ⟨t, ht, ts', hts, rfl⟩

/-- Binding is reading the head and then binding the arguments. -/
theorem bind_mk (h : RefHead) (as : List (Option TypeRef)) :
    b.bind scope (.mk h as) = b.bindAs scope h as (b.reading scope h) := by
  unfold bind reading
  by_cases hlist : h.isList
  · rw [if_pos hlist, if_pos hlist]
    rfl
  · rw [if_neg hlist, if_neg hlist]
    by_cases hdict : h.isDictionary
    · rw [if_pos hdict, if_pos hdict]
      rfl
    · rw [if_neg hdict, if_neg hdict]
      by_cases hparam : h.ns.isEmpty && scope.params.contains h.name
      · rw [if_pos hparam, if_pos hparam]
        rfl
      · rw [if_neg hparam, if_neg hparam]
        rcases (if h.ns.isEmpty then b.types.category? h.name else none) with _ | category
        · rcases b.resolve? scope h with _ | e
          · by_cases hmark : h.ns.isEmpty && b.table.policy.isUnmangled h.name
            · simp only [hmark, ↓reduceIte, bindAs]
            · simp only [hmark, Bool.false_eq_true, ↓reduceIte, bindAs]
          · rfl
        · rfl

/-- A reference is bound to exactly what one step allows. -/
theorem bind_mk_eq_ok {as : List (Option TypeRef)} {t : Bound} :
    b.bind scope (.mk h as) = .ok t ↔ BindStep b scope h as t := by
  rw [bind_mk]
  constructor
  · intro ht
    rcases hr : b.reading scope h with _ | _ | name | category | e | name | _ <;> rw [hr] at ht <;>
      simp only [bindAs] at ht
    · split at ht
      · obtain ⟨t', ht', hp⟩ := bind_eq_ok.1 ht
        rw [← pure_eq_ok.1 hp]
        exact .list hr ht'
      · cases ht
    · split at ht
      · obtain ⟨key, hk, ht⟩ := bind_eq_ok.1 ht
        obtain ⟨value, hv, ht⟩ := bind_eq_ok.1 ht
        split at ht
        · rw [← pure_eq_ok.1 ht]
          exact .map hr hk hv ‹_›
        · exact absurd ht throw_ne_ok
      · cases ht
    · split at ht
      · cases ht
        obtain rfl := List.isEmpty_iff.1 ‹as.isEmpty = true›
        exact .param hr
      · cases ht
    · split at ht
      · cases ht
        obtain rfl := List.isEmpty_iff.1 ‹as.isEmpty = true›
        exact .primitive hr
      · cases ht
    · split at ht
      · split at ht
        · cases ht
          obtain rfl := List.isEmpty_iff.1 ‹as.isEmpty = true›
          exact .enum hr ‹_›
        · cases ht
      · split at ht
        · obtain ⟨ts, hts, hp⟩ := bind_eq_ok.1 ht
          rw [← pure_eq_ok.1 hp]
          exact .named hr ‹_› ‹_› (bindArguments_eq_ok.1 hts)
        · cases ht
    · obtain ⟨ts, hts, hp⟩ := bind_eq_ok.1 ht
      rw [← pure_eq_ok.1 hp]
      exact .marker hr (bindArguments_eq_ok.1 hts)
    · cases ht
  · intro hs
    cases hs with
    | list hr ht => simp only [hr, bindAs, ht]; rfl
    | map hr hk hv hkey =>
      simp only [hr, bindAs, hk, hv, ok_bind, hkey, ↓reduceIte]
      rfl
    | param hr => simp only [hr, bindAs]; rfl
    | primitive hr => simp only [hr, bindAs]; rfl
    | enum hr hd => simp only [hr, bindAs, hd]; rfl
    | named hr hd hlen hts => simp only [hr, bindAs, hd, hlen, ↓reduceIte, bindArguments_eq_ok.2 hts]; rfl
    | marker hr hts => simp only [hr, bindAs, bindArguments_eq_ok.2 hts]; rfl

theorem lookup_qualified {q : String} {e : Entry} (h : b.table.lookup q = some e) :
    b.table.lookup e.qualified = some e := by
  have hq : e.qualified = q := by simpa using find?_some h
  rw [hq, h]

private theorem lookup_of_resolve? {e : Entry} (he : b.resolve? scope h = some e) :
    ∃ q, b.table.lookup q = some e := by
  unfold resolve? at he
  split at he
  · cases he
    exact ⟨_, ‹_›⟩
  · split at he
    · obtain ⟨ns, _, hns⟩ := exists_of_findSome?_eq_some he
      exact ⟨_, hns⟩
    · cases he

/-- What the names of references can read as: a declaration of the table, a type parameter in scope or a marker. -/
theorem of_reading (b : Binder) (scope : Scope) (h : RefHead) :
    (∀ e, b.reading scope h = .declared e → ∃ q, b.table.lookup q = some e) ∧
      (∀ name, b.reading scope h = .param name → name ∈ scope.params) ∧
      ∀ name, b.reading scope h = .marker name → b.table.policy.isUnmangled name = true := by
  unfold reading
  generalize (if h.ns.isEmpty then b.types.category? h.name else none) = category?
  by_cases hlist : h.isList
  · simp [hlist]
  · by_cases hdict : h.isDictionary
    · simp [hlist, hdict]
    · by_cases hparam : h.ns.isEmpty && scope.params.contains h.name
      · simp only [hlist, hdict, hparam, Bool.false_eq_true, ↓reduceIte]
        simpa using (Bool.and_eq_true_iff.1 hparam).2
      · simp only [hlist, hdict, hparam, Bool.false_eq_true, ↓reduceIte]
        cases category? with
        | some category => simp
        | none =>
          cases he : b.resolve? scope h with
          | some e => simpa using lookup_of_resolve? he
          | none =>
            by_cases hmarker : h.ns.isEmpty && b.table.policy.isUnmangled h.name
            · simp only [hmarker, ↓reduceIte]
              simpa using (Bool.and_eq_true_iff.1 hmarker).2
            · simp only [hmarker, Bool.false_eq_true, ↓reduceIte]
              simp

/-- A name without a namespace is a declaration or a marker only where no type parameter is called like it. -/
theorem not_param_of_reading {scope : Scope} :
    (∀ e, b.reading scope h = .declared e → h.ns.isEmpty = true → h.name ∉ scope.params) ∧
      ∀ name, b.reading scope h = .marker name → name ∉ scope.params := by
  have hown : ∀ {r : Reading}, b.reading scope h = r → r ≠ .list → r ≠ .dictionary → r ≠ .param h.name →
      h.ns.isEmpty = true → h.name ∉ scope.params := by
    rintro r rfl hlist hdictionary hparam hns hmem
    unfold reading at hlist hdictionary hparam
    grind
  refine ⟨fun e hread => hown hread (by simp) (by simp) (by simp), fun name hread => ?_⟩
  obtain ⟨hns, rfl⟩ : h.ns.isEmpty = true ∧ h.name = name := by
    unfold reading at hread
    grind
  exact hown hread (by simp) (by simp) (by simp) hns

/-- What a reference is bound to, if that is a declared type. -/
def namedBound? (b : Binder) (scope : Scope) (r : Option TypeRef) : Option Bound :=
  match b.bindOptional scope r with
  | .ok (.named occ x as) => some (.named occ x as)
  | _ => none

end Binder

end Binding

end Covenant
