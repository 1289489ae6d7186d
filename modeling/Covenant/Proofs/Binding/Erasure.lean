import Covenant.Binding.Shape
import Covenant.Proofs.Binding.Reading

/-!
# Binding commutes with erasure

What binding does not look at can be taken away before it or after it.  An `Erasure` takes something away from entries
and target types, and leaves what binding reads of an entry: its qualified name, its namespace and what it declares.
-/

namespace Covenant.Binding

open Contract (Field RefHead TypeBody TypeRef)
open Naming (Entry)
open Outcome
open List

structure Erasure where
  entry : Entry → Entry
  target : String → String
  bound : Bound → Bound
  entry_qualified : ∀ e, (entry e).qualified = e.qualified
  entry_ns : ∀ e, (entry e).ns = e.ns
  entry_enum : ∀ {e head members}, e.decl = .enum head members → ∃ head', (entry e).decl = .enum head' members
  entry_type : ∀ {e head body nested}, e.decl = .type head body nested →
    ∃ head' nested', head'.name = head.name ∧ (entry e).decl = .type head' body nested'
  bound_primitive : ∀ occ category t, bound (.primitive occ category t) = .primitive occ category (target t)
  bound_named : ∀ occ e as, bound (.named occ e as) = .named occ (entry e) (as.map bound)
  bound_enum : ∀ occ e, bound (.enum occ e) = .enum occ (entry e)
  bound_param : ∀ occ name, bound (.param occ name) = .param occ name
  bound_list : ∀ occ t, bound (.list occ t) = .list occ (bound t)
  bound_map : ∀ occ k v, bound (.map occ k v) = .map occ (bound k) (bound v)
  bound_marker : ∀ occ name as, bound (.marker occ name as) = .marker occ name (as.map bound)

namespace Erasure

attribute [simp] entry_qualified entry_ns bound_primitive bound_named bound_enum bound_param bound_list bound_map
  bound_marker

variable (E : Erasure)

def reading : Reading → Reading
  | .declared e => .declared (E.entry e)
  | r => r

def param (p : ShapeParam) : ShapeParam := { p with constraints := p.constraints.map E.bound }

def field (f : ShapeField) : ShapeField := { f with type := E.bound f.type }

private theorem isKey_bound (t : Bound) : (E.bound t).isKey = t.isKey := by cases t <;> simp [Bound.isKey]

private theorem ref_bound (t : Bound) : (E.bound t).ref = t.ref := by cases t <;> simp [Bound.ref, Bound.occurrence]

private theorem declared?_bound (t : Bound) : (E.bound t).declared? = t.declared?.map E.entry := by
  cases t <;> simp [Bound.declared?]

theorem inside_entry (e : Entry) : Scope.inside (E.entry e) = Scope.inside e := by
  have hbody : (E.entry e).decl.body? = e.decl.body? := by
    cases hdecl : e.decl with
    | enum =>
      obtain ⟨_, h⟩ := E.entry_enum hdecl
      rw [h]
      rfl
    | type =>
      obtain ⟨_, _, _, h⟩ := E.entry_type hdecl
      rw [h]
      rfl
  rw [Scope.inside, Scope.inside, E.entry_ns, hbody]

end Erasure

namespace Binder

/-- The second binder holds the entries and target types of the first one erased. -/
structure Erases (E : Erasure) (b b₀ : Binder) : Prop where
  lookup : ∀ q, b₀.table.lookup q = (b.table.lookup q).map E.entry
  category : b₀.types.category? = b.types.category?
  targets : ∀ category, b₀.types.targets category = E.target (b.types.targets category)
  unmangled : b₀.table.policy.isUnmangled = b.table.policy.isUnmangled
  length : b₀.table.entries.length = b.table.entries.length

namespace Erases

variable {E : Erasure} {b b₀ : Binder} (hb : Erases E b b₀)
include hb

private theorem resolve? (scope : Scope) (h : RefHead) : b₀.resolve? scope h = (b.resolve? scope h).map E.entry := by
  simp only [Binder.resolve?, hb.lookup]
  cases b.table.lookup (Contract.qualify h.ns h.name) with
  | some e => rfl
  | none =>
    simp only [Option.map_none]
    split
    · rw [map_findSome?]
      rfl
    · rfl

/-- A head reads as it does before erasure, erased. -/
theorem reading (scope : Scope) (h : RefHead) : b₀.reading scope h = E.reading (b.reading scope h) := by
  simp only [Binder.reading, hb.resolve?, hb.category, hb.unmangled]
  split
  · rfl
  · split
    · rfl
    · split
      · rfl
      · cases (if h.ns.isEmpty then b.types.category? h.name else none) with
        | some category => rfl
        | none =>
          cases b.resolve? scope h with
          | some e => rfl
          | none =>
            dsimp only [Option.map_none]
            split <;> rfl

theorem bind (scope : Scope) (r : TypeRef) : b₀.bind scope r = E.bound <$> b.bind scope r := by
  induction r using TypeRef.inductArguments with
  | step h as ih =>
    have hoptional : ∀ a ∈ as, b₀.bindOptional scope a = E.bound <$> b.bindOptional scope a := by
      intro a ha
      cases a with
      | none => rfl
      | some r => exact ih r ha
    have harguments : b₀.bindArguments scope as = List.map E.bound <$> b.bindArguments scope as := by
      clear ih
      induction as with
      | nil => rfl
      | cons a as ih =>
        simp only [bindArguments, hoptional a mem_cons_self,
          ih fun a' ha' => hoptional a' (.tail a ha'), map_bind, bind_map_left, map_pure, map_cons]
    -- both sides read the head alike; what is left is one case for each reading
    rw [bind_mk, bind_mk, hb.reading]
    cases b.reading scope h with
    | list =>
      simp only [Erasure.reading, bindAs]
      split
      · rw [hoptional _ mem_cons_self]
        simp only [map_bind, bind_map_left, map_pure, E.bound_list]
      · rfl
    | dictionary =>
      simp only [Erasure.reading, bindAs]
      split
      · rw [hoptional _ mem_cons_self, hoptional _ (mem_cons_of_mem _ mem_cons_self)]
        simp only [map_bind, bind_map_left, E.isKey_bound, E.ref_bound, ← E.bound_map]
        refine bind_congr fun key => bind_congr fun value => ?_
        split <;> rfl
      · rfl
    | param name =>
      simp only [Erasure.reading, bindAs]
      split
      · exact congrArg Except.ok (E.bound_param _ name).symm
      · rfl
    | primitive category =>
      simp only [Erasure.reading, bindAs, hb.targets, ← E.bound_primitive]
      split <;> rfl
    | declared e =>
      cases hdecl : e.decl with
      | enum head members =>
        obtain ⟨head', hdecl'⟩ := E.entry_enum hdecl
        simp only [Erasure.reading, bindAs, hdecl, hdecl', E.entry_qualified, ← E.bound_enum]
        split <;> rfl
      | type head body nested =>
        obtain ⟨head', nested', _, hdecl'⟩ := E.entry_type hdecl
        simp only [Erasure.reading, bindAs, hdecl, hdecl', E.entry_qualified, harguments]
        split
        · simp only [map_bind, bind_map_left, map_pure, E.bound_named]
        · rfl
    | marker name =>
      simp only [Erasure.reading, bindAs, harguments, map_bind, bind_map_left, map_pure, E.bound_marker]
    | unknown => rfl

theorem bindOptional (scope : Scope) (r : Option TypeRef) :
    b₀.bindOptional scope r = E.bound <$> b.bindOptional scope r := by
  cases r with
  | none => rfl
  | some r => exact hb.bind scope r

private theorem bindFor (context : String) (scope : Scope) (r : Option TypeRef) :
    b₀.bindFor context scope r = E.bound <$> b.bindFor context scope r := by
  rw [Binder.bindFor, Binder.bindFor, hb.bindOptional, mapError_map]

theorem shapeParams (e : Entry) (body : TypeBody) :
    b₀.shapeParams (E.entry e) body = List.map E.param <$> b.shapeParams e body := by
  rw [Binder.shapeParams, Binder.shapeParams, ← mapM_map]
  congr 1
  funext p
  have hconstraint : ∀ context scope, b₀.bindFor context scope = fun r => E.bound <$> b.bindFor context scope r :=
    fun context scope => funext (hb.bindFor context scope)
  simp only [E.inside_entry, E.entry_qualified, hconstraint, mapM_map, map_bind, bind_map_left, map_pure,
    Erasure.param]

theorem shapeBases (e : Entry) (base? : Option Bound) (markers : List Bound) (rs : List (Option TypeRef)) :
    b₀.shapeBases (E.entry e) (base?.map E.bound) (markers.map E.bound) rs =
      (fun r => (r.1.map E.bound, r.2.map E.bound)) <$> b.shapeBases e base? markers rs := by
  induction rs generalizing base? markers with
  | nil => rfl
  | cons r rs ih =>
    simp only [Binder.shapeBases, E.inside_entry, E.entry_qualified, hb.bindFor, map_bind, bind_map_left]
    refine bind_congr fun bound => ?_
    have hdeclared : (base?.map E.bound).bind (·.declared?) = (base?.bind (·.declared?)).map E.entry := by
      cases base? with
      | none => rfl
      | some t => exact E.declared?_bound t
    rw [hdeclared]
    cases bound with
    | marker occ name as =>
      have hmarker := ih base? (markers ++ [.marker occ name as])
      rw [map_append, map_singleton] at hmarker
      simpa using hmarker
    | named occ second as =>
      cases base?.bind (·.declared?) with
      | none => simpa using ih (some (.named occ second as)) markers
      | some first =>
        simp
        rfl
    | primitive | enum | param | list | map =>
      simp
      rfl

private theorem firstNamed (context : String) (scope : Scope) (rs : List (Option TypeRef)) :
    b₀.firstNamed context scope rs = Option.map E.bound <$> b.firstNamed context scope rs := by
  induction rs with
  | nil => rfl
  | cons r rs ih =>
    simp only [Binder.firstNamed, hb.bindFor, map_bind, bind_map_left]
    refine bind_congr fun bound => ?_
    cases bound with
    | named => simp
    | primitive | enum | param | list | map | marker => simpa using ih

theorem mapM_fields (context : Field → String) (scope : Scope) (ref : Field → Option TypeRef) (inherited : Bool)
    (fs : List Field) :
    (fs.mapM fun f => do
        let type ← b₀.bindFor (context f) scope (ref f)
        return ({ wire := f.name, type, inherited } : ShapeField)) =
      List.map E.field <$> fs.mapM fun f => do
        let type ← b.bindFor (context f) scope (ref f)
        return ({ wire := f.name, type, inherited } : ShapeField) := by
  rw [← mapM_map]
  congr 1
  funext f
  simp only [hb.bindFor, map_bind, bind_map_left, map_pure, Erasure.field]

theorem chainFields (e : Entry) (fuel : Nat) (seen : List String) (base? : Option Bound) :
    b₀.chainFields (E.entry e) fuel seen (base?.map E.bound) =
      List.map E.field <$> b.chainFields e fuel seen base? := by
  induction fuel generalizing seen base? with
  | zero => rfl
  | succ fuel ih =>
    cases base? with
    | none => rfl
    | some bound =>
      cases bound with
      | named occ base as =>
        rw [Option.map_some, E.bound_named]
        cases hdecl : base.decl with
        | enum =>
          obtain ⟨head', hdecl'⟩ := E.entry_enum hdecl
          simp only [Binder.chainFields, hdecl, hdecl']
          rfl
        | type head body nested =>
          obtain ⟨head', nested', hname, hdecl'⟩ := E.entry_type hdecl
          simp only [Binder.chainFields, hdecl, hdecl', hname, E.inside_entry, E.entry_qualified, E.entry_ns]
          split
          · rfl
          · simp only [hb.mapM_fields, hb.firstNamed, map_bind, bind_map_left, ih, map_pure, map_append]
      | primitive | enum | param | list | map | marker => simp [Binder.chainFields]

private theorem namedBound? (scope : Scope) (r : Option TypeRef) :
    b₀.namedBound? scope r = (b.namedBound? scope r).map E.bound := by
  rw [Binder.namedBound?, Binder.namedBound?, hb.bindOptional]
  cases b.bindOptional scope r with
  | error d => rfl
  | ok bound => cases bound <;> simp [Functor.map, Except.map]

private theorem chainConstants (fuel : Nat) (seen : List String) (base? : Option Bound) :
    b₀.chainConstants fuel seen (base?.map E.bound) = b.chainConstants fuel seen base? := by
  induction fuel generalizing seen base? with
  | zero => rfl
  | succ fuel ih =>
    cases base? with
    | none => rfl
    | some bound =>
      cases bound with
      | named occ base as =>
        rw [Option.map_some, E.bound_named]
        cases hdecl : base.decl with
        | enum =>
          obtain ⟨head', hdecl'⟩ := E.entry_enum hdecl
          simp only [Binder.chainConstants, hdecl, hdecl', E.entry_qualified]
          cases seen.contains base.qualified <;> rfl
        | type head body nested =>
          obtain ⟨head', nested', _, hdecl'⟩ := E.entry_type hdecl
          -- the next base is found at the same place
          have hnext : body.baseTypes.findSome? (b₀.namedBound? { namespaces := [base.ns] }) =
              (body.baseTypes.findSome? (b.namedBound? { namespaces := [base.ns] })).map E.bound := by
            rw [map_findSome?]
            congr 1
            exact funext (hb.namedBound? _)
          have hrest := (congrArg (b₀.chainConstants fuel (base.qualified :: seen)) hnext).trans (ih _ _)
          simp only [Binder.chainConstants, hdecl, hdecl', E.entry_qualified, E.entry_ns]
          cases seen.contains base.qualified with
          | true => rfl
          | false => exact congrArg (· ++ body.constants) hrest
      | primitive | enum | param | list | map | marker => simp [Binder.chainConstants]

theorem declaredConstants (e : Entry) (body : TypeBody) (base? : Option Bound) (errorCodes : Bool) :
    b₀.declaredConstants (E.entry e) body (base?.map E.bound) errorCodes =
      b.declaredConstants e body base? errorCodes := by
  rw [Binder.declaredConstants, Binder.declaredConstants, hb.length, E.entry_qualified, hb.chainConstants]

theorem shapeResult (e : Entry) (body : TypeBody) :
    b₀.shapeResult (E.entry e) body = Option.map E.bound <$> b.shapeResult e body := by
  rw [Binder.shapeResult, Binder.shapeResult, E.inside_entry, E.entry_qualified]
  cases body.result with
  | some r => simp only [hb.bindFor, map_bind, bind_map_left, map_pure, Option.map_some]
  | none =>
    simp only
    split <;> rfl

end Erases

end Binder

end Covenant.Binding
