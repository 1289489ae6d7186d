import Mathlib.Data.List.Perm.Subperm
import Mathlib.Tactic.Choose
import Covenant.Proofs.Binding.Agreement
import Covenant.Proofs.Binding.Shape
import Covenant.Proofs.Contract.Validation
import Covenant.Proofs.Naming.NameTable

/-!
# Ancestors

A type extends its base, which extends its own base, and so on (`Binder.ancestor?`).  A cycle is looked for only by
the walk that collects inherited fields.  It reads base types in a scope that joins the namespace of the ancestor with
the scope of the derived type, and so it may go another way than the bases do.  Where the derived type shadows no name
along its ancestors (`Binder.Unshadowed`), no ancestor comes up twice (`ancestors_distinct`).
-/

namespace Covenant

open Contract (Declaration Program TypeBody TypeRef)
open Naming (Entry Table)
open Outcome
open List

namespace Binding

def Binder.base? (b : Binder) (codesName : String) (e : Entry) : Option Entry :=
  match b.shapeOf codesName e with
  | .ok s => s.base?.bind (·.declared?)
  | .error _ => none

/-- The type that is reached by following the base a number of times. -/
def Binder.ancestor? (b : Binder) (codesName : String) (e : Entry) : Nat → Option Entry
  | 0 => some e
  | n + 1 => (b.ancestor? codesName e n).bind (b.base? codesName)

/-- The qualified name of the declared type that a reference names in a scope. -/
def Binder.namedType? (b : Binder) (scope : Scope) (r : TypeRef) : Option String :=
  match b.reading scope r.head with
  | .declared e => e.decl.body?.map fun _ => e.qualified
  | _ => none

/-- The first of some base types that names a declared type in a scope. -/
def Binder.nextBase? (b : Binder) (scope : Scope) (refs : List (Option TypeRef)) : Option String :=
  refs.findSome? fun r => r.bind (b.namedType? scope)

/-- What the names of a base can see while it is walked through on behalf of `e`. -/
def Scope.through (e base : Entry) : Scope :=
  { inside e with namespaces := base.ns :: (inside e).namespaces }

/-- The names that `base` gives its base types mean the same to `e`: none is a type parameter of `e`, and none that is
no declaration for `base` is a declaration for `e`. -/
def Binder.Unshadowed (b : Binder) (e base : Entry) : Prop :=
  ∀ body ∈ base.decl.body?, ∀ ref ∈ body.baseTypes, ∀ r ∈ ref, r.head.ns.isEmpty = true →
    (Scope.inside e).params.contains r.head.name = false ∧
      ((b.resolve? (.inside base) r.head).isNone → (b.resolve? (.inside e) r.head).isNone)

instance (b : Binder) (e base : Entry) : Decidable (b.Unshadowed e base) := by
  unfold Binder.Unshadowed
  infer_instance

namespace Binder

variable {b : Binder} {codesName : String}

section

variable {scope : Scope}

theorem qualified_declared? {r : Option TypeRef} {t : Bound} (h : b.bindOptional scope r = .ok t) :
    t.declared?.map (·.qualified) = r.bind (b.namedType? scope) := by
  obtain ⟨⟨head, as⟩, rfl, h⟩ := bindOptional_eq_ok.1 h
  obtain ⟨hread, _, _, hset⟩ := (bind_mk_eq_ok.1 h).head
  rw [Option.bind_some, namedType?, TypeRef.head, ← hread]
  cases t with
  | named occ e as =>
    obtain ⟨body, hbody⟩ := Option.isSome_iff_exists.1 hset
    simp [Bound.declared?, Bound.reading, hbody]
  | enum occ e =>
    have hbody : e.decl.body? = none := hset
    simp [Bound.declared?, Bound.reading, hbody]
  | _ => rfl

theorem lookup_of_bind {r : Option TypeRef} {occ : Occurrence} {e : Entry} {as : List Bound}
    (h : b.bindOptional scope r = .ok (.named occ e as)) :
    b.table.lookup e.qualified = some e ∧ e.decl.body?.isSome = true := by
  obtain ⟨⟨head, refs⟩, rfl, h⟩ := bindOptional_eq_ok.1 h
  cases bind_mk_eq_ok.1 h with
  | named hread hdecl _ _ =>
    obtain ⟨q, hq⟩ := (b.of_reading scope head).1 e hread
    exact ⟨lookup_qualified hq, by simp [hdecl, Declaration.body?]⟩

private theorem firstNamed_eq_ok {context : String} {refs : List (Option TypeRef)} {next : Option Bound}
    (h : b.firstNamed context scope refs = .ok next) :
    (next.bind (·.declared?)).map (·.qualified) = b.nextBase? scope refs ∧
      ∀ x, next.bind (·.declared?) = some x → b.table.lookup x.qualified = some x := by
  induction refs with
  | nil =>
    cases h
    exact ⟨rfl, fun x hx => by cases hx⟩
  | cons r refs ih =>
    rw [firstNamed] at h
    obtain ⟨t, ht, h⟩ := bind_eq_ok.1 h
    have ht := bindFor_eq_ok.1 ht
    have hq := qualified_declared? ht
    rw [nextBase?, findSome?_cons, ← hq]
    split at h
    · obtain rfl := pure_eq_ok.1 h
      refine ⟨rfl, fun x hx => ?_⟩
      cases hx
      exact (lookup_of_bind ht).1
    · rename_i hnamed
      obtain ⟨hnext, hfound⟩ := ih h
      refine ⟨?_, hfound⟩
      rw [hnext]
      cases t with
      | named occ e as => exact absurd rfl (hnamed occ e as)
      | _ => rfl

end

private theorem Sorts.nextBase? {e : Entry} {refs : List (Option TypeRef)} {base? base'? : Option Bound}
    {markers markers' : List Bound} (h : b.Sorts e base'? markers' base? markers refs) :
    (base'?.bind (·.declared?)).map (·.qualified) =
      ((base?.bind (·.declared?)).map (·.qualified)).or (b.nextBase? (.inside e) refs) := by
  induction h with
  | done => simp [Binder.nextBase?]
  | marker ht _ ih =>
    rw [Binder.nextBase?, findSome?_cons, ← qualified_declared? ht]
    exact ih
  | named ht hnone _ ih =>
    rw [Binder.nextBase?, findSome?_cons, ← qualified_declared? ht, ih, hnone]
    rfl

/-- No base type is a type parameter. -/
theorem Sorts.reading {e : Entry} {refs : List (Option TypeRef)} {base? base'? : Option Bound}
    {markers markers' : List Bound} (h : b.Sorts e base'? markers' base? markers refs) {r : TypeRef}
    (hr : some r ∈ refs) (name : String) : b.reading (.inside e) r.head ≠ .param name := by
  have hparam {r' : Option TypeRef} {t : Bound} (ht : b.bindOptional (.inside e) r' = .ok t)
      (hne : ∀ occ x, t ≠ .param occ x) (heq : some r = r') : b.reading (.inside e) r.head ≠ .param name := by
    rintro hread
    obtain ⟨⟨head, as⟩, hsome, hbind⟩ := bindOptional_eq_ok.1 ht
    cases heq.trans hsome
    have hhead := (bind_mk_eq_ok.1 hbind).head.1
    rw [TypeRef.head] at hread
    rw [hread] at hhead
    cases t with
    | param occ x => exact hne occ x rfl
    | _ => cases hhead
  induction h with
  | done => cases hr
  | marker ht _ ih => exact (mem_cons.1 hr).elim (hparam ht (by simp)) ih
  | named ht _ _ ih => exact (mem_cons.1 hr).elim (hparam ht (by simp)) ih

/-- Putting in the arguments of a base leaves the head of a reference that is no type parameter of the base. -/
theorem head_substitute {base : Entry} {body : TypeBody} (hbody : base.decl.body? = some body)
    (arguments : List (Option TypeRef)) {r : TypeRef} (hr : ∀ name, b.reading (.inside base) r.head ≠ .param name) :
    (r.substitute (baseBindings body arguments)).head = r.head := by
  obtain ⟨h, _ | ⟨a, as⟩⟩ := r
  · rw [TypeRef.substitute]
    split
    · rename_i hsimple
      split
      · rename_i r hlookup
        -- a name that is replaced is a type parameter
        have hkey : h.name ∈ (baseBindings body arguments).map (·.1) := by
          by_contra hkey
          rw [Text.lookup_eq_none_iff.2 hkey] at hlookup
          cases hlookup
        have hname : h.name ∈ body.parameterNames := by
          simp only [baseBindings, map_reverse, mem_reverse, mem_map, mem_filterMap,
            Option.map_eq_some_iff] at hkey
          obtain ⟨_, ⟨⟨name, a⟩, hzip, r', _, rfl⟩, hname⟩ := hkey
          rw [← hname]
          exact (of_mem_zip hzip).1
        refine absurd ?_ (hr h.name)
        simp only [TypeRef.isSimple, isEmpty_nil, Bool.and_true, Bool.and_eq_true, Bool.not_eq_true'] at hsimple
        simp [reading, TypeRef.head, Scope.inside, hbody, hsimple, hname]
      · rfl
    · rfl
  · rfl

/-- Where no name is shadowed, a base type that is no type parameter names the same type in the scope of a walk. -/
theorem namedType?_through {e base : Entry} (h : b.Unshadowed e base) {body : TypeBody}
    (hbody : base.decl.body? = some body) {r : TypeRef} (hr : some r ∈ body.baseTypes)
    (hparam : ∀ name, b.reading (.inside base) r.head ≠ .param name) :
    b.namedType? (.through e base) r = b.namedType? (.inside base) r := by
  have hclear := h body hbody (some r) hr r rfl
  have hresolve : b.resolve? (.through e base) r.head = b.resolve? (.inside base) r.head := by
    simp only [resolve?, Scope.through, Scope.inside] at hclear ⊢
    cases hlookup : b.table.lookup (Contract.qualify r.head.ns r.head.name) with
    | some x => rfl
    | none => grind
  have hreading : b.reading (.through e base) r.head = b.reading (.inside base) r.head := by
    have hown : (r.head.ns.isEmpty && (Scope.inside base).params.contains r.head.name) = false ∨
        r.head.isList = true ∨ r.head.isDictionary = true := by
      have := hparam r.head.name
      unfold reading at this
      grind
    unfold reading
    rw [hresolve]
    have hparams : (Scope.through e base).params = (Scope.inside e).params := rfl
    rw [hparams]
    grind
  rw [namedType?, namedType?, hreading]

theorem base?_eq {e : Entry} {s : Shape} (h : b.shapeOf codesName e = .ok s) :
    b.base? codesName e = s.base?.bind (·.declared?) := by rw [base?, h]

theorem lookup_of_base? {e x : Entry} (h : b.base? codesName e = some x) :
    b.table.lookup x.qualified = some x ∧ x.decl.body?.isSome = true := by
  unfold base? at h
  split at h
  · rename_i s hs
    obtain ⟨_, _, _, _, parts⟩ := shapeOf_eq_ok hs
    rcases (sorts_of_shapeBases parts.bases).base with hbase | ⟨occ, base, as, hbase, r, _, hr⟩
    · rw [hbase] at h
      cases h
    · rw [hbase] at h
      cases h
      exact lookup_of_bind hr
  · cases h

theorem declared?_of_shapeOf {e : Entry} {s : Shape} (h : b.shapeOf codesName e = .ok s) {t : Bound}
    (ht : s.base? = some t) : t.declared?.isSome = true := by
  obtain ⟨_, _, _, _, parts⟩ := shapeOf_eq_ok h
  rcases (sorts_of_shapeBases parts.bases).base with hbase | ⟨occ, base, as, hbase, _⟩
  · rw [hbase] at ht
    cases ht
  · rw [hbase] at ht
    cases ht
    rfl

/-- The ancestors of an ancestor are ancestors. -/
theorem ancestor?_add (e : Entry) (m n : Nat) : b.ancestor? codesName e (m + n) =
    (b.ancestor? codesName e m).bind fun x => b.ancestor? codesName x n := by
  induction n with
  | zero => simp [ancestor?]
  | succ n ih =>
    rw [← Nat.add_assoc, ancestor?, ih, Option.bind_assoc]
    rfl

theorem ancestor?_succ {e x : Entry} (h : b.base? codesName e = some x) (n : Nat) :
    b.ancestor? codesName e (n + 1) = b.ancestor? codesName x n := by
  rw [Nat.add_comm, ancestor?_add, ancestor?, ancestor?, Option.bind_some, h, Option.bind_some]

theorem ancestor?_of_le {e x : Entry} {m n : Nat} (hmn : m ≤ n) (h : b.ancestor? codesName e n = some x) :
    ∃ y, b.ancestor? codesName e m = some y := by
  induction n generalizing x with
  | zero =>
    obtain rfl := Nat.le_zero.1 hmn
    exact ⟨x, h⟩
  | succ n ih =>
    rcases Nat.le_succ_iff.1 hmn with hmn | rfl
    · obtain ⟨y, hy, _⟩ := Option.bind_eq_some_iff.1 h
      exact ih hmn hy
    · exact ⟨x, h⟩

private theorem ancestor?_eq_none_of_le {e : Entry} {m n : Nat} (hmn : m ≤ n)
    (h : b.ancestor? codesName e m = none) : b.ancestor? codesName e n = none := by
  by_contra hsome
  obtain ⟨x, hx⟩ := Option.ne_none_iff_exists'.1 hsome
  obtain ⟨y, hy⟩ := ancestor?_of_le hmn hx
  rw [h] at hy
  cases hy

private theorem lookup_of_ancestor? {e x : Entry} (he : b.table.lookup e.qualified = some e) {n : Nat}
    (h : b.ancestor? codesName e n = some x) : b.table.lookup x.qualified = some x := by
  cases n with
  | zero =>
    cases h
    exact he
  | succ n =>
    obtain ⟨y, _, hx⟩ := Option.bind_eq_some_iff.1 h
    exact (lookup_of_base? hx).1

section

variable {e : Entry}
  (hshapes : ∀ x ∈ b.table.entries, x.decl.body?.isSome = true → ∃ s, b.shapeOf codesName x = .ok s)
  (hindexed : ∀ q x, b.table.lookup q = some x → x ∈ b.table.entries)
  (hclear : ∀ n base, b.ancestor? codesName e (n + 1) = some base → b.Unshadowed e base)
include hshapes hindexed hclear

private theorem next_eq_base? {base : Entry} {body : TypeBody} {n : Nat}
    (hbase : b.ancestor? codesName e (n + 1) = some base) (hbody : base.decl.body? = some body)
    {context : String} {arguments : List (Option TypeRef)} {next : Option Bound}
    (h : b.firstNamed context (.through e base)
      (body.baseTypes.map (·.map (·.substitute (baseBindings body arguments)))) = .ok next) :
    next.bind (·.declared?) = b.base? codesName base := by
  obtain ⟨_, _, hbase'⟩ := Option.bind_eq_some_iff.1 hbase
  obtain ⟨s, hs⟩ := hshapes base (hindexed _ _ (lookup_of_base? hbase').1) (by simp [hbody])
  obtain ⟨head, nested, _, _, parts⟩ := shapeOf_eq_ok hs
  obtain rfl : s.body = body := by simpa [parts.decl, Declaration.body?] using hbody
  -- the walk and the type itself look for their next base in the same names
  have hnames : b.nextBase? (.through e base)
      (s.body.baseTypes.map (·.map (·.substitute (baseBindings s.body arguments)))) =
      b.nextBase? (.inside base) s.body.baseTypes := by
    rw [nextBase?, findSome?_map, nextBase?, ← head?_filterMap, ← head?_filterMap]
    refine congrArg head? (filterMap_congr fun r hr => ?_)
    cases r with
    | none => rfl
    | some r =>
      have hparam := (sorts_of_shapeBases parts.bases).reading hr
      have hthrough := namedType?_through (hclear n base hbase) hbody hr hparam
      simpa [namedType?, head_substitute hbody arguments hparam] using hthrough
  have hown := (sorts_of_shapeBases parts.bases).nextBase?
  obtain ⟨hnext, hfound⟩ := firstNamed_eq_ok h
  rw [hnames] at hnext
  simp only [Option.bind_none, Option.map_none, Option.none_or] at hown
  rw [← hown] at hnext
  rw [base?_eq hs]
  cases hx : next.bind (·.declared?) with
  | none =>
    rw [hx] at hnext
    exact (Option.map_eq_none_iff.1 hnext.symm).symm
  | some x =>
    rw [hx] at hnext
    obtain ⟨y, hy, hxy⟩ := Option.map_eq_some_iff.1 hnext.symm
    have hyfound := (lookup_of_base? ((base?_eq hs).trans hy)).1
    rw [hxy, hfound x hx] at hyfound
    rw [hy, hyfound]

private theorem chainFields_distinct {fuel : Nat} {seen : List String} {base? : Option Bound}
    {fields : List ShapeField} {k : Nat} (h : b.chainFields e fuel seen base? = .ok fields)
    (hbase : base?.bind (·.declared?) = b.ancestor? codesName e (k + 1)) {n : Nat} (hn : n < fuel) {x : Entry}
    (hx : b.ancestor? codesName e (k + 1 + n) = some x) :
    x.qualified ∉ seen ∧ ∀ m < n, ∀ y, b.ancestor? codesName e (k + 1 + m) = some y →
      y.qualified ≠ x.qualified := by
  -- the walk takes one ancestor after the other and notes it among those it has seen
  induction fuel generalizing seen base? fields k n with
  | zero => omega
  | succ fuel ih =>
    obtain ⟨base, hk⟩ := ancestor?_of_le (Nat.le_add_right (k + 1) n) hx
    rw [hk] at hbase
    obtain ⟨t, rfl, ht⟩ := Option.bind_eq_some_iff.1 hbase
    cases t with
    | named occ base' as =>
      cases ht
      obtain ⟨_, _, hbase'⟩ := Option.bind_eq_some_iff.1 hk
      rcases hdecl : base.decl with ⟨head, members⟩ | ⟨head, body, nested⟩
      · have := (lookup_of_base? hbase').2
        simp [hdecl, Declaration.body?] at this
      · have hbody : base.decl.body? = some body := by simp [hdecl, Declaration.body?]
        simp only [chainFields, hdecl] at h
        split at h
        · exact absurd h throw_ne_ok
        · rename_i hseen
          obtain ⟨level, _, h⟩ := bind_eq_ok.1 h
          obtain ⟨next, hnext, h⟩ := bind_eq_ok.1 h
          obtain ⟨rest, hrest, _⟩ := bind_eq_ok.1 h
          have hnext := next_eq_base? hshapes hindexed hclear hk hbody hnext
          cases n with
          | zero =>
            obtain rfl : base = x := Option.some.inj (hk.symm.trans hx)
            exact ⟨by simpa using hseen, fun m hm => absurd hm (Nat.not_lt_zero m)⟩
          | succ n =>
            have hnext' : next.bind (·.declared?) = b.ancestor? codesName e (k + 1 + 1) := by
              rw [hnext, ancestor?, hk, Option.bind_some]
            have hx' : b.ancestor? codesName e (k + 1 + 1 + n) = some x := by
              rw [← hx]
              congr 1
              omega
            obtain ⟨hfresh, hdistinct⟩ := ih hrest hnext' (by omega) hx'
            simp only [mem_cons, not_or] at hfresh
            refine ⟨hfresh.2, fun m hm y hy => ?_⟩
            cases m with
            | zero =>
              obtain rfl : base = y := Option.some.inj (hk.symm.trans hy)
              exact fun heq => hfresh.1 heq.symm
            | succ m =>
              refine hdistinct m (by omega) y ?_
              rw [← hy]
              congr 1
              omega
    | _ => cases ht

private theorem ancestor?_ne {s : Shape} (hs : b.shapeOf codesName e = .ok s) {m n : Nat} (hmn : m < n)
    (hn : n ≤ b.table.entries.length + 1) {x y : Entry} (hx : b.ancestor? codesName e m = some x)
    (hy : b.ancestor? codesName e n = some y) : x.qualified ≠ y.qualified := by
  obtain ⟨_, _, inherited, _, parts⟩ := shapeOf_eq_ok hs
  have hbase : s.base?.bind (·.declared?) = b.ancestor? codesName e (0 + 1) := by
    rw [ancestor?, ancestor?, Option.bind_some, base?_eq hs]
  obtain ⟨j, rfl⟩ : ∃ j, n = 0 + 1 + j := ⟨n - 1, by omega⟩
  obtain ⟨hfresh, hdistinct⟩ :=
    chainFields_distinct hshapes hindexed hclear parts.chain hbase (by omega) hy
  cases m with
  | zero =>
    cases hx
    exact fun heq => hfresh (by simp [heq])
  | succ i =>
    refine hdistinct i (by omega) x ?_
    rw [← hx]
    congr 1
    omega

private theorem ancestor?_eq_none {s : Shape} (hs : b.shapeOf codesName e = .ok s)
    (he : b.table.lookup e.qualified = some e) :
    b.ancestor? codesName e b.table.entries.length = none := by
  by_contra hsome
  obtain ⟨z, hz⟩ := Option.ne_none_iff_exists'.1 hsome
  have hall : ∀ i, ∃ x, i ≤ b.table.entries.length → b.ancestor? codesName e i = some x := by
    intro i
    by_cases hi : i ≤ b.table.entries.length
    · obtain ⟨x, hx⟩ := ancestor?_of_le hi hz
      exact ⟨x, fun _ => hx⟩
    · exact ⟨z, fun hi' => absurd hi' hi⟩
  choose ancestor hancestor using hall
  have hnodup : ((List.range (b.table.entries.length + 1)).map fun i => (ancestor i).qualified).Nodup := by
    refine nodup_range.map_on fun i hi j hj heq => ?_
    rw [mem_range] at hi hj
    rcases Nat.lt_trichotomy i j with hij | hij | hij
    · exact absurd heq (ancestor?_ne hshapes hindexed hclear hs hij (by omega) (hancestor i (by omega))
        (hancestor j (by omega)))
    · exact hij
    · exact absurd heq.symm (ancestor?_ne hshapes hindexed hclear hs hij (by omega) (hancestor j (by omega))
        (hancestor i (by omega)))
  have hsubset : ((List.range (b.table.entries.length + 1)).map fun i => (ancestor i).qualified) ⊆
      b.table.entries.map (·.qualified) := by
    intro q hq
    obtain ⟨i, hi, rfl⟩ := mem_map.1 hq
    rw [mem_range] at hi
    exact mem_map_of_mem (hindexed _ _ (lookup_of_ancestor? he (hancestor i (by omega))))
  have hlength := (subperm_of_subset hnodup hsubset).length_le
  simp only [length_map, length_range] at hlength
  omega

end

end Binder

end Binding

namespace Emit.Dart

open Binding (Binder Bound Occurrence Shape)

/-- What the search for an overridden result ends with, if it ends: it goes from base to base until one has a result
or has no base. -/
inductive OverrideEnds (b : Binder) (settings : Settings) (s : Shape) (result : Bound) :
    Option Bound → Except Failure Unit → Prop
  | root : OverrideEnds b settings s result none (.ok ())
  | failed {occ : Occurrence} {base : Entry} {as : List Bound} {failure : Failure} :
      b.shapeOf settings.errorCodesName base = .error failure →
      OverrideEnds b settings s result (some (.named occ base as)) (.error failure)
  | settled {occ : Occurrence} {base : Entry} {as : List Bound} {ancestor : Shape} {expected : Bound} :
      b.shapeOf settings.errorCodesName base = .ok ancestor → ancestor.result? = some expected →
      OverrideEnds b settings s result (some (.named occ base as))
        (checkResultOverride b settings s result 1 (some (.named occ base as)))
  | up {occ : Occurrence} {base : Entry} {as : List Bound} {ancestor : Shape} {verdict : Except Failure Unit} :
      b.shapeOf settings.errorCodesName base = .ok ancestor → ancestor.result? = none →
      OverrideEnds b settings s result ancestor.base? verdict →
      OverrideEnds b settings s result (some (.named occ base as)) verdict

/-- The search ends with the verdict that is computed, if the ancestors come to an end within the given steps. -/
theorem overrideEnds {b : Binder} {settings : Settings} (s : Shape) (result : Bound) {e : Entry} {k n fuel : Nat}
    {base? : Option Bound} (hbase : base?.bind (·.declared?) = b.ancestor? settings.errorCodesName e (k + 1))
    (hnamed : ∀ t, base? = some t → t.declared?.isSome = true)
    (hend : b.ancestor? settings.errorCodesName e (k + 1 + n) = none) (hfuel : n ≤ fuel) :
    OverrideEnds b settings s result base? (checkResultOverride b settings s result fuel base?) := by
  -- by induction on the ancestors that are left; there is fuel for all of them
  induction n generalizing k fuel base? with
  | zero =>
    cases base? with
    | none =>
      rw [checkResultOverride]
      · exact .root
      · simp
    | some t =>
      have hdeclared := hnamed t rfl
      rw [Nat.add_zero] at hend
      rw [hend, Option.bind_some] at hbase
      simp [hbase] at hdeclared
  | succ n ih =>
    obtain ⟨fuel, rfl⟩ : ∃ fuel', fuel = fuel' + 1 := ⟨fuel - 1, by omega⟩
    cases base? with
    | none => exact .root
    | some t =>
      cases t with
      | named occ base as =>
        cases hshape : b.shapeOf settings.errorCodesName base with
        | error failure =>
          have hcheck : checkResultOverride b settings s result (fuel + 1) (some (.named occ base as)) =
              .error failure := by rw [checkResultOverride, hshape]; rfl
          rw [hcheck]
          exact .failed hshape
        | ok ancestor =>
          cases hresult : ancestor.result? with
          | some expected =>
            have hcheck : checkResultOverride b settings s result (fuel + 1) (some (.named occ base as)) =
                checkResultOverride b settings s result 1 (some (.named occ base as)) := by
              simp only [checkResultOverride, hshape, ok_bind, hresult]
            rw [hcheck]
            exact .settled hshape hresult
          | none =>
            have hcheck : checkResultOverride b settings s result (fuel + 1) (some (.named occ base as)) =
                checkResultOverride b settings s result fuel ancestor.base? := by
              simp only [checkResultOverride, hshape, ok_bind, hresult]
            rw [hcheck]
            refine .up hshape hresult (ih (k := k + 1) ?_ ?_ ?_ (by omega))
            · rw [Binder.ancestor?, ← hbase]
              exact (Binder.base?_eq hshape).symm
            · exact fun t ht => Binder.declared?_of_shapeOf hshape ht
            · rw [← hend]
              congr 1
              omega
      | _ => exact absurd (hnamed _ rfl) (by simp [Bound.declared?])

private theorem not_overrideEnds {b : Binder} {settings : Settings} {s : Shape} {result : Bound} {R : Entry → Prop}
    (hring : ∀ x, R x → ∃ t, b.shapeOf settings.errorCodesName x = .ok t ∧ t.result? = none ∧
      ∃ y, t.base?.bind (·.declared?) = some y ∧ R y)
    {base? : Option Bound} {x : Entry} (hx : base?.bind (·.declared?) = some x) (hmem : R x)
    (verdict : Except Failure Unit) : ¬OverrideEnds b settings s result base? verdict := by
  intro h
  induction h generalizing x with
  | root => cases hx
  | failed hshape =>
    cases hx
    obtain ⟨t, ht, _⟩ := hring _ hmem
    rw [hshape] at ht
    cases ht
  | settled hshape hresult =>
    cases hx
    obtain ⟨t, ht, hnone, _⟩ := hring _ hmem
    rw [hshape] at ht
    cases ht
    rw [hresult] at hnone
    cases hnone
  | up hshape _ _ ih =>
    cases hx
    obtain ⟨t, ht, _, y, hy, hmem'⟩ := hring _ hmem
    rw [hshape] at ht
    cases ht
    exact ih hy hmem'

end Emit.Dart

namespace Binding

open Emit (Settings)
open Emit.Dart (OverrideEnds checkResultOverride)

/-- If the names of the base types along the ancestors of a type are not shadowed by the type, no ancestor comes up
twice, they come to an end within the entries of the table, and so does the search for a result that the type would
override.  Qualified names are distinct in every program that passes validation. -/
theorem ancestors_distinct {p : Program} {targets : Typing.Targets} {overrides : List (String × String)}
    {policy : Naming.Policy} {b : Binder} {settings : Settings} (hd : (p.visits.map (·.qualified)).Nodup)
    (hb : Binder.build targets overrides policy p = .ok b)
    (hshapes : ∀ x ∈ b.table.entries, x.decl.body?.isSome = true →
      ∃ s, b.shapeOf settings.errorCodesName x = .ok s)
    {e : Entry} (he : e ∈ b.table.entries)
    (hclear : ∀ n base, b.ancestor? settings.errorCodesName e (n + 1) = some base → b.Unshadowed e base) :
    (∀ m n x y, m < n → b.ancestor? settings.errorCodesName e m = some x →
      b.ancestor? settings.errorCodesName e n = some y → x.qualified ≠ y.qualified) ∧
    b.ancestor? settings.errorCodesName e b.table.entries.length = none ∧
    ∀ s result, b.shapeOf settings.errorCodesName e = .ok s →
      OverrideEnds b settings s result s.base?
        (checkResultOverride b settings s result (b.table.entries.length + 1) s.base?) := by
  have hkept : p.DistinctKept := Program.DistinctNames.kept hd
  have hlookup : ∀ q x, b.table.lookup q = some x ↔ x ∈ b.table.entries ∧ x.qualified = q :=
    fun _ _ => Table.lookup_eq_some_iff hkept (Binder.build_eq_ok.1 hb).2
  have hindexed : ∀ q x, b.table.lookup q = some x → x ∈ b.table.entries := fun q x h => ((hlookup q x).1 h).1
  have hend : b.ancestor? settings.errorCodesName e b.table.entries.length = none := by
    by_cases htype : e.decl.body?.isSome = true
    · obtain ⟨s, hs⟩ := hshapes e he htype
      exact Binder.ancestor?_eq_none hshapes hindexed hclear hs ((hlookup _ _).2 ⟨he, rfl⟩)
    · -- an enumeration extends nothing, and the table has at least its entry
      have hbase : b.base? settings.errorCodesName e = none := by
        rcases hdecl : e.decl with ⟨head, members⟩ | ⟨head, body, nested⟩
        · rw [Binder.base?, Binder.shapeOf, hdecl]
        · simp [hdecl, Declaration.body?] at htype
      refine Binder.ancestor?_eq_none_of_le (m := 1) (length_pos_of_mem he) ?_
      rw [Binder.ancestor?, Binder.ancestor?, Option.bind_some, hbase]
  refine ⟨fun m n x y hmn hx hy => ?_, hend, fun s result hs => ?_⟩
  · -- both are within the entries of the table, where ancestors are distinct
    have hn : n < b.table.entries.length := by
      by_contra hn
      rw [Binder.ancestor?_eq_none_of_le (Nat.le_of_not_lt hn) hend] at hy
      cases hy
    obtain ⟨x', hx'⟩ := Binder.ancestor?_of_le (m := 1) (by omega) hy
    rw [Binder.ancestor?, Binder.ancestor?, Option.bind_some] at hx'
    have hshape : ∃ s, b.shapeOf settings.errorCodesName e = .ok s := by
      unfold Binder.base? at hx'
      split at hx'
      · exact ⟨_, ‹_›⟩
      · cases hx'
    obtain ⟨s, hs⟩ := hshape
    exact Binder.ancestor?_ne hshapes hindexed hclear hs hmn (by omega) hx hy
  · have hbase : s.base?.bind (·.declared?) = b.ancestor? settings.errorCodesName e (0 + 1) := by
      rw [Binder.ancestor?, Binder.ancestor?, Option.bind_some, Binder.base?_eq hs]
    exact Emit.Dart.overrideEnds s result hbase (fun t ht => Binder.declared?_of_shapeOf hs ht)
      (Binder.ancestor?_eq_none_of_le (Nat.le_add_left _ (0 + 1)) hend) (Nat.le_succ _)

/-- Sellers are employees and employees are people, which are generic; a marker comes first among the bases. -/
def staff : Program :=
  { name := "Staff"
    declarations :=
      [.type { ns := "Staff", name := "Person" } { typeParameters := [some { name := "Key" }] } [],
        .type { ns := "Staff", name := "Employee" }
          { baseTypes := [some (.named "IQuery"), some (.within "Staff" "Person" [.named "int"])] } [],
        .type { ns := "Sales", name := "Seller" }
          { kind := .query, baseTypes := [some (.named "IQuery"), some (.within "Staff" "Employee" [])]
            result := some (.named "int") } []] }

def Binder.hasShapes (b : Binder) (codesName : String) : Bool :=
  b.table.entries.all fun x => x.decl.body?.isNone || (b.shapeOf codesName x).isOk

private theorem Binder.hasShapes_eq_true {b : Binder} {codesName : String} : b.hasShapes codesName = true ↔
    ∀ x ∈ b.table.entries, x.decl.body?.isSome = true → ∃ s, b.shapeOf codesName x = .ok s := by
  have hok : ∀ x, (b.shapeOf codesName x).isOk = true ↔ ∃ s, b.shapeOf codesName x = .ok s := by
    intro x
    cases b.shapeOf codesName x <;> simp [Except.isOk, Except.toBool]
  simp only [hasShapes, all_eq_true, Bool.or_eq_true, hok, Option.isNone_iff_eq_none,
    ← Option.not_isSome_iff_eq_none, Decidable.imp_iff_not_or]

/-- The ancestors of a seller are two and distinct. -/
theorem ancestors_distinct_staff :
    ∃ b e x y, staff.validate = .ok () ∧ Binder.build Emit.Dart.targets [] Emit.Dart.policy staff = .ok b ∧
      b.ancestor? "ErrorCodes" e 1 = some x ∧ b.ancestor? "ErrorCodes" e 2 = some y ∧ b.Unshadowed e y ∧
      x.qualified ≠ y.qualified ∧ b.ancestor? "ErrorCodes" e b.table.entries.length = none := by
  have hvalid : staff.validate = .ok () := by decide +kernel
  have hrun : ((Binder.build Emit.Dart.targets [] Emit.Dart.policy staff).toOption.bind fun b =>
      (b.table.lookup "Sales.Seller").map fun e =>
        (b.hasShapes "ErrorCodes", b.table.entries.all fun x => b.Unshadowed e x,
          (b.ancestor? "ErrorCodes" e 2).isSome)) = some (true, true, true) := by
    decide +kernel
  obtain ⟨b, hb, hrun⟩ := toOption_bind_eq_some.1 hrun
  obtain ⟨e, he, hrun⟩ := Option.map_eq_some_iff.1 hrun
  simp only [Prod.mk.injEq, Binder.hasShapes_eq_true, all_eq_true, decide_eq_true_eq] at hrun
  obtain ⟨hshapes, hclear, hy⟩ := hrun
  obtain ⟨y, hy⟩ := Option.isSome_iff_exists.1 hy
  obtain ⟨x, hx⟩ := Binder.ancestor?_of_le (Nat.le_succ 1) hy
  have hindexed : ∀ {q x}, b.table.lookup q = some x → x ∈ b.table.entries :=
    Table.mem_entries_of_lookup (Binder.build_eq_ok.1 hb).2
  have hclear : ∀ n base, b.ancestor? "ErrorCodes" e (n + 1) = some base → b.Unshadowed e base :=
    fun n base hbase => hclear base (hindexed (Binder.lookup_of_ancestor? (Binder.lookup_qualified he) hbase))
  have hshapes : ∀ x ∈ b.table.entries, x.decl.body?.isSome = true →
      ∃ s, b.shapeOf (Settings.mk "Staff" "ErrorCodes").errorCodesName x = .ok s := hshapes
  obtain ⟨hdistinct, hend, _⟩ := ancestors_distinct (staff.nodup_of_validate hvalid) hb hshapes (hindexed he) hclear
  exact ⟨b, e, x, y, hvalid, hb, hx, hy, hclear 1 y hy, hdistinct 1 2 x y Nat.one_lt_two hx hy, hend⟩

/-- Two types that extend each other.  The marker of each is a type in the namespace of the other, where the walk of
the other leaves the ring. -/
def ring : Program :=
  { name := "Ring"
    declarations :=
      [.type { ns := "Left", name := "Pull" }
          { baseTypes := [some (.named "ICommand"), some (.within "Right" "Push" [])] } [],
        .type { ns := "Left", name := "IQuery" } {} [],
        .type { ns := "Right", name := "Push" }
          { baseTypes := [some (.named "IQuery"), some (.within "Left" "Pull" [])] } [],
        .type { ns := "Right", name := "ICommand" } {} []] }

def Binder.passesOn (b : Binder) (codesName : String) (e : Entry) (q : String) : Bool :=
  match b.shapeOf codesName e with
  | .error _ => false
  | .ok s => s.result?.isNone && (s.base?.bind (·.declared?)).map (·.qualified) == some q

private theorem Binder.passesOn_eq_true {b : Binder} {codesName : String} {e x : Entry} {q : String}
    (h : b.passesOn codesName e q = true) (hx : b.table.lookup q = some x) :
    ∃ s, b.shapeOf codesName e = .ok s ∧ s.result? = none ∧ s.base?.bind (·.declared?) = some x := by
  unfold passesOn at h
  split at h
  · cases h
  · rename_i s hs
    simp only [Bool.and_eq_true, Option.isNone_iff_eq_none, beq_iff_eq, Option.map_eq_some_iff] at h
    obtain ⟨hresult, y, hy, rfl⟩ := h
    rw [(lookup_of_base? ((base?_eq hs).trans hy)).1] at hx
    cases hx
    exact ⟨s, hs, hresult, hy⟩

/-- Two types that extend each other pass all checks and are emitted. -/
theorem cyclic_bases_accepted :
    ∃ b pull push files, ring.validate = .ok () ∧ Binder.build Emit.Dart.targets [] Emit.Dart.policy ring = .ok b ∧
      (∀ x ∈ b.table.entries, x.decl.body?.isSome = true → ∃ s, b.shapeOf "ErrorCodes" x = .ok s) ∧
      b.base? "ErrorCodes" pull = some push ∧ b.base? "ErrorCodes" push = some pull ∧
      Emit.Dart.emit b ⟨"Ring", "ErrorCodes"⟩ ring = .ok files ∧
      ∀ s result verdict, s.base?.bind (·.declared?) = some pull →
        ¬OverrideEnds b ⟨"Ring", "ErrorCodes"⟩ s result s.base? verdict := by
  have hvalid : ring.validate = .ok () := by decide +kernel
  have hrun : ((Binder.build Emit.Dart.targets [] Emit.Dart.policy ring).toOption.bind fun b =>
      (b.table.lookup "Left.Pull").bind fun pull => (b.table.lookup "Right.Push").bind fun push =>
        (Emit.Dart.emit b ⟨"Ring", "ErrorCodes"⟩ ring).toOption.map fun _ => (b.hasShapes "ErrorCodes",
          b.passesOn "ErrorCodes" pull "Right.Push", b.passesOn "ErrorCodes" push "Left.Pull")) =
      some (true, true, true) := by
    decide +kernel
  obtain ⟨b, hb, hrun⟩ := toOption_bind_eq_some.1 hrun
  obtain ⟨pull, hpull, hrun⟩ := Option.bind_eq_some_iff.1 hrun
  obtain ⟨push, hpush, hrun⟩ := Option.bind_eq_some_iff.1 hrun
  obtain ⟨files, hfiles, hrun⟩ := toOption_map_eq_some.1 hrun
  simp only [Prod.mk.injEq, Binder.hasShapes_eq_true] at hrun
  obtain ⟨hshapes, hpassPull, hpassPush⟩ := hrun
  obtain ⟨s, hs, hsresult, hsbase⟩ := Binder.passesOn_eq_true hpassPull hpush
  obtain ⟨t, ht, htresult, htbase⟩ := Binder.passesOn_eq_true hpassPush hpull
  refine ⟨b, pull, push, files, hvalid, hb, hshapes, (Binder.base?_eq hs).trans hsbase,
    (Binder.base?_eq ht).trans htbase, hfiles, fun u result verdict hu => ?_⟩
  refine Emit.Dart.not_overrideEnds (R := fun x => x = pull ∨ x = push) ?_ hu (.inl rfl) verdict
  rintro x (rfl | rfl)
  · exact ⟨s, hs, hsresult, push, hsbase, .inr rfl⟩
  · exact ⟨t, ht, htresult, pull, htbase, .inl rfl⟩

end Binding

end Covenant
