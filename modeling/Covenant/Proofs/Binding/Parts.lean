import Covenant.Compile.Generate
import Covenant.Proofs.Binding.Shape

/-!
# The types within a bound type

Induction on the children of bound types, and properties that hold of every type within a type.  A binder makes
well-formed trees only (`Binder.bind_wellFormed`).
-/

namespace Covenant.Binding

open Contract (Program RefHead TypeBody TypeRef)
open Naming (Entry)
open Outcome
open Typing (Primitive)
open List

namespace Bound

theorem element_mem_children (occ : Occurrence) (element : Bound) : element ∈ (list occ element).children :=
  (.head _)

theorem value_mem_children (occ : Occurrence) (key value : Bound) : value ∈ (map occ key value).children :=
  .tail _ (.head _)

/-- Induction on the children of a type. -/
theorem inductChildren {P : Bound → Prop} (step : ∀ t, (∀ c ∈ t.children, P c) → P t) (t : Bound) : P t :=
  step t fun c _ => inductChildren step c
termination_by sizeOf t
decreasing_by
  rename_i hc
  cases t with
  | named occ e as | marker occ e as =>
    have hlt := sizeOf_lt_of_mem hc
    simp only [children] at hlt
    simp only [named.sizeOf_spec, marker.sizeOf_spec]
    omega
  | list occ element =>
    obtain rfl := mem_singleton.1 hc
    simp only [list.sizeOf_spec]
    omega
  | map occ key value =>
    simp only [map.sizeOf_spec]
    rcases mem_cons.1 hc with rfl | hc
    · omega
    · obtain rfl := mem_singleton.1 hc
      omega
  | _ => cases hc

mutual

/-- Whether a property holds of a type and of every type within it. -/
def every (p : Bound → Bool) : Bound → Bool
  | named occ e as => p (named occ e as) && everyOf p as
  | marker occ name as => p (marker occ name as) && everyOf p as
  | list occ element => p (list occ element) && every p element
  | map occ key value => p (map occ key value) && every p key && every p value
  | t => p t

def everyOf (p : Bound → Bool) : List Bound → Bool
  | [] => true
  | t :: ts => every p t && everyOf p ts

end

private theorem everyOf_eq_true {p : Bound → Bool} {ts : List Bound} :
    everyOf p ts = true ↔ ∀ t ∈ ts, t.every p = true := by
  induction ts with
  | nil => simp [everyOf]
  | cons t ts ih => simp [everyOf, ih]

theorem every_eq_true {p : Bound → Bool} {t : Bound} :
    t.every p = true ↔ p t = true ∧ ∀ c ∈ t.children, c.every p = true := by
  cases t <;> simp [every, children, everyOf_eq_true, and_assoc]

/-- A type occurs in another, or is it. -/
inductive Within : Bound → Bound → Prop
  | self (t : Bound) : Within t t
  | child {u c t : Bound} : c ∈ t.children → Within u c → Within u t

theorem Within.trans {u v t : Bound} (huv : u.Within v) (hvt : v.Within t) : u.Within t := by
  induction hvt with
  | self => exact huv
  | child hc _ ih => exact .child hc ih

/-- Whether the keys of a dictionary can be written as the keys of a JSON object. -/
def hasKeys : Bound → Bool
  | map _ key _ => key.isKey
  | _ => true

end Bound

variable {b : Binder} {scope : Scope}

private theorem BindStep.exists_of_mem_children {h : RefHead} {as : List (Option TypeRef)} {t c : Bound}
    (hstep : BindStep b scope h as t) (hc : c ∈ t.children) : ∃ r, some r ∈ as ∧ b.bind scope r = .ok c := by
  have hargument : ∃ a ∈ as, b.bindOptional scope a = .ok c := by
    cases hstep with
    | list _ ht => exact ⟨_, mem_singleton_self _, mem_singleton.1 hc ▸ ht⟩
    | map _ hkey hvalue _ =>
      rcases mem_cons.1 hc with rfl | hc
      · exact ⟨_, .head _, hkey⟩
      · exact ⟨_, .tail _ (.head _), mem_singleton.1 hc ▸ hvalue⟩
    | named _ _ _ hts | marker _ hts => exact exists_of_mem_right hts hc
    | _ => cases hc
  obtain ⟨a, ha, hbind⟩ := hargument
  obtain ⟨r, rfl, hr⟩ := Binder.bindOptional_eq_ok.1 hbind
  exact ⟨r, ha, hr⟩

/-- What occurs in a bound type is bound in the same scope. -/
theorem Binder.bind_within {t u : Bound} (hu : u.Within t) {r : TypeRef} (h : b.bind scope r = .ok t) :
    ∃ r, b.bind scope r = .ok u := by
  induction hu generalizing r with
  | self => exact ⟨r, h⟩
  | child hc _ ih =>
    obtain ⟨head, as⟩ := r
    obtain ⟨r', _, hr'⟩ := (bind_mk_eq_ok.1 h).exists_of_mem_children hc
    exact ih hr'

namespace Bound

/-- An enumeration, or a primitive whose values can be written as texts. -/
def IsKeyType (key : Bound) : Prop :=
  (∃ occ e, key = enum occ e) ∨ ∃ occ category target, key = primitive occ category target ∧
    category ∈ [Primitive.integer, Primitive.double, Primitive.string, Primitive.datetime]

private theorem isKey_eq_true {key : Bound} : key.isKey = true ↔ key.IsKeyType := by
  unfold IsKeyType
  cases key with
  | primitive occ category target => cases category <;> simp [isKey]
  | _ => simp [isKey]

/-- What a node has to be, by its kind.  Markers take any number of arguments. -/
def Formed (b : Binder) (scope : Scope) : Bound → Prop
  | list occ _ => occ.ref.arguments.length = 1
  | map occ key _ => occ.ref.arguments.length = 2 ∧ key.IsKeyType
  | named _ e as => b.table.lookup e.qualified = some e ∧
      ∃ head body nested, e.decl = .type head body nested ∧ as.length = body.typeParameters.length
  | enum occ e => b.table.lookup e.qualified = some e ∧ e.decl.body? = none ∧ occ.ref.arguments = []
  | primitive occ _ _ => occ.ref.arguments = []
  | param occ name => name ∈ scope.params ∧ occ.ref.arguments = []
  | marker _ name _ => b.table.policy.isUnmangled name = true

/-- A node that its reference determines. -/
structure Sound (b : Binder) (scope : Scope) (t : Bound) : Prop where
  nullable : t.nullable = t.ref.head.nullable
  /-- No argument of the reference is missing, and the children are bound from them, one by one. -/
  arguments : t.ref.arguments = t.children.map fun c => some c.ref
  formed : t.Formed b scope

end Bound

namespace Binder

variable {t : Bound}

private theorem ref_of_bind {r : TypeRef} (h : b.bind scope r = .ok t) : t.ref = r := by
  obtain ⟨head, as⟩ := r
  cases bind_mk_eq_ok.1 h <;> rfl

private theorem ref_of_bindOptional {a : Option TypeRef} (h : b.bindOptional scope a = .ok t) : a = some t.ref := by
  obtain ⟨r, rfl, hr⟩ := bindOptional_eq_ok.1 h
  rw [ref_of_bind hr]

private theorem eq_map_of_bindOptional {as : List (Option TypeRef)} {ts : List Bound}
    (h : Forall₂ (fun a t => b.bindOptional scope a = .ok t) as ts) : as = ts.map fun t => some t.ref := by
  rw [← forall₂_eq_eq_eq, forall₂_map_right_iff]
  exact h.imp fun _ _ => ref_of_bindOptional

private theorem sound_of_bind {r : TypeRef} (h : b.bind scope r = .ok t) : t.Sound b scope := by
  obtain ⟨head, as⟩ := r
  obtain ⟨hdeclared, hparam, hmarker⟩ := b.of_reading scope head
  cases bind_mk_eq_ok.1 h with
  | list _ ht => exact ⟨rfl, eq_map_of_bindOptional (.cons ht .nil), rfl⟩
  | map _ hkey hvalue hiskey =>
    exact ⟨rfl, eq_map_of_bindOptional (.cons hkey (.cons hvalue .nil)), rfl, Bound.isKey_eq_true.1 hiskey⟩
  | param hread => exact ⟨rfl, rfl, hparam _ hread, rfl⟩
  | primitive => exact ⟨rfl, rfl, rfl⟩
  | enum hread hdecl =>
    obtain ⟨q, hq⟩ := hdeclared _ hread
    exact ⟨rfl, rfl, lookup_qualified hq, by rw [hdecl]; rfl, rfl⟩
  | named hread hdecl hlen hts =>
    obtain ⟨q, hq⟩ := hdeclared _ hread
    refine ⟨rfl, eq_map_of_bindOptional hts, lookup_qualified hq, _, _, _, hdecl, ?_⟩
    rw [← hlen, hts.length_eq]
  | marker hread hts => exact ⟨rfl, eq_map_of_bindOptional hts, hmarker _ hread⟩

private theorem bind_of_firstNamed {context : String} {refs : List (Option TypeRef)}
    (h : b.firstNamed context scope refs = .ok (some t)) : ∃ r, b.bind scope r = .ok t := by
  induction refs with
  | nil => cases h
  | cons r refs ih =>
    rw [firstNamed] at h
    obtain ⟨t', ht', h⟩ := bind_eq_ok.1 h
    split at h
    · obtain ⟨r, _, hr⟩ := bindOptional_eq_ok.1 (bindFor_eq_ok.1 ht')
      obtain rfl := Option.some.inj (pure_eq_ok.1 h)
      exact ⟨r, hr⟩
    · exact ih h

end Binder

/-- A base of the walk has an argument for each of its type parameters. -/
structure Link.Supplied (l : Link) : Prop where
  length : l.arguments.length = l.body.typeParameters.length
  present : ∀ i < l.body.typeParameters.length, ∃ r, l.arguments[i]? = some (some r)
  bindings : l.bindings.map (·.1) = l.body.parameterNames.reverse

private theorem Link.supplied_of_refs {l : Link} {refs : List TypeRef} (h : l.arguments = refs.map some)
    (hlen : refs.length = l.body.typeParameters.length) : l.Supplied := by
  refine ⟨by rw [h, length_map, hlen], fun i hi => ?_, ?_⟩
  · rw [h, getElem?_map, getElem?_eq_getElem (hlen ▸ hi)]
    exact ⟨_, rfl⟩
  · have hnames : l.body.parameterNames.length ≤ refs.length := by
      rw [hlen, TypeBody.parameterNames, length_map]
      exact length_filterMap_le ..
    have hpairs : ((l.body.parameterNames.zip (refs.map some)).filterMap fun x => x.2.map (x.1, ·)) =
        l.body.parameterNames.zip refs := by
      rw [zip_map_right, filterMap_map]
      exact filterMap_some ..
    have hbindings : l.bindings = (l.body.parameterNames.zip refs).reverse := by
      rw [Link.bindings, Binder.baseBindings, h]
      exact congrArg reverse hpairs
    rw [hbindings, map_reverse, map_fst_zip hnames]

namespace Binder

private theorem supplied_of_mem_links {e : Entry} {fuel : Nat} {base? : Option Bound}
    (h : ∀ t, base? = some t → ∃ scope r, b.bind scope r = .ok t) : ∀ l ∈ b.links e fuel base?, l.Supplied := by
  induction fuel generalizing base? with
  | zero => simp [links]
  | succ fuel ih =>
    rcases base? with _ | t
    · simp [links]
    · cases t with
      | named occ base as =>
        obtain ⟨scope, r, hr⟩ := h _ rfl
        obtain ⟨_, harguments, _, head, body, nested, hdecl, hlen⟩ := sound_of_bind hr
        unfold links
        simp only [hdecl]
        -- the base itself is bound from its reference, and the next one is bound by the walk
        refine forall_mem_cons.2 ⟨Link.supplied_of_refs (harguments.trans map_map.symm) ?_, ?_⟩
        · exact (length_map ..).trans hlen
        · split
          · rename_i next hnext
            refine ih fun t ht => ?_
            subst ht
            obtain ⟨r, hr⟩ := bind_of_firstNamed hnext
            exact ⟨_, r, hr⟩
          · simp
      | _ => simp [links]

end Binder

private theorem Bound.key_eq_self_iff {key : Bound} (h : key.isKey = true) (src : Emit.Expr) :
    (Emit.decodeKey key src = src ↔ key.isPrimitive .string = true) ∧
      (Emit.encodeKey key src = src ↔ key.isPrimitive .string = true) := by
  have hne : ∀ c, Emit.Expr.convert c src ≠ src := by
    intro c heq
    have hsize := congrArg sizeOf heq
    simp at hsize
  cases key with
  | primitive occ category target =>
    cases category <;> simp_all [Emit.decodeKey, Emit.encodeKey, isPrimitive, isKey]
  | enum occ e => simp [Emit.decodeKey, Emit.encodeKey, isPrimitive, hne]
  | _ => cases h

/-- Binding gives well-formed trees only.  So keys of dictionaries are converted, texts apart, and the walk along the
bases of a type finds an argument for every type parameter. -/
theorem Binder.bind_wellFormed (b : Binder) (scope : Scope) (r : TypeRef) (t : Bound) (h : b.bind scope r = .ok t) :
    t.ref = r ∧ (∀ u : Bound, u.Within t → u.Sound b scope) ∧
      (∀ occ key value, (Bound.map occ key value).Within t → ∀ src : Emit.Expr,
        (Emit.decodeKey key src = src ↔ key.isPrimitive .string = true) ∧
          (Emit.encodeKey key src = src ↔ key.isPrimitive .string = true)) ∧
      ∀ (e : Entry) (fuel : Nat), ∀ l ∈ b.links e fuel (some t), l.Supplied := by
  have hsound : ∀ u : Bound, u.Within t → u.Sound b scope := by
    intro u hu
    obtain ⟨r', hr'⟩ := bind_within hu h
    exact sound_of_bind hr'
  refine ⟨ref_of_bind h, hsound, fun occ key value hmap src => ?_, fun e fuel => ?_⟩
  · exact Bound.key_eq_self_iff (Bound.isKey_eq_true.2 (hsound _ hmap).formed.2) src
  · refine supplied_of_mem_links fun t' ht' => ?_
    obtain rfl := Option.some.inj ht'
    exact ⟨scope, r, h⟩

/-- Pages of anything, and albums, which are pages of lists. -/
def albums : Program :=
  { name := "Albums"
    declarations :=
      [.enum { ns := "App", name := "Shade" } [],
        .type { ns := "App", name := "Page" } { typeParameters := [some { name := "T" }] } [],
        .type { ns := "App", name := "Album" }
          { typeParameters := [some { name := "T" }]
            baseTypes := [some (.mk { name := "Page" }
              [some (.mk { isList := true } [some (.mk { name := "T" } [])])])] } []] }

/-- An album of dictionaries from shades to a type parameter, with values that may be null. -/
def albumOfShades : TypeRef :=
  .mk { name := "Album" }
    [some (.mk { isDictionary := true }
      [some (.mk { name := "Shade" } []), some (.mk { name := "T", nullable := true } [])])]

/-- Every part of an album of dictionaries is well formed. -/
theorem Binder.bind_wellFormed_albums :
    ∃ b e t, Binder.build Emit.Dart.targets [] Emit.Dart.policy albums = .ok b ∧
      b.table.lookup "App.Album" = some e ∧ b.bind (.inside e) albumOfShades = .ok t ∧
      (b.links e 4 (some t)).map (·.entry.qualified) = ["App.Album", "App.Page"] ∧
      t.ref = albumOfShades ∧ (∀ u : Bound, u.Within t → u.Sound b (.inside e)) ∧
      ∀ l ∈ b.links e 4 (some t), l.Supplied := by
  have hwalk : ((Binder.build Emit.Dart.targets [] Emit.Dart.policy albums).toOption.map fun b =>
      (b.table.lookup "App.Album").map fun e => (b.bind (.inside e) albumOfShades).toOption.map fun t =>
        (b.links e 4 (some t)).map (·.entry.qualified)) = some (some (some ["App.Album", "App.Page"])) := by
    decide +kernel
  obtain ⟨b, hb, hwalk⟩ := toOption_map_eq_some.1 hwalk
  obtain ⟨e, he, hwalk⟩ := Option.map_eq_some_iff.1 hwalk
  obtain ⟨t, ht, hwalk⟩ := toOption_map_eq_some.1 hwalk
  obtain ⟨href, hsound, _, hlinks⟩ := bind_wellFormed b _ _ t ht
  exact ⟨b, e, t, hb, he, ht, hwalk, href, hsound, hlinks e 4⟩

end Covenant.Binding
