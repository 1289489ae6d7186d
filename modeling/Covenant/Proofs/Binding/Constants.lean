import Covenant.Proofs.Binding.Ancestry

/-!
# The constants that containers of error codes inherit

A container of error codes shows the constants of the types it extends, of equal names that of the root, except that
its own values win.  So a value that a type in between gives a name is lost.  The walk along the bases reads base
types without the type parameters, and ends where a base type needs them.  `Binder.inherits_shown_iff` says when a
container shows what its base shows.
-/

namespace Covenant.Binding

open Contract (Constant Declaration Literal Program TypeRef)
open Naming (Entry Table)
open Outcome
open List

def StaticValue.literal : StaticValue → Literal
  | int n => .int n
  | string s => .string s

def constant? (cs : List Constant) (name : String) : Option Constant := cs.find? (·.name == name)

/-- The value that a shape shows for a name. -/
def Shape.valueOf? (s : Shape) (name : String) : Option Literal :=
  (s.constants.find? (·.name == name)).map (·.value.literal)

/-- The constant is shown as it is declared. -/
def ShapeConstant.Shows (c : Constant) (x : ShapeConstant) : Prop := x.name = c.name ∧ c.value = some x.value.literal

private theorem shows_of_shapeConstant {owner ident : String} {c : Constant} {x : ShapeConstant}
    (h : Binder.shapeConstant owner c ident = .ok x) : ShapeConstant.Shows c x := by
  unfold Binder.shapeConstant at h
  split at h <;> rename_i hvalue <;> cases h
  all_goals exact ⟨rfl, hvalue⟩

private theorem find?_of_shows {cs : List Constant} {xs : List ShapeConstant} (h : Forall₂ ShapeConstant.Shows cs xs)
    (name : String) : (xs.find? (·.name == name)).map (·.value.literal) = (constant? cs name).bind (·.value) := by
  induction h with
  | nil => rfl
  | cons hx _ ih =>
    rw [constant?, find?_cons, find?_cons, hx.1]
    split
    · rw [Option.map_some, Option.bind_some, hx.2]
    · exact ih

private theorem constant?_eq_none {cs : List Constant} {name : String} :
    constant? cs name = none ↔ name ∉ cs.map (·.name) := by
  simp [constant?, find?_eq_none]

private theorem constant?_append (cs ds : List Constant) (name : String) :
    constant? (cs ++ ds) name = (constant? cs name).or (constant? ds name) := find?_append

private theorem constant?_withoutOwn (own : List String) (cs : List Constant) (name : String) :
    constant? (Binder.withoutOwn own cs) name = if own.contains name then none else constant? cs name := by
  induction cs generalizing own with
  | nil => simp [Binder.withoutOwn, constant?]
  | cons c cs ih =>
    rw [Binder.withoutOwn]
    by_cases hname : c.name = name
    · subst hname
      split
      · rename_i hown
        rw [ih, if_pos hown]
      · simp [constant?]
    · have hrest : constant? (c :: cs) name = constant? cs name := by simp [constant?, hname]
      rw [hrest]
      split
      · exact ih own
      · have hcons : constant? (c :: Binder.withoutOwn (c.name :: own) cs) name =
            constant? (Binder.withoutOwn (c.name :: own) cs) name := by simp [constant?, hname]
        rw [hcons, ih, contains_cons, beq_false_of_ne (Ne.symm hname), Bool.false_or]

namespace Binder

variable {b : Binder} {e : Entry} {name : String}

/-- The base that is found again for a type, without its type parameters. -/
def plainBase? (b : Binder) (e : Entry) : Option Entry :=
  (e.decl.body?.bind fun body => body.baseTypes.findSome? (b.namedBound? { namespaces := [e.ns] })).bind (·.declared?)

def ownConstants (e : Entry) : List Constant := (e.decl.body?.map (·.constants)).getD []

/-- The constants of a type and of the bases that are found again, those of the root first. -/
def constantsFrom (b : Binder) : Nat → List String → Option Entry → List Constant
  | fuel + 1, seen, some e =>
    if seen.contains e.qualified then []
    else constantsFrom b fuel (e.qualified :: seen) (b.plainBase? e) ++ ownConstants e
  | _, _, _ => []

private theorem constantsFrom_none (fuel : Nat) (seen : List String) : b.constantsFrom fuel seen none = [] := by
  cases fuel <;> rfl

private theorem chainConstants_eq (fuel : Nat) (seen : List String) (base? : Option Bound) :
    b.chainConstants fuel seen base? = b.constantsFrom fuel seen (base?.bind (·.declared?)) := by
  induction fuel generalizing seen base? with
  | zero => rcases base? with _ | t <;> rfl
  | succ fuel ih =>
    rcases base? with _ | t
    · rfl
    · cases t with
      | named occ e as =>
        show _ = if seen.contains e.qualified then [] else
          constantsFrom b fuel (e.qualified :: seen) (b.plainBase? e) ++ ownConstants e
        unfold chainConstants
        cases hseen : seen.contains e.qualified with
        | true => rfl
        | false =>
          rcases hdecl : e.decl with ⟨head, members⟩ | ⟨head, body, nested⟩
          · simp [plainBase?, ownConstants, hdecl, Declaration.body?, constantsFrom_none]
          · have hplain : b.plainBase? e =
                (body.baseTypes.findSome? (b.namedBound? { namespaces := [e.ns] })).bind (·.declared?) := by
              simp [plainBase?, hdecl, Declaration.body?]
            have hown : ownConstants e = body.constants := by simp [ownConstants, hdecl, Declaration.body?]
            rw [hplain, hown, ← ih]
            rfl
      | _ => rfl

private theorem namedBound?_eq_some {scope : Scope} {r : Option TypeRef} {t : Bound}
    (h : b.namedBound? scope r = some t) :
    b.bindOptional scope r = .ok t ∧ ∃ occ e as, t = .named occ e as := by
  unfold namedBound? at h
  split at h
  · cases h
    exact ⟨‹_›, _, _, _, rfl⟩
  · cases h

private theorem exists_of_plainBase? {e x : Entry} (h : b.plainBase? e = some x) :
    ∃ body, e.decl.body? = some body ∧ ∃ r ∈ body.baseTypes, ∃ occ as,
      b.bindOptional { namespaces := [e.ns] } r = .ok (.named occ x as) := by
  obtain ⟨t, ht, hx⟩ := Option.bind_eq_some_iff.1 h
  obtain ⟨body, hbody, ht⟩ := Option.bind_eq_some_iff.1 ht
  obtain ⟨r, hr, ht⟩ := exists_of_findSome?_eq_some ht
  obtain ⟨hbind, occ, e', as, rfl⟩ := namedBound?_eq_some ht
  cases hx
  exact ⟨body, hbody, r, hr, occ, as, hbind⟩

private theorem lookup_of_plainBase? {e x : Entry} (h : b.plainBase? e = some x) :
    b.table.lookup x.qualified = some x := by
  obtain ⟨_, _, _, _, _, _, hbind⟩ := exists_of_plainBase? h
  exact (lookup_of_bind hbind).1

private theorem Sorts.unique {refs : List (Option TypeRef)} {base? base'? : Option Bound}
    {markers markers' : List Bound} (h : b.Sorts e base'? markers' base? markers refs) {x : Entry} :
    (base?.bind (·.declared?) = some x → base'?.bind (·.declared?) = some x) ∧
      ∀ r ∈ refs, ∃ t, b.bindOptional (.inside e) r = .ok t ∧
        (t.declared? = some x → base'?.bind (·.declared?) = some x) := by
  induction h with
  | done => exact ⟨id, by simp⟩
  | marker ht _ ih => exact ⟨ih.1, forall_mem_cons.2 ⟨⟨_, ht, fun hx => by cases hx⟩, ih.2⟩⟩
  | named ht hnone _ ih =>
    refine ⟨fun hx => ?_, forall_mem_cons.2 ⟨⟨_, ht, ih.1⟩, ih.2⟩⟩
    rw [hnone] at hx
    cases hx

private theorem reading_plain {h : Contract.RefHead} (hparam : ∀ name, b.reading (.inside e) h ≠ .param name) :
    b.reading { namespaces := [e.ns] } h = b.reading (.inside e) h := by
  have hresolve : b.resolve? { namespaces := [e.ns] } h = b.resolve? (.inside e) h := rfl
  have hparam := hparam h.name
  unfold reading at hparam ⊢
  rw [hresolve]
  grind

private theorem base_of_plainBase? {codesName : String} {e x : Entry} {s : Shape}
    (hs : b.shapeOf codesName e = .ok s)
    (h : b.plainBase? e = some x) : s.base?.bind (·.declared?) = some x := by
  obtain ⟨head, nested, _, _, parts⟩ := shapeOf_eq_ok hs
  obtain ⟨body, hbody, r, hr, occ, as, hbind⟩ := exists_of_plainBase? h
  obtain rfl : s.body = body := by simpa [parts.decl, Declaration.body?] using hbody
  obtain ⟨t, ht, hbase⟩ := (sorts_of_shapeBases parts.bases).unique.2 r hr
  refine hbase ?_
  -- both bindings read the head of the reference alike
  have hplain := qualified_declared? hbind
  have hinside := qualified_declared? ht
  obtain ⟨r, rfl, _⟩ := bindOptional_eq_ok.1 hbind
  have hread := reading_plain ((sorts_of_shapeBases parts.bases).reading hr)
  rw [Option.bind_some, namedType?, hread] at hplain
  rw [Option.bind_some, namedType?, ← hplain] at hinside
  obtain ⟨y, hy, hq⟩ := Option.map_eq_some_iff.1 hinside
  obtain ⟨occ', as', rfl⟩ := Bound.eq_named_of_declared? hy
  have hfound := (lookup_of_bind ht).1
  rw [hq, (lookup_of_bind hbind).1] at hfound
  rw [hy, ← hfound]

private theorem plainBase?_of_params {codesName : String} {s : Shape} (hs : b.shapeOf codesName e = .ok s)
    (hparams : (Scope.inside e).params = []) : b.plainBase? e = s.base?.bind (·.declared?) := by
  cases hplain : b.plainBase? e with
  | some x => exact (base_of_plainBase? hs hplain).symm
  | none =>
    obtain ⟨head, nested, _, _, parts⟩ := shapeOf_eq_ok hs
    have hscope : Scope.inside e = { namespaces := [e.ns] } := congrArg (Scope.mk [e.ns]) hparams
    rcases (sorts_of_shapeBases parts.bases).base with hnone | ⟨occ, x, as, hbase, r, hr, hbind⟩
    · rw [hnone]
      rfl
    · have hnamed : b.namedBound? { namespaces := [e.ns] } r = some (.named occ x as) := by
        rw [namedBound?, ← hscope, hbind]
      have hfind : s.body.baseTypes.findSome? (b.namedBound? { namespaces := [e.ns] }) ≠ none := fun hnone =>
        Option.some_ne_none _ (hnamed.symm.trans (findSome?_eq_none_iff.1 hnone r hr))
      obtain ⟨t, ht⟩ := Option.ne_none_iff_exists'.1 hfind
      obtain ⟨r', _, ht'⟩ := exists_of_findSome?_eq_some ht
      obtain ⟨_, _, _, _, rfl⟩ := namedBound?_eq_some ht'
      simp [plainBase?, parts.decl, Declaration.body?, ht, Bound.declared?] at hplain

def unseen (b : Binder) (seen : List String) : List Entry := b.table.entries.filter (!seen.contains ·.qualified)

private theorem length_unseen_cons_lt (he : e ∈ b.table.entries) {seen : List String}
    (hseen : ¬seen.contains e.qualified = true) :
    (b.unseen (e.qualified :: seen)).length < (b.unseen seen).length := by
  have hsub : b.unseen (e.qualified :: seen) = (b.unseen seen).filter (·.qualified != e.qualified) := by
    rw [unseen, unseen, filter_filter]
    refine filter_congr fun x _ => ?_
    rw [contains_cons, Bool.not_or]
    rfl
  rw [hsub, length_filter_lt_length_iff_exists]
  exact ⟨e, mem_filter.2 ⟨he, by simpa using hseen⟩, by simp⟩

private theorem constantsFrom_fuel (hfound : ∀ q e, b.table.lookup q = some e → e ∈ b.table.entries) {fuel : Nat}
    {seen : List String} {e? : Option Entry} (he : ∀ e, e? = some e → b.table.lookup e.qualified = some e)
    (hfuel : (b.unseen seen).length ≤ fuel) : b.constantsFrom (fuel + 1) seen e? = b.constantsFrom fuel seen e? := by
  induction fuel generalizing seen e? with
  | zero =>
    cases e? with
    | none => rfl
    | some e =>
      have hnil := length_eq_zero_iff.1 (Nat.le_zero.1 hfuel)
      have hseen : seen.contains e.qualified = true := by
        simpa using filter_eq_nil_iff.1 hnil e (hfound _ e (he e rfl))
      rw [constantsFrom, if_pos hseen]
      rfl
  | succ fuel ih =>
    cases e? with
    | none => rfl
    | some e =>
      rw [constantsFrom, constantsFrom]
      split
      · rfl
      · rename_i hseen
        refine congrArg (· ++ ownConstants e) (ih (fun x hx => lookup_of_plainBase? hx) ?_)
        have hlt := length_unseen_cons_lt (hfound _ e (he e rfl)) hseen
        omega

/-- A walk that has seen the base of a type finds the other constants whether it may pass through the type or not. -/
theorem constant?_constantsFrom {e base : Entry} (he : b.table.lookup e.qualified = some e)
    (hplain : ∀ x, b.plainBase? e = some x → x = base) (hname : constant? (ownConstants e) name = none) {fuel : Nat}
    {seen seen' : List String} (hseen : ∀ q, q ∈ seen' ↔ q ∈ seen ∨ q = e.qualified) (hbase : base.qualified ∈ seen)
    {x? : Option Entry} (hx : ∀ x, x? = some x → b.table.lookup x.qualified = some x) :
    constant? (b.constantsFrom fuel seen' x?) name = constant? (b.constantsFrom fuel seen x?) name := by
  induction fuel generalizing seen seen' x? with
  | zero => rfl
  | succ fuel ih =>
    cases x? with
    | none => rfl
    | some x =>
      rw [constantsFrom, constantsFrom]
      by_cases hx' : x.qualified ∈ seen
      · rw [if_pos (contains_iff_mem.2 ((hseen _).2 (.inl hx'))), if_pos (contains_iff_mem.2 hx')]
      · rw [if_neg (mt contains_iff_mem.1 hx')]
        by_cases hself : x.qualified = e.qualified
        · -- the walk has come to the type, and would go on at its base
          obtain rfl : x = e := by
            have := hx x rfl
            rw [hself, he] at this
            exact (Option.some.inj this).symm
          have hstop : b.constantsFrom fuel (x.qualified :: seen) (b.plainBase? x) = [] := by
            cases hnext : b.plainBase? x with
            | none => exact constantsFrom_none ..
            | some y =>
              obtain rfl := hplain y hnext
              cases fuel with
              | zero => rfl
              | succ fuel => simp [constantsFrom, hbase]
          rw [if_pos (contains_iff_mem.2 ((hseen _).2 (.inr rfl))), hstop, nil_append, hname]
          rfl
        · rw [if_neg (mt contains_iff_mem.1 fun h => ((hseen _).1 h).elim hx' hself), constant?_append,
            constant?_append]
          congr 1
          refine ih (fun q => ?_) (.tail _ hbase) fun y hy => lookup_of_plainBase? hy
          rw [mem_cons, mem_cons, hseen, or_assoc]

/-- The constants that the bases of a type declare, those of the root first. -/
def ancestorConstants (b : Binder) (s : Shape) : List Constant :=
  b.chainConstants (b.table.entries.length + 1) [s.entry.qualified] s.base?

def shown (b : Binder) (s : Shape) : List Constant := b.declaredConstants s.entry s.body s.base? s.errorCodes

variable {codesName : String} {e base : Entry} {s t : Shape}

/-- A container of error codes shows its own constant of a name, or else the first that its bases declare. -/
theorem constant?_shown (hcodes : s.errorCodes = true) (name : String) :
    constant? (b.shown s) name = (constant? s.body.constants name).or (constant? (b.ancestorConstants s) name) := by
  rw [shown, hcodes, declaredConstants, if_pos rfl, constant?_append, constant?_withoutOwn, ← ancestorConstants]
  cases hown : constant? s.body.constants name with
  | none =>
    rw [if_neg (mt contains_iff_mem.1 (constant?_eq_none.1 hown)), Option.or_none, Option.none_or]
  | some c =>
    have hmem : name ∈ s.body.constants.map (·.name) := by
      by_contra hmem
      rw [constant?_eq_none.2 hmem] at hown
      cases hown
    rw [if_pos (contains_iff_mem.2 hmem)]
    rfl

section

variable (hs : b.shapeOf codesName e = .ok s)

include hs

private theorem ownConstants_eq : ownConstants e = s.body.constants := by
  obtain ⟨_, _, _, _, parts⟩ := shapeOf_eq_ok hs
  simp [ownConstants, parts.decl, Declaration.body?]

private theorem qualified_ne_of_shapeOf (hbase : s.base?.bind (·.declared?) = some base) :
    base.qualified ≠ e.qualified := by
  obtain ⟨_, _, _, _, parts⟩ := shapeOf_eq_ok hs
  have hbody := (lookup_of_base? ((base?_eq hs).trans hbase)).2
  obtain ⟨u, hu, hdeclared⟩ := Option.bind_eq_some_iff.1 hbase
  have hchain := parts.chain
  rw [hu] at hchain
  obtain ⟨occ, as, rfl⟩ := Bound.eq_named_of_declared? hdeclared
  intro heq
  rcases hdecl : base.decl with ⟨head, members⟩ | ⟨head, body, nested⟩
  · simp [hdecl, Declaration.body?] at hbody
  · simp only [chainFields, hdecl, heq] at hchain
    rw [if_pos (by simp)] at hchain
    exact throw_ne_ok (bind_eq_ok.1 hchain).choose_spec.1

private theorem shown_of_shapeOf :
    Forall₂ ShapeConstant.Shows (b.shown s) s.constants ∧ ((b.shown s).map (·.name)).Nodup := by
  obtain ⟨_, _, _, _, parts⟩ := shapeOf_eq_ok hs
  obtain ⟨hsteps, hnodup⟩ := shapeConstants_eq_ok parts.constants
  rw [shown, parts.entry]
  refine ⟨hsteps.imp fun c x hx => ?_, hnodup⟩
  obtain ⟨ident, hx⟩ := hx
  exact shows_of_shapeConstant hx

private theorem valueOf?_eq (name : String) :
    s.valueOf? name = (constant? (b.shown s) name).bind (·.value) :=
  find?_of_shows (shown_of_shapeOf hs).1 name

private theorem value_ne_none_of_shown {c : Constant} (hc : constant? (b.shown s) name = some c) :
    c.value ≠ none := by
  obtain ⟨x, _, hx⟩ := exists_of_mem_right (shown_of_shapeOf hs).1.flip (mem_of_find?_eq_some hc)
  rw [hx.2]
  exact Option.some_ne_none _

private theorem nodup_constants : (s.constants.map (·.name)).Nodup := by
  obtain ⟨hshows, hnodup⟩ := shown_of_shapeOf hs
  have hnames : (b.shown s).map (·.name) = s.constants.map (·.name) := by
    rw [← forall₂_eq_eq_eq, forall₂_map_left_iff, forall₂_map_right_iff]
    exact hshows.imp fun c x hx => hx.1.symm
  rwa [← hnames]

private theorem valueOf?_own (hcodes : s.errorCodes = true) {c : Constant} (hc : c ∈ s.body.constants) :
    s.valueOf? c.name = c.value := by
  have hsub : s.body.constants.Sublist (b.shown s) := by
    rw [shown, hcodes, declaredConstants, if_pos rfl]
    exact sublist_append_right ..
  have hown : constant? s.body.constants c.name = some c :=
    (Text.find?_key_eq_some ((shown_of_shapeOf hs).2.sublist (hsub.map _))).2 ⟨hc, rfl⟩
  rw [valueOf?_eq hs, constant?_shown hcodes, hown]
  rfl

end

/-- For a name that a type does not declare itself, its bases declare what those of its base do if they are found
again, and else what the base does. -/
theorem constant?_ancestorConstants (hfound : ∀ q e, b.table.lookup q = some e → e ∈ b.table.entries)
    (he : b.table.lookup e.qualified = some e) (hs : b.shapeOf codesName e = .ok s)
    (ht : b.shapeOf codesName base = .ok t) (hbase : s.base?.bind (·.declared?) = some base)
    (hname : constant? s.body.constants name = none) :
    constant? (b.ancestorConstants s) name =
      (if b.plainBase? base = none then none else constant? (b.ancestorConstants t) name).or
        (constant? t.body.constants name) := by
  obtain ⟨_, _, _, _, sparts⟩ := shapeOf_eq_ok hs
  obtain ⟨_, _, _, _, tparts⟩ := shapeOf_eq_ok ht
  have hne : [e.qualified].contains base.qualified = false := by simpa using qualified_ne_of_shapeOf hs hbase
  rw [ancestorConstants, sparts.entry, chainConstants_eq, hbase, constantsFrom, hne, if_neg Bool.false_ne_true,
    constant?_append, ownConstants_eq ht]
  congr 1
  cases hplain : b.plainBase? base with
  | none => rw [constantsFrom_none, if_pos rfl]; rfl
  | some x =>
    have hx : ∀ y, some x = some y → b.table.lookup y.qualified = some y := by
      intro y hy
      obtain rfl := Option.some.inj hy
      exact lookup_of_plainBase? hplain
    -- this walk has one step less to go than the one for the base, and has seen the type itself
    rw [if_neg (Option.some_ne_none x), ancestorConstants, tparts.entry, chainConstants_eq,
      base_of_plainBase? ht hplain, constantsFrom_fuel hfound hx (length_filter_le ..)]
    refine constant?_constantsFrom he (fun y hy => ?_) (ownConstants_eq hs ▸ hname) (fun q => ?_)
      (mem_singleton_self _) hx
    · exact Option.some.inj ((base_of_plainBase? hs hy).symm.trans hbase)
    · simp

/-- The base of the type is found again, and the type gives the name another value than the first of its bases that
declares it. -/
def Overrides (b : Binder) (s : Shape) (name : String) : Prop :=
  b.plainBase? s.entry ≠ none ∧ ∃ c, constant? s.body.constants name = some c ∧
    ∃ a, constant? (b.ancestorConstants s) name = some a ∧ a.value ≠ c.value

/-- The base of the type is not found again, and only the bases of the type declare the name. -/
def Misses (b : Binder) (s : Shape) (name : String) : Prop :=
  b.plainBase? s.entry = none ∧ constant? s.body.constants name = none ∧
    constant? (b.ancestorConstants s) name ≠ none

/-- For a name that it does not declare, a container shows what its base shows unless the base overrides or misses
the name. -/
theorem valueOf?_eq_iff (hfound : ∀ q e, b.table.lookup q = some e → e ∈ b.table.entries)
    (he : b.table.lookup e.qualified = some e) (hs : b.shapeOf codesName e = .ok s)
    (ht : b.shapeOf codesName base = .ok t) (hscodes : s.errorCodes = true) (htcodes : t.errorCodes = true)
    (hbase : s.base?.bind (·.declared?) = some base) (hname : constant? s.body.constants name = none) :
    s.valueOf? name = t.valueOf? name ↔ ¬b.Overrides t name ∧ ¬b.Misses t name := by
  obtain ⟨_, _, _, _, tparts⟩ := shapeOf_eq_ok ht
  have hvalue : ∀ c, constant? (b.shown t) name = some c → c.value ≠ none := fun c => value_ne_none_of_shown ht
  rw [constant?_shown htcodes] at hvalue
  rw [valueOf?_eq hs, valueOf?_eq ht, constant?_shown hscodes, constant?_shown htcodes, hname, Option.none_or,
    constant?_ancestorConstants hfound he hs ht hbase hname, Overrides, Misses, tparts.entry]
  cases hown : constant? t.body.constants name with
  | none =>
    cases hancestor : constant? (b.ancestorConstants t) name with
    | none => simp
    | some a =>
      have ha := hvalue a (by rw [hown, hancestor, Option.none_or])
      by_cases hplain : b.plainBase? base = none
      · simp [hplain, Ne.symm ha]
      · simp [hplain]
  | some c =>
    cases constant? (b.ancestorConstants t) name with
    | none => simp
    | some a =>
      by_cases hplain : b.plainBase? base = none
      · simp [hplain]
      · simp [hplain]

private theorem not_misses_of_params (ht : b.shapeOf codesName base = .ok t)
    (hparams : (Scope.inside base).params = []) (name : String) : ¬b.Misses t name := by
  rintro ⟨hplain, _, hancestor⟩
  obtain ⟨_, _, _, _, tparts⟩ := shapeOf_eq_ok ht
  rw [tparts.entry, plainBase?_of_params ht hparams] at hplain
  refine hancestor ?_
  rw [ancestorConstants, chainConstants_eq, hplain, constantsFrom_none]
  rfl

/-- A container of error codes shows every name once and its own values.  Of the other names it shows what its base
shows, except for those that the base overrides or misses; only a base with type parameters misses any. -/
theorem inherits_shown_iff (targets : Typing.Targets) (overrides : List (String × String)) (policy : Naming.Policy)
    (program : Program) (b : Binder) (hb : Binder.build targets overrides policy program = .ok b)
    (codesName : String) (e base : Entry) (s t : Shape) (he : b.table.lookup e.qualified = some e)
    (hs : b.shapeOf codesName e = .ok s) (ht : b.shapeOf codesName base = .ok t)
    (hscodes : s.errorCodes = true) (htcodes : t.errorCodes = true) (hbase : s.base?.bind (·.declared?) = some base) :
    (s.constants.map (·.name)).Nodup ∧ (∀ c ∈ s.body.constants, s.valueOf? c.name = c.value) ∧
      (∀ name, constant? s.body.constants name = none →
        (s.valueOf? name = t.valueOf? name ↔ ¬b.Overrides t name ∧ ¬b.Misses t name)) ∧
      ((Scope.inside base).params = [] → ∀ name, ¬b.Misses t name) := by
  have hfound : ∀ q e, b.table.lookup q = some e → e ∈ b.table.entries := fun q e hq =>
    Table.mem_entries_of_lookup (build_eq_ok.1 hb).2 hq
  exact ⟨nodup_constants hs, fun c hc => valueOf?_own hs hscodes hc,
    fun name hname => valueOf?_eq_iff hfound he hs ht hscodes htcodes hbase hname, not_misses_of_params ht⟩

end Binder

/-- The container of error codes in a type of the namespace `App`. -/
def codesIn (outer : String) (baseTypes : List (Option TypeRef)) (constants : List (String × Int)) :
    Declaration :=
  .type { ns := "App", name := outer } {}
    [.type { name := "ErrorCodes" }
      { baseTypes, constants := constants.map fun c => { name := c.1, value := some (.int c.2) } } []]

/-- Three containers of error codes, each of which extends the one before; the second has another value for a code of
the first. -/
def desk : Program :=
  { name := "Desk"
    declarations :=
      [codesIn "Open" [] [("Closed", 1)],
        codesIn "Edit" [some (.mk { name := "Open.ErrorCodes" } [])] [("Closed", 2), ("Locked", 3)],
        codesIn "Send" [some (.mk { name := "Edit.ErrorCodes" } [])] [("Sent", 4)]] }

private theorem shapes_desk :
    ∃ b e base s t, Binder.build Emit.Dart.targets [] Emit.Dart.policy desk = .ok b ∧
      b.table.lookup e.qualified = some e ∧ b.shapeOf "ErrorCodes" e = .ok s ∧ b.shapeOf "ErrorCodes" base = .ok t ∧
      s.errorCodes = true ∧ t.errorCodes = true ∧ s.base?.bind (·.declared?) = some base ∧
      (Scope.inside base).params = [] ∧ s.body.constants.map (·.name) = ["Sent"] ∧
      ["Closed", "Locked", "Sent"].map s.valueOf? = [some (.int 1), some (.int 3), some (.int 4)] ∧
      ["Closed", "Locked", "Sent"].map t.valueOf? = [some (.int 2), some (.int 3), none] := by
  have hshapes : ((Binder.build Emit.Dart.targets [] Emit.Dart.policy desk).toOption.map fun b =>
      (b.table.lookup "App.Send.ErrorCodes").map fun e => (b.shapeOf "ErrorCodes" e).toOption.map fun s =>
        (s.base?.bind (·.declared?)).map fun base => (b.shapeOf "ErrorCodes" base).toOption.map fun t =>
          s.errorCodes && t.errorCodes && (Scope.inside base).params.isEmpty &&
            s.body.constants.map (·.name) == ["Sent"] &&
            ["Closed", "Locked", "Sent"].map s.valueOf? == [some (.int 1), some (.int 3), some (.int 4)] &&
            ["Closed", "Locked", "Sent"].map t.valueOf? == [some (.int 2), some (.int 3), none]) =
      some (some (some (some (some true)))) := by
    decide +kernel
  obtain ⟨b, hb, h⟩ := toOption_map_eq_some.1 hshapes
  obtain ⟨e, he, h⟩ := Option.map_eq_some_iff.1 h
  obtain ⟨s, hs, h⟩ := toOption_map_eq_some.1 h
  obtain ⟨base, hbase, h⟩ := Option.map_eq_some_iff.1 h
  obtain ⟨t, ht, h⟩ := toOption_map_eq_some.1 h
  simp only [Bool.and_eq_true, List.isEmpty_iff, beq_iff_eq] at h
  obtain ⟨⟨⟨⟨⟨hscodes, htcodes⟩, hparams⟩, hown⟩, hsvalues⟩, htvalues⟩ := h
  exact ⟨b, e, base, s, t, hb, Binder.lookup_qualified he, hs, ht, hscodes, htcodes, hbase, hparams, hown, hsvalues,
    htvalues⟩

/-- The third container shows the first value of a code that the second one overrides. -/
theorem Binder.inherits_shown_iff_desk :
    ∃ b e base s t, Binder.build Emit.Dart.targets [] Emit.Dart.policy desk = .ok b ∧
      b.shapeOf "ErrorCodes" e = .ok s ∧ b.shapeOf "ErrorCodes" base = .ok t ∧
      s.base?.bind (·.declared?) = some base ∧ (s.constants.map (·.name)).Nodup ∧
      (∀ c ∈ s.body.constants, s.valueOf? c.name = c.value) ∧
      b.Overrides t "Closed" ∧ ¬b.Overrides t "Locked" ∧ ∀ name, ¬b.Misses t name := by
  obtain ⟨b, e, base, s, t, hb, he, hs, ht, hscodes, htcodes, hbase, hparams, hown, hsvalues, htvalues⟩ := shapes_desk
  obtain ⟨hnodup, hvalues, hiff, hmisses⟩ :=
    inherits_shown_iff _ _ _ desk b hb "ErrorCodes" e base s t he hs ht hscodes htcodes hbase
  simp only [map_cons, map_nil, cons.injEq, and_true] at hsvalues htvalues
  have hclosed := hiff "Closed" (constant?_eq_none.2 (by rw [hown]; decide))
  have hlocked := hiff "Locked" (constant?_eq_none.2 (by rw [hown]; decide))
  rw [hsvalues.1, htvalues.1] at hclosed
  rw [hsvalues.2.1, htvalues.2.1] at hlocked
  refine ⟨b, e, base, s, t, hb, hs, ht, hbase, hnodup, hvalues, ?_, (hlocked.1 rfl).1, hmisses hparams⟩
  by_contra hkept
  exact absurd (hclosed.2 ⟨hkept, hmisses hparams "Closed"⟩) (by decide)

/-- The last container shows the first value of a code that it does not declare, and not the one that its base
shows. -/
theorem overridden_code_lost :
    ∃ b e base s t, Binder.build Emit.Dart.targets [] Emit.Dart.policy desk = .ok b ∧
      b.table.lookup e.qualified = some e ∧ b.shapeOf "ErrorCodes" e = .ok s ∧ b.shapeOf "ErrorCodes" base = .ok t ∧
      s.errorCodes = true ∧ t.errorCodes = true ∧ s.base?.bind (·.declared?) = some base ∧
      constant? s.body.constants "Closed" = none ∧ t.valueOf? "Closed" = some (.int 2) ∧
      s.valueOf? "Closed" = some (.int 1) := by
  obtain ⟨b, e, base, s, t, hb, he, hs, ht, hscodes, htcodes, hbase, _, hown, hsvalues, htvalues⟩ := shapes_desk
  simp only [map_cons, map_nil, cons.injEq, and_true] at hsvalues htvalues
  exact ⟨b, e, base, s, t, hb, he, hs, ht, hscodes, htcodes, hbase, constant?_eq_none.2 (by rw [hown]; decide),
    htvalues.1, hsvalues.1⟩

end Covenant.Binding
