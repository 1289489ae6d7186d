import Covenant.Extract.Program
import Covenant.Proofs.Outcome
import Mathlib.Logic.Relation
import Mathlib.Order.Preorder.Finite
import Mathlib.Order.WellFounded

/-!
# Conversions that end

`Site.convert` takes a type apart as `Site.plan` says.  `Site.Calls` is one step of it: from a type to the one it
stands for, or to a part of it that is come to, since the parts before it have references.  A conversion ends exactly
for the types from which no endless chain of calls starts.  Where finitely many types can be come to, such a chain
leads back to a type it has passed.
-/

namespace Covenant.Extract

open Contract Source Relation
open List

namespace Extraction

variable {α β : Type} {a : α} {b : β} {x : Extraction α} {f : α → Extraction β}

/-- The work ends with a value. -/
def Gives (x : Extraction α) (a : α) : Prop := x.run = some (.ok a)

/-- The work ends, with a value or a failure. -/
def Ends (x : Extraction α) : Prop := x.run.isSome = true

theorem Gives.ends (h : x.Gives a) : x.Ends := by rw [Ends, h, Option.isSome_some]

@[simp] theorem gives_pure {c : α} : Gives (pure a) c ↔ a = c := by
  simp [Gives, pure, ExceptT.pure, ExceptT.mk, ExceptT.run]

@[simp] theorem ends_pure : Ends (pure a) := rfl

@[simp] theorem gives_throw {e : Failure} : ¬Gives (throw e) a := by
  intro h
  cases h

@[simp] theorem ends_throw {e : Failure} : Ends (throw e : Extraction α) := rfl

theorem gives_bind : Gives (x >>= f) b ↔ ∃ a, x.Gives a ∧ (f a).Gives b := by
  simp only [Gives, ExceptT.run_bind, Option.bind_eq_bind, Option.bind_eq_some_iff]
  constructor
  · rintro ⟨r, hx, hf⟩
    cases r with
    | ok a => exact ⟨a, hx, hf⟩
    | error e => cases hf
  · rintro ⟨a, hx, hf⟩
    exact ⟨.ok a, hx, hf⟩

private theorem ends_bind : Ends (x >>= f) ↔ x.Ends ∧ ∀ a, x.Gives a → (f a).Ends := by
  simp only [Ends, Gives, ExceptT.run_bind, Option.bind_eq_bind]
  rcases x.run with _ | (e | a)
  · simp
  · exact iff_of_true rfl ⟨rfl, fun a ha => by cases ha⟩
  · exact ⟨fun h => ⟨rfl, fun c hc => by cases hc; exact h⟩, fun h => h.2 a rfl⟩

theorem Ends.bind (hx : x.Ends) (hf : ∀ a, x.Gives a → (f a).Ends) : Ends (x >>= f) := ends_bind.2 ⟨hx, hf⟩

@[simp] theorem gives_map {g : α → β} : Gives (g <$> x) b ↔ ∃ a, x.Gives a ∧ g a = b := by
  rw [map_eq_pure_bind, gives_bind]
  simp only [gives_pure]

@[simp] theorem ends_map {g : α → β} : Ends (g <$> x) ↔ x.Ends := by
  rw [map_eq_pure_bind, ends_bind]
  simp only [ends_pure, implies_true, and_true]

private theorem run_adapt (x : Extraction α) (g : Failure → Failure) :
    (x.adapt g).run = x.run.map (Except.mapError g) := rfl

@[simp] theorem gives_adapt {g : Failure → Failure} : Gives (x.adapt g) a ↔ x.Gives a := by
  simp only [Gives, run_adapt, Option.map_eq_some_iff, Outcome.mapError_eq_ok, exists_eq_right]

@[simp] theorem ends_adapt {g : Failure → Failure} : Ends (x.adapt g) ↔ x.Ends := by
  rw [Ends, run_adapt, Option.isSome_map, Ends]

@[simp] theorem gives_within {context : String} : (x.within context).Gives a ↔ x.Gives a := gives_adapt

@[simp] theorem ends_within {context : String} : (x.within context).Ends ↔ x.Ends := ends_adapt

@[simp] theorem gives_ofExcept {r : Except Failure α} : Gives (ofExcept r) a ↔ r = .ok a := by
  cases r with
  | ok c => exact gives_pure.trans (by simp)
  | error e => exact iff_of_false gives_throw (by simp)

@[simp] theorem ends_ofExcept {r : Except Failure α} : Ends (ofExcept r : Extraction α) := by cases r <;> rfl

theorem gives_mapM {as : List α} {bs : List β} :
    (as.mapM f).Gives bs ↔ Forall₂ (fun a b => (f a).Gives b) as bs := by
  induction as generalizing bs with
  | nil => rw [mapM_nil, gives_pure, forall₂_nil_left_iff, eq_comm]
  | cons a as ih =>
    rw [mapM_cons, forall₂_cons_left_iff]
    simp only [gives_bind, gives_pure, ih]
    constructor
    · rintro ⟨b, hb, bs', hbs, rfl⟩
      exact ⟨b, bs', hb, hbs, rfl⟩
    · rintro ⟨b, bs', hb, hbs, rfl⟩
      exact ⟨b, hb, bs', hbs, rfl⟩

private theorem Ends.mapM {as : List α} (h : ∀ before a after, as = before ++ a :: after →
      (∀ c ∈ before, ∃ b, (f c).Gives b) → (f a).Ends) : (as.mapM f).Ends := by
  induction as with
  | nil => exact ends_pure
  | cons a as ih =>
    rw [mapM_cons]
    refine (h [] a as rfl (by simp)).bind fun b hb =>
      .bind (ih fun before c after heq hbefore => ?_) fun _ _ => ends_pure
    exact h (a :: before) c after (congrArg (a :: ·) heq) (forall_mem_cons.2 ⟨⟨b, hb⟩, hbefore⟩)

end Extraction

open Extraction

def typeName (p : Package) (name : String) : TypeName := { home := some p.path, name }

/-- A type that becomes a declaration of its own if it is a record or an enumeration: exported, no alias, and no
holder of error codes. -/
structure IsOwn (p : Package) (spec : TypeSpec) (d : Directives) : Prop where
  directives : ∃ all, p.directives = .ok all ∧ (spec, d) ∈ candidates p all
  noCodes : d.errorsOf = none

/-- The other reference is this one, or inside of one of its arguments. -/
inductive Holds : TypeRef → TypeRef → Prop
  | refl (r : TypeRef) : Holds r r
  | argument {head : RefHead} {arguments : List (Option TypeRef)} {a q : TypeRef} (ha : some a ∈ arguments)
      (h : Holds a q) : Holds (.mk head arguments) q

theorem Holds.cases_mk {head : RefHead} {arguments : List (Option TypeRef)} {q : TypeRef}
    (h : Holds (.mk head arguments) q) : q = .mk head arguments ∨ ∃ a, some a ∈ arguments ∧ Holds a q := by
  cases h with
  | refl => exact .inl rfl
  | argument ha h => exact .inr ⟨_, ha, h⟩

namespace Site

variable {s : Site} {t u : SourceType}

/-- Converting one type comes to the other: it is what the type stands for, or a part of it after parts that have
references. -/
inductive Calls (s : Site) (t : SourceType) : SourceType → Prop
  | follow {u : SourceType} {build : TypeRef → TypeRef} (hplan : s.plan t = .follow u build) : Calls s t u
  | part {head : RefHead} {before after : List Part} {part : Part}
      (hplan : s.plan t = .compose head (before ++ part :: after))
      (hbefore : ∀ q ∈ before, ∃ r, (s.ref q.type).Gives r) : Calls s t part.type

/-- An endless chain of calls starts at the type. -/
def Endless (s : Site) (t : SourceType) : Prop :=
  ∃ chain : Nat → SourceType, chain 0 = t ∧ ∀ n, s.Calls (chain n) (chain (n + 1))

variable {part : Part} {p : Package} {result : Except Failure TypeRef} {parts : List Part}

def piece (s : Site) (part : Part) : Extraction TypeRef := (s.ref part.type).adapt part.blame

private theorem convertAll_eq_mapM (parts : List Part) : s.convertAll parts = (parts.mapM s.piece).run := by
  induction parts with
  | nil => rw [convertAll, mapM_nil]; rfl
  | cons part parts ih =>
    have hpiece : s.piece part = ExceptT.adapt part.blame (s.convert part.type) := rfl
    rw [convertAll, ih, mapM_cons, hpiece]
    generalize s.convert part.type = x, parts.mapM s.piece = y
    rcases x with _ | (_ | _) <;> rcases y with _ | (_ | _) <;> rfl

theorem ref_of_answer (h : s.plan t = .answer result) : (s.ref t).run = some result := by
  change s.convert t = _
  rw [convert, h]

theorem ref_of_follow {build : TypeRef → TypeRef} (h : s.plan t = .follow u build) : s.ref t = build <$> s.ref u := by
  unfold ref
  rw [convert, h]
  dsimp only
  rcases s.convert u with _ | (_ | _) <;> rfl

/-- A reference is put together from what its parts become. -/
theorem ref_of_compose {head : RefHead} (h : s.plan t = .compose head parts) :
    s.ref t = (fun refs => .mk head (refs.map some)) <$> parts.mapM s.piece := by
  unfold ref
  rw [convert, h]
  dsimp only
  rw [convertAll_eq_mapM]
  rcases parts.mapM s.piece with _ | (_ | _) <;> rfl

theorem gives_pieces {refs : List TypeRef} :
    (parts.mapM s.piece).Gives refs ↔ Forall₂ (fun part r => (s.ref part.type).Gives r) parts refs := by
  simp only [gives_mapM, piece, gives_adapt]

private theorem ends_of_calls (h : ∀ u, s.Calls t u → (s.ref u).Ends) : (s.ref t).Ends := by
  rcases hplan : s.plan t with result | ⟨u, build⟩ | ⟨head, parts⟩
  · rw [Ends, ref_of_answer hplan, Option.isSome_some]
  · rw [ref_of_follow hplan, ends_map]
    exact h u (.follow hplan)
  · rw [ref_of_compose hplan, ends_map]
    refine .mapM fun before part after hparts hbefore => ends_adapt.2 (h part.type (.part (hparts ▸ hplan) ?_))
    simpa only [piece, gives_adapt] using hbefore

/-- No endless chain of calls starts at the type. -/
abbrev Grounded (s : Site) (t : SourceType) : Prop := Acc (fun u t => s.Calls t u) t

private theorem grounded_of_answer (h : s.plan t = .answer result) : s.Grounded t := by
  refine .intro t fun u hu => ?_
  cases hu with
  | follow hplan => cases hplan.symm.trans h
  | part hplan _ => cases hplan.symm.trans h

private theorem grounded_of_follow {build : TypeRef → TypeRef} (h : s.plan t = .follow u build) (hu : s.Grounded u) :
    s.Grounded t := by
  refine .intro t fun v hv => ?_
  cases hv with
  | follow hplan =>
    cases hplan.symm.trans h
    exact hu
  | part hplan _ => cases hplan.symm.trans h

def PartsGrounded (s : Site) (parts : List Part) : Prop :=
  ∀ before part after, parts = before ++ part :: after → (∀ q ∈ before, ∃ r, (s.ref q.type).Gives r) →
    s.Grounded part.type

private theorem grounded_of_compose {head : RefHead} (h : s.plan t = .compose head parts)
    (hparts : s.PartsGrounded parts) : s.Grounded t := by
  refine .intro t fun v hv => ?_
  cases hv with
  | follow hplan => cases hplan.symm.trans h
  | part hplan hbefore =>
    cases hplan.symm.trans h
    exact hparts _ _ _ rfl hbefore

private theorem partsGrounded_cons (hpart : s.Grounded part.type)
    (hparts : (∃ r, (s.ref part.type).Gives r) → s.PartsGrounded parts) : s.PartsGrounded (part :: parts) := by
  intro before q after heq hbefore
  cases before with
  | nil =>
    cases heq
    exact hpart
  | cons _ before =>
    cases heq
    exact hparts (hbefore part (.head _)) before q after rfl fun r hr => hbefore r (.tail _ hr)

private theorem grounded_of_convert (h : s.convert t = some result) : s.Grounded t := by
  -- the approximations of the conversion are right where they are defined, and defined only for what is grounded
  refine (convert.partial_correctness s (fun t result => s.convert t = some result ∧ s.Grounded t)
    (fun parts result => s.convertAll parts = some result ∧ s.PartsGrounded parts) ?type ?parts t result h).2
  case type =>
    intro convert convertAll hconvert hconvertAll t result h
    rw [Site.convert]
    rcases hplan : s.plan t with answer | ⟨u, build⟩ | ⟨head, parts⟩ <;> rw [hplan] at h
    · exact ⟨h, grounded_of_answer hplan⟩
    · obtain ⟨r, hr, hresult⟩ := Option.bind_eq_some_iff.1 h
      obtain ⟨hu, hgrounded⟩ := hconvert u r hr
      exact ⟨Option.bind_eq_some_iff.2 ⟨r, hu, hresult⟩, grounded_of_follow hplan hgrounded⟩
    · obtain ⟨r, hr, hresult⟩ := Option.bind_eq_some_iff.1 h
      obtain ⟨hu, hgrounded⟩ := hconvertAll parts r hr
      exact ⟨Option.bind_eq_some_iff.2 ⟨r, hu, hresult⟩, grounded_of_compose hplan hgrounded⟩
  case parts =>
    intro convert convertAll hconvert hconvertAll parts result h
    rw [Site.convertAll.eq_def]
    cases parts with
    | nil => exact ⟨h, fun before _ _ heq => by simp at heq⟩
    | cons part parts =>
      obtain ⟨r, hr, hresult⟩ := Option.bind_eq_some_iff.1 h
      obtain ⟨hpart, hgrounded⟩ := hconvert part.type r hr
      cases r with
      | error e =>
        refine ⟨Option.bind_eq_some_iff.2 ⟨_, hpart, hresult⟩, partsGrounded_cons hgrounded ?_⟩
        rintro ⟨r, hr⟩
        cases hr.symm.trans hpart
      | ok r =>
        obtain ⟨rs, hrs, hrest⟩ := Option.bind_eq_some_iff.1 hresult
        obtain ⟨hparts, hall⟩ := hconvertAll parts rs hrs
        refine ⟨Option.bind_eq_some_iff.2 ⟨_, hpart, ?_⟩, partsGrounded_cons hgrounded fun _ => hall⟩
        exact Option.bind_eq_some_iff.2 ⟨rs, hparts, hrest⟩

/-- A conversion ends just if no endless chain of calls starts at the type. -/
theorem ends_iff_grounded : (s.ref t).Ends ↔ s.Grounded t := by
  constructor
  · intro h
    obtain ⟨result, hresult⟩ := Option.isSome_iff_exists.1 h
    exact grounded_of_convert hresult
  · intro h
    induction h with
    | intro t _ ih => exact ends_of_calls ih

private theorem ends_iff_not_endless : (s.ref t).Ends ↔ ¬s.Endless t := by
  rw [ends_iff_grounded, ← not_iff_not, not_not, not_acc_iff_exists_descending_chain]
  rfl

private theorem Grounded.of_reach (h : s.Grounded t) (htu : ReflTransGen s.Calls t u) : s.Grounded u := by
  induction htu with
  | refl => exact h
  | tail _ hcall ih => exact ih.inv hcall

private theorem Grounded.not_cycle (h : s.Grounded t) : ¬TransGen s.Calls t t := by
  induction h with
  | intro t _ ih =>
    intro hcycle
    obtain ⟨u, htu, hut⟩ := TransGen.head'_iff.1 hcycle
    exact ih u htu (TransGen.tail' hut htu)

private theorem ends_iff_of_finite (hfinite : {u | ReflTransGen s.Calls t u}.Finite) :
    (s.ref t).Ends ↔ ∀ u, ReflTransGen s.Calls t u → ¬TransGen s.Calls u u := by
  constructor
  · intro h u htu
    exact ((ends_iff_grounded.1 h).of_reach htu).not_cycle
  · rw [ends_iff_not_endless]
    rintro h ⟨chain, rfl, hchain⟩
    have hreach (n k : Nat) : ReflTransGen s.Calls (chain n) (chain (n + k)) := by
      induction k with
      | zero => exact .refl
      | succ k ih => exact ih.tail (hchain (n + k))
    have hfrom (n : Nat) : ReflTransGen s.Calls (chain 0) (chain n) := by simpa using hreach 0 n
    obtain ⟨i, j, hij, heq⟩ := Set.Finite.exists_lt_map_eq_of_forall_mem hfrom hfinite
    have hback : ReflTransGen s.Calls (chain (i + 1)) (chain i) := by
      rw [heq, show j = i + 1 + (j - (i + 1)) by omega]
      exact hreach (i + 1) _
    exact h (chain i) (hfrom i) (.head' (hchain i) hback)

/-- The types behind a base or a term of a constraint: the arguments of an interface, which keeps its name, or else
the type itself. -/
def behind (s : Site) (t : SourceType) : List SourceType :=
  match s.world.unalias t with
  | .named name arguments =>
    if s.world.isInterface (.named name arguments) then arguments else [.named name arguments]
  | _ => []

/-- A type of a package that becomes a type of the program, with its fields. -/
structure HasRecord (s : Site) (p : Package) (spec : TypeSpec) (d : Directives)
    (fields : List (FieldHead × SourceType)) :
    Prop where
  own : IsOwn p spec d
  record : s.world.underlying (.named (typeName p spec.name) []) = .record fields

/-- The types that are converted for a field: those behind a base, or the type of an exported field. -/
def fieldTypes (s : Site) : FieldHead × SourceType → List SourceType
  | (head, t) =>
    match wireName head.tag with
    | .hidden => []
    | .shown _ => if head.isEmbedded then s.behind (pointee t) else if isExported head.name then [t] else []

def resultTypes (s : Site) (p : Package) (d : Directives) : List SourceType :=
  if d.kind.hasResult then (s.world.evaluate p d.result).toOption.join.toList else []

/-- The types that are converted for a record: behind the terms of constraints, for fields, and for the result. -/
def bodyTypes (s : Site) (p : Package) (spec : TypeSpec) (fields : List (FieldHead × SourceType)) (d : Directives) :
    List SourceType :=
  (spec.params.flatMap fun param => (terms s.world param.constraint).flatMap s.behind) ++
    (fields.flatMap s.fieldTypes ++ s.resultTypes p d)

/-- The type is converted to extract the package. -/
def Converts (s : Site) (p : Package) (t : SourceType) : Prop :=
  ∃ spec d fields, s.HasRecord p spec d fields ∧ t ∈ s.bodyTypes p spec fields d

/-- The work converts no types but those of the list: it ends if they do, and refers, with a namespace, only to what
their references hold. -/
structure Reads {α : Type} (s : Site) (x : Extraction α) (types : List SourceType)
    (refs : α → List (Option TypeRef)) : Prop where
  ends (h : ∀ u ∈ types, (s.ref u).Ends) : x.Ends
  origin {a : α} {r q : TypeRef} (h : x.Gives a) (hr : some r ∈ refs a) (hq : Holds r q) (hns : q.head.ns ≠ "") :
    ∃ u ∈ types, ∃ r', (s.ref u).Gives r' ∧ Holds r' q

section Reads

variable {α β : Type} {x : Extraction α} {types : List SourceType} {refs : α → List (Option TypeRef)} {a : α}
  {d : Directives} {fields : List (FieldHead × SourceType)}

private theorem reads_pure (h : refs a = []) : s.Reads (pure a) types refs := by
  refine ⟨fun _ => ends_pure, fun ha hr _ _ => ?_⟩
  cases gives_pure.1 ha
  rw [h] at hr
  cases hr

private theorem reads_throw {e : Failure} : s.Reads (throw e) types refs :=
  ⟨fun _ => ends_throw, fun h _ _ _ => absurd h gives_throw⟩

private theorem reads_ref : s.Reads (s.ref t) [t] fun r => [some r] := by
  refine ⟨fun h => h t (.head _), fun {r} _ q h hr hq _ => ?_⟩
  cases mem_singleton.1 hr
  exact ⟨t, .head _, r, h, hq⟩

theorem Reads.within (h : s.Reads x types refs) (context : String) : s.Reads (x.within context) types refs :=
  ⟨fun hends => ends_within.2 (h.ends hends), fun ha => h.origin (gives_within.1 ha)⟩

private theorem Reads.bind_pure {g : α → β} {refs' : β → List (Option TypeRef)} (h : s.Reads x types refs)
    (hrefs : ∀ a, refs' (g a) = refs a) : s.Reads (x >>= fun a => pure (g a)) types refs' := by
  refine ⟨fun hends => (h.ends hends).bind fun _ _ => ends_pure, fun hb hr => ?_⟩
  obtain ⟨a, ha, hb⟩ := gives_bind.1 hb
  cases gives_pure.1 hb
  exact h.origin ha (hrefs a ▸ hr)

private theorem Reads.mapM {f : β → Extraction α} {types : β → List SourceType}
    (h : ∀ b, s.Reads (f b) (types b) refs)
    (bs : List β) : s.Reads (bs.mapM f) (bs.flatMap types) (·.flatMap refs) := by
  refine ⟨fun hends => .mapM fun before b after heq _ => (h b).ends fun u hu => hends u ?_, ?_⟩
  · exact mem_flatMap.2 ⟨b, heq ▸ mem_append_right _ (.head _), hu⟩
  intro as r q has hr hq hns
  obtain ⟨a, ha, hr⟩ := mem_flatMap.1 hr
  obtain ⟨b, hb, hgives⟩ := Outcome.exists_of_mem_right (gives_mapM.1 has) ha
  obtain ⟨u, hu, hsource⟩ := (h b).origin hgives hr hq hns
  exact ⟨u, mem_flatMap.2 ⟨b, hb, hu⟩, hsource⟩

private theorem reads_marker (name : TypeName) (arguments : List SourceType) :
    s.Reads (s.marker name arguments) arguments fun r => [some r] := by
  have hall := Reads.mapM (fun t => reads_ref (s := s) (t := t)) arguments
  rw [flatMap_singleton'] at hall
  refine ⟨fun hends => (hall.ends hends).bind fun _ _ => ends_pure, fun h hr hq hns => ?_⟩
  obtain ⟨made, hmade, h⟩ := gives_bind.1 h
  cases gives_pure.1 h
  cases mem_singleton.1 hr
  -- the interface itself keeps its name without a namespace
  rcases hq.cases_mk with rfl | ⟨r, hr, hq⟩
  · exact absurd rfl hns
  · exact hall.origin hmade (by simpa using hr) hq hns

private theorem reads_base {otherwise : String → TypeDefect} :
    s.Reads (s.base otherwise t) (s.behind t) fun r => [some r] := by
  unfold base
  split
  next name arguments hname =>
    simp only [behind, hname]
    split
    next => exact reads_marker name arguments
    next => exact reads_ref
  next => exact reads_throw

def paramRefs (param : Option TypeParameter) : List (Option TypeRef) := param.elim [] (·.constraints)

def fieldRef (field : Option Field) : Option TypeRef := field.bind (·.type)

/-- What a type refers to: in constraints, as base types, in fields and as its result. -/
def refsOf (body : TypeBody) : List (Option TypeRef) :=
  body.typeParameters.flatMap paramRefs ++ (body.baseTypes ++ body.fields.map fieldRef ++ [body.result])

private theorem reads_typeParameter (param : TypeParam) :
    s.Reads (s.typeParameter param) ((terms s.world param.constraint).flatMap s.behind) paramRefs :=
  ((Reads.mapM (fun _ => reads_base) _).within _).bind_pure fun made => by simp [paramRefs, map_eq_flatMap]

private theorem reads_member (field : FieldHead × SourceType) :
    s.Reads (s.member field) (s.fieldTypes field) fun m => m.1 ++ m.2.map fieldRef := by
  obtain ⟨head, t⟩ := field
  simp only [member, fieldTypes]
  cases wireName head.tag with
  | hidden => exact reads_pure rfl
  | shown wire =>
    dsimp only
    split
    next => exact Reads.bind_pure (reads_base.within _) (by intro; rfl)
    next =>
      split
      next => exact Reads.bind_pure (reads_ref.within _) (by intro; rfl)
      next => exact reads_pure rfl

private theorem reads_result : s.Reads (s.result p d) (s.resultTypes p d) fun r => r.toList.map some := by
  unfold result
  split
  next => exact reads_pure rfl
  next hkind =>
    split
    next => exact reads_throw
    next =>
      split
      next => exact reads_throw
      next => exact reads_throw
      next t ht =>
        have htypes : s.resultTypes p d = [t] := by
          rw [resultTypes, if_pos (by simpa using hkind), ht]
          rfl
        rw [htypes]
        exact Reads.bind_pure (reads_ref.within _) (by intro; rfl)

/-- What is converted for a record. -/
theorem reads_typeBody {spec : TypeSpec} :
    s.Reads (s.typeBody p spec fields d) (s.bodyTypes p spec fields d) refsOf := by
  have hparams := Reads.mapM (s := s) reads_typeParameter spec.params
  have hmembers := Reads.mapM (s := s) reads_member fields
  refine ⟨fun h => ?_, fun h hr hq hns => ?_⟩
  · simp only [bodyTypes, forall_mem_append] at h
    refine (hparams.ends h.1).bind fun _ _ => (hmembers.ends h.2.1).bind fun _ _ => ?_
    exact (reads_result.ends h.2.2).bind fun _ _ => ends_pure
  · unfold typeBody at h
    obtain ⟨params, hgiven, h⟩ := gives_bind.1 h
    obtain ⟨members, hmade, h⟩ := gives_bind.1 h
    obtain ⟨result, hresult, h⟩ := gives_bind.1 h
    cases gives_pure.1 h
    simp only [bodyTypes, mem_append, or_and_right, exists_or]
    simp only [refsOf, mem_append] at hr
    rcases hr with hr | hr | hr
    · exact .inl (hparams.origin hgiven hr hq hns)
    · refine .inr (.inl (hmembers.origin hmade ?_ hq hns))
      simp only [mem_map, mem_flatMap] at hr ⊢
      rcases hr with ⟨m, hm, hr⟩ | ⟨field, ⟨m, hm, hfield⟩, hr⟩
      · exact ⟨m, hm, mem_append_left _ hr⟩
      · exact ⟨m, hm, mem_append_right _ (mem_map.2 ⟨field, hfield, hr⟩)⟩
    · exact .inr (.inr (reads_result.origin hresult (by simpa [eq_comm] using hr) hq hns))

end Reads

private theorem ends_declaration {spec : TypeSpec} {d : Directives} (hown : IsOwn p spec d)
    (h : ∀ t, s.Converts p t → (s.ref t).Ends) : (declaration? s p spec d).Ends := by
  unfold declaration?
  dsimp only
  split
  next fields hfields =>
    refine (ends_within.2 (reads_typeBody.ends fun u hu => ?_)).bind fun _ _ => ends_pure
    exact h u ⟨spec, d, fields, ⟨hown, hfields⟩, hu⟩
  next =>
    split
    next => exact ends_pure
    next =>
      split
      next => exact ends_throw
      next => exact ends_pure
  next => exact ends_pure

private theorem ends_program (h : ∀ t, s.Converts p t → (s.ref t).Ends) : (program s.world p s.options).Ends := by
  unfold program
  refine ends_ofExcept.bind fun all hall => ?_
  rw [gives_ofExcept, Outcome.mapError_eq_ok] at hall
  refine (Ends.mapM fun before c after heq _ => ?_).bind fun _ _ => ?_
  · obtain ⟨hspec, hcodes⟩ := mem_filter.1 (heq ▸ mem_append_right _ (.head _))
    exact (ends_declaration ⟨⟨all, hall, hspec⟩, by simpa using hcodes⟩ h).bind fun _ _ => ends_pure
  · exact ends_ofExcept.bind fun _ _ => ends_pure

end Site

/-- The conversion of a type ends, with a reference or a failure, exactly if no endless chain of calls starts there.
If finitely many types can be come to, it ends exactly if none of them leads back to itself.  A package is extracted
to an end if none of the types of its fields, bases, constraints and results starts an endless chain. -/
theorem conversion_ends_iff (s : Site) (p : Package) :
    (∀ t, (s.ref t).Ends ↔ ¬s.Endless t) ∧
    (∀ t, {u | ReflTransGen s.Calls t u}.Finite →
      ((s.ref t).Ends ↔ ∀ u, ReflTransGen s.Calls t u → ¬TransGen s.Calls u u)) ∧
    ((∀ t, s.Converts p t → ¬s.Endless t) → (program s.world p s.options).Ends) := by
  refine ⟨fun t => Site.ends_iff_not_endless, fun t => Site.ends_iff_of_finite, fun h => ?_⟩
  exact Site.ends_program fun t ht => Site.ends_iff_not_endless.2 (h t ht)

def node : SourceType := .named { home := some "app", name := "Node" } []

def nodeSpec : TypeSpec := { name := "Node", definition := .record [({ name := "Children" }, .slice node)] }

/-- A record with a list of records of its own type. -/
def orchard : Package := { path := "app", groups := [{ specs := [nodeSpec] }] }

def orchardSite : Site := { world := { packages := [orchard] }, options := {} }

private theorem plan_slice : orchardSite.plan (.slice node) = .compose listHead [{ type := node }] := rfl

private theorem plan_node :
    orchardSite.plan node = .compose (orchardSite.headOf "app" { home := some "app", name := "Node" }) [] := rfl

private theorem grounded_slice : orchardSite.Grounded (.slice node) :=
  have hnone : orchardSite.PartsGrounded [] := by simp [Site.PartsGrounded]
  Site.grounded_of_compose plan_slice
    (Site.partsGrounded_cons (Site.grounded_of_compose plan_node hnone) fun _ => hnone)

private theorem reached_orchard {t : SourceType} (h : ReflTransGen orchardSite.Calls (.slice node) t) :
    t = .slice node ∨ t = node := by
  induction h with
  | refl => exact .inl rfl
  | tail _ hcall ih =>
    rcases ih with rfl | rfl
    · rcases hcall with hplan | ⟨hplan, -⟩
      · cases hplan.symm.trans plan_slice
      · have hparts := (Plan.compose.inj (hplan.symm.trans plan_slice)).2
        have hpart := hparts ▸ mem_append_right _ (mem_cons_self)
        exact .inr (by rw [mem_singleton.1 hpart])
    · rcases hcall with hplan | ⟨hplan, -⟩
      · cases hplan.symm.trans plan_node
      · simpa using (Plan.compose.inj (hplan.symm.trans plan_node)).2

private theorem converts_orchard {t : SourceType} (h : orchardSite.Converts orchard t) : t = .slice node := by
  obtain ⟨spec, d, fields, ⟨⟨⟨all, hall, hspec⟩, -⟩, hrecord⟩, ht⟩ := h
  obtain rfl : [] = all := Except.ok.inj hall
  have hcandidates : candidates orchard [] = [(nodeSpec, {})] := rfl
  rw [hcandidates, mem_singleton] at hspec
  cases hspec
  obtain rfl : [({ name := "Children" }, .slice node)] = fields := SourceType.record.inj hrecord
  exact mem_singleton.1 ht

/-- A record with a list of records of its own type is extracted: the list is come to, and the record, and no more. -/
theorem conversion_ends_orchard : {u | ReflTransGen orchardSite.Calls (.slice node) u}.Finite ∧
    (orchardSite.ref (.slice node)).Ends ∧ (∀ t, orchardSite.Converts orchard t → ¬orchardSite.Endless t) ∧
    (program orchardSite.world orchard orchardSite.options).Ends := by
  obtain ⟨hends, hcycles, hprogram⟩ := conversion_ends_iff orchardSite orchard
  have hfinite : {u | ReflTransGen orchardSite.Calls (.slice node) u}.Finite :=
    (Set.toFinite {.slice node, node}).subset fun u hu => reached_orchard hu
  have hslice := (hcycles _ hfinite).2 fun u hu => (grounded_slice.of_reach hu).not_cycle
  have hconverts : ∀ t, orchardSite.Converts orchard t → ¬orchardSite.Endless t := by
    intro t ht
    rw [converts_orchard ht]
    exact (hends _).1 hslice
  exact ⟨hfinite, hslice, hconverts, hprogram hconverts⟩

def tree : SourceType := .named { home := some "app", name := "Tree" } []

def forestSpec : TypeSpec := { name := "Forest", definition := .record [({ name := "Trees" }, tree)] }

/-- A record with a field of a type that is a list of itself. -/
def forest : Package :=
  { path := "app"
    groups := [{ specs := [forestSpec] }, { specs := [{ name := "Tree", definition := .slice tree }] }] }

def forestSite : Site := { world := { packages := [forest] }, options := {} }

private theorem tree_cycle : TransGen forestSite.Calls tree tree := by
  have hname : forestSite.plan tree = .follow (.slice tree) id := rfl
  have hslice : forestSite.plan (.slice tree) = .compose listHead ([] ++ { type := tree } :: []) := rfl
  exact .tail (.single (.follow hname)) (.part hslice (by simp))

private theorem forest_candidates :
    candidates forest [] = [(forestSpec, {}), ({ name := "Tree", definition := .slice tree }, {})] := rfl

private theorem tree_converted : forestSite.Converts forest tree := by
  have hrecord : forestSite.HasRecord forest forestSpec {} [({ name := "Trees" }, tree)] :=
    ⟨⟨⟨[], rfl, by rw [forest_candidates]; exact .head _⟩, rfl⟩, rfl⟩
  exact ⟨_, _, _, hrecord, .head _⟩

/-- Neither the type of a field nor the package it belongs to has an outcome. -/
theorem forest_without_end : forestSite.Converts forest tree ∧ ¬(forestSite.ref tree).Ends ∧
    ¬(program forestSite.world forest forestSite.options).Ends := by
  have htree : ¬(forestSite.ref tree).Ends := fun h => (Site.ends_iff_grounded.1 h).not_cycle tree_cycle
  refine ⟨tree_converted, htree, fun h => htree ?_⟩
  -- the field is come to first of all
  have htypes := (ends_bind.1 h).2 [] (by simp; rfl)
  have hdeclared := (ends_bind.1 htypes).1
  rw [forest_candidates, filter_cons_of_pos rfl, mapM_cons] at hdeclared
  have hbody := (ends_bind.1 (ends_bind.1 (ends_bind.1 hdeclared).1).1).1
  have hparams : (forestSpec.params.mapM forestSite.typeParameter).Gives [] := gives_mapM.2 .nil
  have hmembers := (ends_bind.1 ((ends_bind.1 (ends_within.1 hbody)).2 [] hparams)).1
  exact ends_within.1 (ends_bind.1 (ends_bind.1 hmembers).1).1

end Covenant.Extract
