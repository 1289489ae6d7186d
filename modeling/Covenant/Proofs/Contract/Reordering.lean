import Mathlib.Data.List.Basic
import Mathlib.Data.List.Perm.Basic
import Covenant.Contract.Program
import Covenant.Proofs.Text.Order

/-!
# Visits and the order of declarations

Every declaration is visited after the one directly around it (`Grounded`), also among what exclusion leaves, so names
can be handed down from a declaration to those nested in it in one pass.

Two programs are reordered if they differ only in the order of declarations that stand side by side.  Their visits are
the same bare visits in another order (`Program.Reordered.visits`), and exclusion takes reordered programs to
reordered programs (`Program.Reordered.exclude`).
-/

namespace Covenant.Contract

open List

namespace Visit

def outer? (v : Visit) : Option Visit := v.parents.getLast?.map fun d => { decl := d, parents := v.parents.dropLast }

/-- The visit of the top-level declaration around this one, or this one. -/
def outermost (v : Visit) : Visit :=
  match v.parents with
  | [] => v
  | d :: _ => { decl := d }

variable {u v : Visit}

theorem outer?_eq_none : v.outer? = none ↔ v.parents = [] := by simp [outer?]

theorem outer?_eq_some : v.outer? = some u ↔ v.parents = u.parents ++ [u.decl] := by
  obtain ⟨d, ds⟩ := u
  rw [outer?, Option.map_eq_some_iff]
  constructor
  · rintro ⟨d', hd, h⟩
    cases h
    exact (dropLast_append_getLast? d hd).symm
  · intro h
    refine ⟨d, ?_, ?_⟩ <;> simp [h]

theorem parentQualified?_eq (v : Visit) : v.parentQualified? = v.outer?.map (·.qualified) := by
  rw [parentQualified?, outer?]
  cases v.parents.getLast? <;> rfl

theorem names_of_outer? (h : v.outer? = some u) : v.names = u.names ++ [v.decl.name] := by
  simp [names, outer?_eq_some.1 h]

theorem outermost_of_outer? (h : v.outer? = some u) : v.outermost = u.outermost := by
  obtain ⟨d, ps⟩ := v
  obtain ⟨e, qs⟩ := u
  obtain rfl : ps = qs ++ [e] := outer?_eq_some.1 h
  cases qs <;> rfl

theorem isExcluded_of_outer? (h : v.outer? = some u) (hv : v.isExcluded = false) : u.isExcluded = false := by
  rw [isExcluded, outer?_eq_some.1 h] at hv
  simp only [any_append, any_cons, any_nil, Bool.or_false, Bool.or_eq_false_iff] at hv
  rw [isExcluded, hv.2.1, hv.2.2]
  rfl

end Visit

/-- Every declaration comes after the one directly around it, which is in the list or among `seen`. -/
def Grounded : List Visit → List Visit → Prop
  | _, [] => True
  | seen, v :: vs => (∀ u, v.outer? = some u → u ∈ seen) ∧ Grounded (v :: seen) vs

section

variable {seen seen' vs ws : List Visit}

private theorem Grounded.mono (h : Grounded seen vs) (hs : seen ⊆ seen') : Grounded seen' vs := by
  induction vs generalizing seen seen' with
  | nil => trivial
  | cons v vs ih => exact ⟨fun u hu => hs (h.1 u hu), ih h.2 (cons_subset_cons v hs)⟩

private theorem Grounded.append (h : Grounded seen vs) (h' : Grounded seen ws) : Grounded seen (vs ++ ws) := by
  induction vs generalizing seen with
  | nil => exact h'
  | cons v vs ih => exact ⟨h.1, ih h.2 (h'.mono (subset_cons_self v seen))⟩

/-- The declaration around one of the list has been seen or is in the list. -/
theorem Grounded.mem_of_outer? (h : Grounded seen vs) {u v : Visit} (hv : v ∈ vs) (hu : v.outer? = some u) :
    u ∈ seen ∨ u ∈ vs := by
  induction vs generalizing seen with
  | nil => cases hv
  | cons w vs ih =>
    rcases mem_cons.1 hv with rfl | hv
    · exact .inl (h.1 u hu)
    · rcases ih h.2 hv with hmem | hmem
      · rcases mem_cons.1 hmem with rfl | hmem
        · exact .inr (.head _)
        · exact .inl hmem
      · exact .inr (.tail w hmem)

/-- A part of the visits is grounded if it has, or `seen'` has, whatever stands around one of its declarations. -/
theorem Grounded.filter {P : Visit → Bool} (h : Grounded seen vs)
    (hseen : ∀ v ∈ vs, P v → ∀ u ∈ seen, v.outer? = some u → u ∈ seen')
    (hvs : ∀ v ∈ vs, P v → ∀ u ∈ vs, v.outer? = some u → P u ∨ u ∈ seen') : Grounded seen' (vs.filter P) := by
  induction vs generalizing seen seen' with
  | nil => trivial
  | cons v vs ih =>
    by_cases hv : P v = true
    · rw [filter_cons_of_pos hv]
      refine ⟨fun u hu => hseen v (.head _) hv u (h.1 u hu) hu, ih h.2 ?_ ?_⟩
      · intro w hw hPw u hu hou
        rcases mem_cons.1 hu with rfl | hu
        · exact .head _
        · exact .tail v (hseen w (.tail v hw) hPw u hu hou)
      · intro w hw hPw u hu hou
        refine (hvs w (.tail v hw) hPw u (.tail v hu) hou).imp_right ?_
        exact mem_cons_of_mem v
    · rw [filter_cons_of_neg hv]
      refine ih h.2 ?_ fun w hw hPw u hu => hvs w (.tail v hw) hPw u (.tail v hu)
      intro w hw hPw u hu hou
      rcases mem_cons.1 hu with rfl | hu
      · exact (hvs w (.tail u hw) hPw u (.head _) hou).resolve_left hv
      · exact hseen w (.tail v hw) hPw u hu hou

end

mutual

private theorem Declaration.grounded_visits (seen : List Visit) (parents : List Declaration) :
    ∀ d : Declaration, (∀ u, (Visit.mk d parents).outer? = some u → u ∈ seen) → Grounded seen (d.visits parents)
  | .enum h members, hseen => ⟨hseen, trivial⟩
  | .type h body nested, hseen => by
    refine ⟨hseen, grounded_visitsOf _ _ nested fun d u hu => ?_⟩
    -- the declaration around what is nested is the one just visited
    have hparents := Visit.outer?_eq_some.1 hu
    obtain ⟨e, ps⟩ := u
    obtain ⟨rfl, he⟩ := append_inj' hparents rfl
    cases he
    exact .head _

private theorem grounded_visitsOf (seen : List Visit) (parents : List Declaration) :
    ∀ ds : List Declaration, (∀ d u, (Visit.mk d parents).outer? = some u → u ∈ seen) →
      Grounded seen (visitsOf parents ds)
  | [], _ => trivial
  | d :: ds, hseen =>
    (d.grounded_visits seen parents (hseen d)).append (grounded_visitsOf seen parents ds hseen)

end

/-- Visits come after the visits around them. -/
theorem Program.grounded_visits (p : Program) : Grounded [] p.visits :=
  grounded_visitsOf [] [] p.declarations fun _ _ h => by cases h

/-- The declarations that are neither excluded nor nested in an excluded one. -/
def Program.kept (p : Program) : List Visit := p.visits.filter (!·.isExcluded)

theorem Program.outer?_mem_kept {p : Program} {u v : Visit} (hv : v ∈ p.kept) (hu : v.outer? = some u) :
    u ∈ p.kept := by
  obtain ⟨hmem, hkept⟩ := mem_filter.1 hv
  refine mem_filter.2 ⟨(p.grounded_visits.mem_of_outer? hmem hu).resolve_left not_mem_nil, ?_⟩
  have := Visit.isExcluded_of_outer? hu (by simpa using hkept)
  simpa using this

/-- The same declarations, with those side by side in another order, at any depth. -/
inductive Reordered : List Declaration → List Declaration → Prop
  | nil : Reordered [] []
  | enum {ds ds' : List Declaration} (head : DeclHead) (members : List (Option EnumMember)) :
      Reordered ds ds' → Reordered (.enum head members :: ds) (.enum head members :: ds')
  | type {nested nested' ds ds' : List Declaration} (head : DeclHead) (body : TypeBody) :
      Reordered nested nested' → Reordered ds ds' →
      Reordered (.type head body nested :: ds) (.type head body nested' :: ds')
  | swap (d d' : Declaration) (ds : List Declaration) : Reordered (d :: d' :: ds) (d' :: d :: ds)
  | trans {ds ds' ds'' : List Declaration} : Reordered ds ds' → Reordered ds' ds'' → Reordered ds ds''

theorem Reordered.refl : ∀ ds, Reordered ds ds
  | [] => .nil
  | .enum head members :: ds => .enum head members (refl ds)
  | .type head body nested :: ds => .type head body (refl nested) (refl ds)

/-- The same program with its declarations in another order. -/
def Program.Reordered (p p' : Program) : Prop :=
  ∃ ds, Contract.Reordered p.declarations ds ∧ p' = { p with declarations := ds }

/-- The declaration without what is nested in it. -/
def Declaration.bare : Declaration → Declaration
  | enum head members => enum head members
  | type head body _ => type head body []

namespace Declaration

variable (d : Declaration)

@[simp] theorem head_bare : d.bare.head = d.head := by cases d <;> rfl

@[simp] theorem name_bare : d.bare.name = d.name := by simp [name]

@[simp] theorem ns_bare : d.bare.ns = d.ns := by simp [ns]

@[simp] theorem isExcluded_bare : d.bare.isExcluded = d.isExcluded := by simp [isExcluded]

@[simp] theorem body?_bare : d.bare.body? = d.body? := by cases d <;> rfl

@[simp] theorem isRemote_bare : d.bare.isRemote = d.isRemote := by simp [isRemote, kind?]

end Declaration

namespace Visit

def bare (v : Visit) : Visit := { decl := v.decl.bare, parents := v.parents.map Declaration.bare }

variable (v : Visit)

@[simp] theorem decl_bare : v.bare.decl = v.decl.bare := rfl

@[simp] theorem parents_bare : v.bare.parents = v.parents.map Declaration.bare := rfl

@[simp] theorem names_bare : v.bare.names = v.names := by simp [names, Function.comp_def]

@[simp] theorem path_bare : v.bare.path = v.path := by simp [path]

@[simp] theorem ns_bare : v.bare.ns = v.ns := by
  obtain ⟨d, ps⟩ := v
  cases ps <;> simp [bare, ns]

@[simp] theorem qualified_bare : v.bare.qualified = v.qualified := by simp [qualified]

@[simp] theorem isExcluded_bare : v.bare.isExcluded = v.isExcluded := by
  simp [isExcluded, any_map, Function.comp_def]

private theorem outer?_bare : v.bare.outer? = v.outer?.map bare := by
  rw [outer?, outer?, parents_bare, getLast?_map, ← map_dropLast]
  cases v.parents.getLast? <;> rfl

@[simp] theorem parentQualified?_bare : v.bare.parentQualified? = v.parentQualified? := by
  rw [parentQualified?_eq, parentQualified?_eq, outer?_bare, Option.map_map]
  congr 1
  funext u
  exact u.qualified_bare

theorem outermost_bare : v.bare.outermost = v.outermost.bare := by
  obtain ⟨d, ps⟩ := v
  cases ps <;> rfl

end Visit

section

variable {vs vs' : List Visit}

theorem map_filter_bare {P : Visit → Bool} (hP : ∀ v, P v.bare = P v) (us : List Visit) :
    (us.filter P).map Visit.bare = (us.map Visit.bare).filter P := by
  rw [filter_map]
  congr 2
  funext v
  exact (hP v).symm

theorem filterMap_map_bare {α : Type} {f : Visit → Option α} (hf : ∀ v, f v.bare = f v) (us : List Visit) :
    (us.map Visit.bare).filterMap f = us.filterMap f := by
  rw [filterMap_map]
  exact filterMap_congr fun v _ => hf v

theorem perm_filter_bare {P : Visit → Bool} (hP : ∀ v, P v.bare = P v)
    (h : (vs.map Visit.bare).Perm (vs'.map Visit.bare)) :
    ((vs.filter P).map Visit.bare).Perm ((vs'.filter P).map Visit.bare) := by
  rw [map_filter_bare hP, map_filter_bare hP]
  exact h.filter P

theorem perm_filterMap_bare {α : Type} {f : Visit → Option α} (hf : ∀ v, f v.bare = f v)
    (h : (vs.map Visit.bare).Perm (vs'.map Visit.bare)) : (vs.filterMap f).Perm (vs'.filterMap f) := by
  rw [← filterMap_map_bare hf vs, ← filterMap_map_bare hf vs']
  exact h.filterMap f

theorem perm_map_bare {α : Type} {f : Visit → α} (hf : ∀ v, f v.bare = f v)
    (h : (vs.map Visit.bare).Perm (vs'.map Visit.bare)) : (vs.map f).Perm (vs'.map f) := by
  rw [← filterMap_eq_map]
  exact perm_filterMap_bare (fun v => congrArg some (hf v)) h

end

mutual

private theorem visits_bare_congr {parents parents' : List Declaration}
    (hp : parents.map Declaration.bare = parents'.map Declaration.bare) :
    ∀ d : Declaration, (d.visits parents).map Visit.bare = (d.visits parents').map Visit.bare
  | .enum head members => by simp [Declaration.visits, Visit.bare, hp]
  | .type head body nested => by
    have hp' : (parents ++ [Declaration.type head body nested]).map Declaration.bare =
        (parents' ++ [Declaration.type head body nested]).map Declaration.bare := by simp [hp]
    have hnested := visitsOf_bare_congr hp' nested
    simp [Declaration.visits, Visit.bare, hp, hnested]

private theorem visitsOf_bare_congr {parents parents' : List Declaration}
    (hp : parents.map Declaration.bare = parents'.map Declaration.bare) :
    ∀ ds : List Declaration, (visitsOf parents ds).map Visit.bare = (visitsOf parents' ds).map Visit.bare
  | [] => rfl
  | d :: ds => by
    rw [visitsOf, visitsOf, map_append, map_append, visits_bare_congr hp d, visitsOf_bare_congr hp ds]

end

private theorem Reordered.visitsOf {ds ds' : List Declaration} (h : Reordered ds ds') (parents : List Declaration) :
    ((visitsOf parents ds).map Visit.bare).Perm ((Contract.visitsOf parents ds').map Visit.bare) := by
  induction h generalizing parents with
  | nil => exact .refl _
  | enum head members _ ih => exact (ih parents).cons _
  | @type nested nested' _ _ head body _ _ ihn ih =>
    simp only [Contract.visitsOf, Declaration.visits, cons_append, map_cons, map_append]
    refine Perm.cons _ ?_
    refine Perm.append ((ihn _).trans (.of_eq ?_)) (ih parents)
    exact visitsOf_bare_congr (by simp [Declaration.bare]) nested'
  | swap d d' ds =>
    simp only [Contract.visitsOf, map_append, ← append_assoc]
    exact perm_append_comm.append_right _
  | trans _ _ ih ih' => exact (ih parents).trans (ih' parents)

abbrev Program.DistinctNames (p : Program) : Prop := (p.visits.map (·.qualified)).Nodup

abbrev Program.DistinctKept (p : Program) : Prop := (p.kept.map (·.qualified)).Nodup

theorem Program.DistinctNames.kept {p : Program} (hd : p.DistinctNames) : p.DistinctKept :=
  Nodup.sublist (filter_sublist.map _) hd

namespace Program.Reordered

variable {p p' : Program}

theorem visits (h : p.Reordered p') : (p.visits.map Visit.bare).Perm (p'.visits.map Visit.bare) := by
  obtain ⟨ds, h, rfl⟩ := h
  exact h.visitsOf []

theorem kept (h : p.Reordered p') : (p.kept.map Visit.bare).Perm (p'.kept.map Visit.bare) :=
  perm_filter_bare (by simp) h.visits

private theorem qualified (h : p.Reordered p') : (p.visits.map (·.qualified)).Perm (p'.visits.map (·.qualified)) :=
  perm_map_bare (by simp) h.visits

theorem nodup_qualified (h : p.Reordered p') (hd : p.DistinctNames) : p'.DistinctNames :=
  h.qualified.nodup_iff.1 hd

theorem qualifiedNames (h : p.Reordered p') : p.qualifiedNames = p'.qualifiedNames :=
  Text.sortedSet_eq_of_perm h.qualified

theorem visit? (h : p.Reordered p') (hd : p.DistinctNames) (q : String) :
    (p.visit? q).map Visit.bare = (p'.visit? q).map Visit.bare := by
  have hfind : ∀ p : Program, (p.visit? q).map Visit.bare =
      ((p.visits.map Visit.bare).reverse.find? fun v => v.qualified == q) := by
    intro p
    rw [Program.visit?, ← map_reverse, find?_map]
    congr 2
    funext v
    exact congrArg (· == q) v.qualified_bare.symm
  rw [hfind, hfind]
  refine Text.find?_key_perm ((reverse_perm _).trans (h.visits.trans (reverse_perm _).symm)) ?_ q
  rw [map_reverse, nodup_reverse, map_map]
  simpa [Function.comp_def] using hd

end Program.Reordered

section

variable (rules : ExcludeRules) {ds ds' : List Declaration}

/-- What is kept of declarations that stand side by side; `place` gives the namespace and the path of each. -/
private def keptAt (place : DeclHead → String × String) (ds : List Declaration) : List Declaration :=
  ds.filterMap fun d => rules.keep? (place d.head).1 (place d.head).2 d

private def removedAt (dropped : Bool) (place : DeclHead → String × String) (ds : List Declaration) : List String :=
  ds.flatMap fun d => rules.removed dropped (place d.head).1 (place d.head).2 d

private theorem keepAll_eq (ns path : String) (ds : List Declaration) :
    rules.keepAll ns path ds = keptAt rules (fun head => (ns, path ++ "." ++ head.name)) ds := by
  induction ds with
  | nil => rfl
  | cons d ds ih =>
    rw [ExcludeRules.keepAll, ih, keptAt, keptAt, filterMap_cons]
    show (rules.keep? ns (path ++ "." ++ d.head.name) d).toList ++ _ = _
    cases rules.keep? ns (path ++ "." ++ d.head.name) d <;> rfl

private theorem removedAll_eq (dropped : Bool) (ns path : String) (ds : List Declaration) :
    rules.removedAll dropped ns path ds =
      removedAt rules dropped (fun head => (ns, path ++ "." ++ head.name)) ds := by
  induction ds with
  | nil => rfl
  | cons d ds ih =>
    rw [ExcludeRules.removedAll, ih]
    rfl

private theorem drops_type (ns path : String) (head : DeclHead) (body : TypeBody)
    (nested nested' : List Declaration) :
    rules.drops ns path (.type head body nested) = rules.drops ns path (.type head body nested') := rfl

private theorem reordered_keptAt (h : Reordered ds ds') (place : DeclHead → String × String) :
    Reordered (keptAt rules place ds) (keptAt rules place ds') := by
  induction h generalizing place with
  | nil => exact .nil
  | enum head members _ ih =>
    simp only [keptAt, filterMap_cons, ExcludeRules.keep?, Declaration.head]
    by_cases hdrop : rules.drops (place head).1 (place head).2 (.enum head members) = true
    · simp only [hdrop, ↓reduceIte]
      exact ih place
    · simp only [hdrop, Bool.false_eq_true, ↓reduceIte]
      exact .enum head members (ih place)
  | @type nested nested' _ _ head body _ _ ihn ih =>
    simp only [keptAt, filterMap_cons, ExcludeRules.keep?, Declaration.head,
      drops_type rules _ _ head body nested nested']
    by_cases hdrop : rules.drops (place head).1 (place head).2 (.type head body nested') = true
    · simp only [hdrop, ↓reduceIte]
      exact ih place
    · simp only [hdrop, Bool.false_eq_true, ↓reduceIte, keepAll_eq]
      exact .type head body (ihn _) (ih place)
  | swap d d' ds =>
    simp only [keptAt, filterMap_cons]
    cases rules.keep? (place d.head).1 (place d.head).2 d with
    | none => exact .refl _
    | some k =>
      cases rules.keep? (place d'.head).1 (place d'.head).2 d' with
      | none => exact .refl _
      | some k' => exact .swap k k' _
  | trans _ _ ih ih' => exact (ih place).trans (ih' place)

private theorem perm_removedAt (h : Reordered ds ds') (dropped : Bool) (place : DeclHead → String × String) :
    (removedAt rules dropped place ds).Perm (removedAt rules dropped place ds') := by
  induction h generalizing dropped place with
  | nil => exact .refl _
  | enum head members _ ih => exact (ih dropped place).append_left _
  | @type nested nested' _ _ head body _ _ ihn ih =>
    show (rules.removed dropped (place head).1 (place head).2 (.type head body nested) ++ _).Perm
      (rules.removed dropped (place head).1 (place head).2 (.type head body nested') ++ _)
    refine Perm.append ?_ (ih dropped place)
    rw [ExcludeRules.removed, ExcludeRules.removed, drops_type rules _ _ head body nested nested', removedAll_eq,
      removedAll_eq]
    exact (ihn _ _).append_left _
  | swap d d' ds =>
    simp only [removedAt, flatMap_cons, ← append_assoc]
    exact perm_append_comm.append_right _
  | trans _ _ ih ih' => exact (ih dropped place).trans (ih' dropped place)

theorem Program.Reordered.exclude {p p' : Program} (h : p.Reordered p') :
    (p.exclude rules).1.Reordered (p'.exclude rules).1 ∧ (p'.exclude rules).2 = (p.exclude rules).2 := by
  obtain ⟨ds, h, rfl⟩ := h
  have hremoved := perm_removedAt rules h false fun head => (head.ns, head.name)
  refine ⟨⟨_, reordered_keptAt rules h fun head => (head.ns, head.name), ?_⟩, (Text.sorted_eq_of_perm hremoved).symm⟩
  have hcontains : ∀ q, (removedAt rules false (fun head => (head.ns, head.name)) p.declarations).contains q =
      (removedAt rules false (fun head => (head.ns, head.name)) ds).contains q := by
    intro q
    simp only [contains_eq_mem, hremoved.mem_iff]
  show Program.mk _ _ _ _ = Program.mk _ _ _ _
  congr 1
  refine filter_congr fun a _ => ?_
  exact (congrArg not (hcontains a.1)).symm

end

end Covenant.Contract
