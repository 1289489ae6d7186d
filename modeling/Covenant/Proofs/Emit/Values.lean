import Covenant.Proofs.Emit.Meaning

/-!
# Values and evaluation

What the emitted helpers do with values, and what each kind of expression evaluates to, so that no later proof has to
unfold `eval`.
-/

namespace Covenant.Emit

open Binding (Bound)
open List

variable {D : Domain}

section Entries

variable {κ β : Type} {same : κ → κ → Bool}

private theorem mem_put {k : κ} {v : β} {entries : List (κ × β)} {p : κ × β} (h : p ∈ put same k v entries) :
    p.2 = v ∨ ∃ q ∈ entries, q.2 = p.2 := by
  induction entries with
  | nil => exact .inl (by rw [mem_singleton.1 h])
  | cons q entries ih =>
    unfold put at h
    split at h
    · rcases mem_cons.1 h with rfl | h
      · exact .inl rfl
      · exact .inr ⟨p, .tail _ h, rfl⟩
    · rcases mem_cons.1 h with rfl | h
      · exact .inr ⟨_, .head _, rfl⟩
      · rcases ih h with hv | ⟨q', hq', hv⟩
        · exact .inl hv
        · exact .inr ⟨q', .tail _ hq', hv⟩

private theorem mem_collect {pairs : List (κ × β)} {p : κ × β} (h : p ∈ collect same pairs) :
    ∃ q ∈ pairs, q.2 = p.2 := by
  have hfold : ∀ rest entries : List (κ × β), p ∈ rest.foldl (fun entries q => put same q.1 q.2 entries) entries →
      (∃ q ∈ entries, q.2 = p.2) ∨ ∃ q ∈ rest, q.2 = p.2 := by
    intro rest
    induction rest with
    | nil => exact fun entries h => .inl ⟨p, h, rfl⟩
    | cons r rest ih =>
      intro entries h
      rcases ih _ h with ⟨q, hq, hqp⟩ | ⟨q, hq, hqp⟩
      · rcases mem_put hq with hr | ⟨q', hq', hv⟩
        · exact .inr ⟨r, .head _, hr ▸ hqp⟩
        · exact .inl ⟨q', hq', hv.trans hqp⟩
      · exact .inr ⟨q, .tail _ hq, hqp⟩
  simpa using hfold pairs [] h

end Entries

namespace Value

instance : Inhabited (Value D) := ⟨null⟩

theorem isNull_eq_true {v : Value D} : v.isNull = true ↔ v = null := by cases v <;> simp [isNull]

section

variable {entries : List (Value D × Value D)} (f : Value D → Value D)

end

theorem Same.refl (l : Language) (v : Value D) : v.Same l v := by
  cases l with
  | dart => rfl
  | typescript => exact Rearranged.refl v

theorem Same.list {l : Language} {g : Value D → Value D} {vs : List (Value D)} (h : ∀ v ∈ vs, v.Same l (g v)) :
    (list vs).Same l (list (vs.map g)) := by
  cases l with
  | dart => exact congrArg Value.list ((map_id vs).symm.trans (map_congr_left h))
  | typescript => exact Rearranged.list (forall₂_map_right_iff.2 (forall₂_same.2 h))

theorem Same.map {l : Language} {g : Value D → Value D} {entries entries' : List (Value D × Value D)}
    (hperm : entries'.Perm entries) (hdart : l = .dart → entries' = entries)
    (h : ∀ p ∈ entries, p.2.Same l (g p.2)) :
    (map entries).Same l (map (entries'.map fun p => (p.1, g p.2))) := by
  cases l with
  | dart =>
    rw [hdart rfl]
    refine congrArg Value.map ((map_id entries).symm.trans (map_congr_left fun p hp => ?_))
    exact Prod.ext rfl (h p hp)
  | typescript =>
    have hvalues : Forall₂ Rearranged (entries.map Prod.snd) (entries.map fun p => g p.2) :=
      forall₂_map_right_iff.2 (forall₂_map_left_iff.2 (forall₂_same.2 h))
    have hzip : entries = (entries.map Prod.fst).zip (entries.map Prod.snd) := by
      rw [zip_map', map_id']
    rw [hzip]
    refine Rearranged.map hvalues ?_
    rw [zip_map']
    exact (hperm.map _).symm

end Value

namespace Runtime

variable {l : Language} {R : Runtime D}

private theorem anyJson_object_eq_some {fields : List (String × Value D)} {j : Value D}
    (h : R.anyJson l (.object fields) = some j) :
    ∃ fields', R.anyJsonFields l fields = some fields' ∧ .record l fields' = j := by
  cases l with
  | dart => simp [anyJson] at h
  | typescript => simpa [anyJson, Value.record] using h

theorem eq_null_of_anyJson {v : Value D} (h : R.anyJson l v = some .null) : v = .null := by
  cases v with
  | null => rfl
  | made c => cases l <;> simp [anyJson, Value.record] at h
  | map entries => cases l <;> simp [anyJson, Value.record] at h
  | object fields => cases l <;> simp [anyJson] at h
  | _ => simp [anyJson] at h

mutual

theorem isJson_of_anyJson (laws : R.Lawful l) : ∀ {v j : Value D}, R.anyJson l v = some j → j.IsJson l
  | .null, _, h | .bool _, _, h | .number _, _, h | .text _, _, h | .instant _, _, h | .member _, _, h => by
    simp only [anyJson, Option.some.injEq] at h
    subst h
    constructor
  | .made c, _, h => by
    simp only [anyJson, Option.some.injEq] at h
    exact h ▸ .record (laws.isJson_instanceFields c)
  | .list vs, _, h => by
    simp only [anyJson, Option.map_eq_some_iff] at h
    obtain ⟨js, hjs, rfl⟩ := h
    exact .list (isJson_of_anyJsonList laws hjs)
  | .map entries, _, h => by
    simp only [anyJson, Option.map_eq_some_iff] at h
    obtain ⟨fields, hfields, rfl⟩ := h
    refine .record fun p hp => ?_
    obtain ⟨q, hq, hqp⟩ := mem_collect hp
    exact hqp ▸ isJson_of_anyJsonEntries laws hfields q hq
  | .object fields, _, h => by
    obtain ⟨fields', hfields, rfl⟩ := anyJson_object_eq_some h
    exact .record (isJson_of_anyJsonFields laws hfields)

private theorem isJson_of_anyJsonList (laws : R.Lawful l) :
    ∀ {vs js : List (Value D)}, R.anyJsonList l vs = some js → ∀ j ∈ js, j.IsJson l
  | [], _, h => by
    simp only [anyJsonList, Option.some.injEq] at h
    simp [← h]
  | v :: vs, _, h => by
    simp only [anyJsonList, Option.bind_eq_bind, Option.bind_eq_some_iff, Option.pure_def, Option.some.injEq] at h
    obtain ⟨j, hj, js, hjs, rfl⟩ := h
    exact forall_mem_cons.2 ⟨isJson_of_anyJson laws hj, isJson_of_anyJsonList laws hjs⟩

private theorem isJson_of_anyJsonEntries (laws : R.Lawful l) :
    ∀ {entries : List (Value D × Value D)} {fields}, R.anyJsonEntries l entries = some fields →
      ∀ p ∈ fields, p.2.IsJson l
  | [], _, h => by
    simp only [anyJsonEntries, Option.some.injEq] at h
    simp [← h]
  | (k, v) :: entries, _, h => by
    simp only [anyJsonEntries, Option.bind_eq_bind, Option.bind_eq_some_iff, Option.pure_def, Option.some.injEq] at h
    obtain ⟨name, -, j, hj, fields, hfields, rfl⟩ := h
    exact forall_mem_cons.2 ⟨isJson_of_anyJson laws hj, isJson_of_anyJsonEntries laws hfields⟩

private theorem isJson_of_anyJsonFields (laws : R.Lawful l) :
    ∀ {fields fields' : List (String × Value D)}, R.anyJsonFields l fields = some fields' →
      ∀ p ∈ fields', p.2.IsJson l
  | [], _, h => by
    simp only [anyJsonFields, Option.some.injEq] at h
    simp [← h]
  | (name, v) :: fields, _, h => by
    simp only [anyJsonFields, Option.bind_eq_bind, Option.bind_eq_some_iff, Option.pure_def, Option.some.injEq] at h
    obtain ⟨j, hj, fields', hfields, rfl⟩ := h
    exact forall_mem_cons.2 ⟨isJson_of_anyJson laws hj, isJson_of_anyJsonFields laws hfields⟩

end

end Runtime

section Evaluation

variable {l : Language} {R : Runtime D} {env : Env D}

attribute [local simp] eval

@[simp] theorem eval_var (x : String) : eval l R env (.var x) = env.var x := by simp

@[simp] theorem Env.var_bind_self (x : String) (v : Value D) : (env.bind x v).var x = some v := if_pos rfl

theorem eval_unlessNull_null {tested value : Expr} (h : eval l R env tested = some .null) :
    eval l R env (.unlessNull tested value) = some .null := by
  simp [h, Value.isNull]

theorem eval_unlessNull_of_ne {tested value : Expr} {v : Value D} (h : eval l R env tested = some v)
    (hv : v ≠ .null) : eval l R env (.unlessNull tested value) = eval l R env value := by
  have hnull : v.isNull = false := Bool.eq_false_iff.2 fun hnull => hv (Value.isNull_eq_true.1 hnull)
  simp [h, hnull]

end Evaluation

end Covenant.Emit
