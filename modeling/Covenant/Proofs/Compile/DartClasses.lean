import Covenant.Proofs.Binding.Ancestry
import Covenant.Proofs.Compile.Introductions

/-!
# Classes of Dart

What Dart asks of a class together with the classes above it.  The identifiers of all fields are distinct, and so are
those of the static constants, but the two are never compared (`memberIdents_nodup_iff`).  Every class is compared
with the nearest ancestor that has a result.  It is found within the entries of the table (`Binder.exists_nearest`),
and so all results along the ancestors are the same (`results_agree`).
-/

namespace Covenant

open Binding (Binder Bound Shape ShapeConstant ShapeField)
open Contract (Program)
open Naming (Entry Table)
open Outcome
open Text (Occurs)
open List

/-- The identifiers that the class of a shape has for fields and static constants.  A container of error codes has no
fields. -/
def Binding.Shape.memberIdents (s : Shape) : List String :=
  (if s.errorCodes then [] else s.fields.map (·.ident)) ++ s.constants.map (·.ident)

/-- Fields are told apart, and so are constants, but a field may be called like a constant. -/
theorem Binding.Binder.memberIdents_of_shapeOf {b : Binder} {codesName : String} {e : Entry} {s : Shape}
    (h : b.shapeOf codesName e = .ok s) :
    (s.fields.map (·.ident)).Nodup ∧ (s.constants.map (·.ident)).Nodup ∧
      (s.memberIdents.Nodup ↔ (s.errorCodes = false → ∀ f ∈ s.fields, ∀ c ∈ s.body.constants,
        b.table.policy.member f.wire ≠ b.table.policy.member c.name)) := by
  obtain ⟨_, _, inherited, own, parts⟩ := shapeOf_eq_ok h
  have hfields := nodup_of_identify parts.identified
  obtain ⟨hidents, hconstants⟩ := idents_of_shapeConstants parts.constants
  refine ⟨hfields, hconstants, ?_⟩
  unfold Shape.memberIdents
  cases hcontainer : s.errorCodes with
  | true => simpa using hconstants
  | false =>
    have hwires : ∀ f ∈ s.fields, f.ident = b.table.policy.member f.wire := by
      intro f hf
      rw [parts.fields] at hf
      obtain ⟨g, -, rfl⟩ := mem_map.1 hf
      simp only [ShapeField.identified]
    rw [hcontainer, declaredConstants, if_neg Bool.false_ne_true] at hidents
    rw [if_neg Bool.false_ne_true, nodup_append, and_iff_right hfields, and_iff_right hconstants,
      map_congr_left hwires, hidents]
    simp only [mem_map, forall_exists_index, and_imp, forall_apply_eq_imp_iff₂, forall_const]

namespace Emit.Dart

def parameterText (f : ShapeField) : String := (if f.inherited then "super." else "this.") ++ f.ident ++ ","

def constantHead (c : ShapeConstant) : String :=
  match c.value with
  | .string _ => "  static const String " ++ c.ident ++ " ="
  | .int _ => "  static const int " ++ c.ident ++ " ="

private theorem getLast?_of_append {s t : String} {c : Char} (h : t.toList.getLast? = some c) :
    (s ++ t).toList.getLast? = some c := by
  rw [String.toList_append, getLast?_append, h, Option.some_or]

private theorem getLast?_parameterText (f : ShapeField) : (parameterText f).toList.getLast? = some ',' :=
  getLast?_of_append (by simp)

private theorem getLast?_constantHead (c : ShapeConstant) : (constantHead c).toList.getLast? = some '=' := by
  unfold constantHead
  split <;> exact getLast?_of_append (by simp)

private theorem occurs_constantsText {s : Shape} {c : ShapeConstant} (hc : c ∈ s.constants) :
    Occurs (constantHead c) (constantsText s.constants) := by
  have htext : Occurs (constantHead c) (constantText c) := by
    unfold constantText constantHead
    cases c.value with
    | string v => exact ⟨[], ' ' :: (quote v).toList ++ [';', '\n'], by simp⟩
    | int n => exact ⟨[], ' ' :: (toString n).toList ++ [';', '\n'], by simp⟩
  exact htext.join (mem_map_of_mem hc)

private theorem occurs_parameterText {s : Shape} {f : ShapeField} (hf : f ∈ s.fields) :
    Occurs (parameterText f) (constructor s) := by
  have hfield : Occurs (parameterText f) (constructorField f) := by
    unfold constructorField parameterText
    exact ⟨"    ".toList ++ (if f.type.nullable then "" else "required ").toList, ['\n'], by simp⟩
  rw [constructor, if_neg (by simpa using ne_nil_of_mem hf)]
  exact ((hfield.join (mem_map_of_mem hf)).append_left _).append_right _

section

variable {b : Binder} {settings : Settings}

/-- The text of a class has a parameter for each field and a head for each constant. -/
theorem occurs_typeText {s : Shape} {text : String} (h : typeText b settings s = .ok text) :
    (∀ c ∈ s.constants, Occurs (constantHead c) text) ∧
      (s.errorCodes = false → ∀ f ∈ s.fields, Occurs (parameterText f) text) := by
  rw [typeText_eq_ok h]
  cases s.errorCodes with
  | true =>
    refine ⟨fun c hc => ?_, fun h => by cases h⟩
    have hconstants : Occurs (constantHead c)
        (if s.constants.isEmpty then "" else "\n" ++ constantsText s.constants) := by
      rw [if_neg (by simpa using ne_nil_of_mem hc)]
      exact (occurs_constantsText hc).append_left _
    rw [if_pos rfl]
    exact (hconstants.append_left _).append_right _
  | false =>
    have hblock : ∀ {w member : String} {c : Char}, Occurs w member → member ∈ classMembers s →
        w.toList.getLast? = some c → Text.isBlank c = false → Occurs w (classText s) := by
      intro w member c hw hmember hlast hc
      exact ((hw.joinBlocks hmember hlast hc).append_left _).append_right _
    rw [if_neg Bool.false_ne_true]
    refine ⟨fun c hc => ?_, fun _ f hf => ?_⟩
    · exact hblock (occurs_constantsText hc) (by simp [classMembers]) (getLast?_constantHead c) rfl
    · exact hblock (occurs_parameterText hf) (by simp [classMembers]) (getLast?_parameterText f) rfl

variable {p : Program} {files : List OutputFile} {e : Entry}

private theorem exists_typeText (h : emit b settings p = .ok files) (he : e ∈ b.table.entries)
    (htype : e.decl.body?.isSome = true) :
    ∃ s text, b.shapeOf settings.errorCodesName e = .ok s ∧ typeText b settings s = .ok text ∧
      ∃ file ∈ files, Occurs text file.content := by
  obtain ⟨texts, htexts, rfl⟩ := emit_eq_ok h
  obtain ⟨text, hmem, hrendered⟩ := exists_of_mem_right htexts.flip he
  cases hrendered with
  | enum hdecl _ => simp [hdecl, Contract.Declaration.body?] at htype
  | @type s _ _ hs htext =>
    have hlast : text.toList.getLast? = some '\x7d' := by
      rw [typeText_eq_ok htext]
      split <;> exact getLast?_of_append (by simp)
    have hblocks := (Occurs.refl text).joinBlocks hmem hlast rfl
    exact ⟨s, text, hs, htext, _, mem_singleton_self _,
      (hblocks.joinBlocks (by simp) hlast rfl).append_right _⟩

/-- The fields of an emitted class, inherited and own, have distinct identifiers, and so have its static constants.
All of them are distinct just if the names of no field and no constant become the same identifier. -/
theorem memberIdents_nodup_iff (h : emit b settings p = .ok files) (he : e ∈ b.table.entries)
    (htype : e.decl.body?.isSome = true) :
    ∃ s text, b.shapeOf settings.errorCodesName e = .ok s ∧ typeText b settings s = .ok text ∧
      (∃ file ∈ files, Occurs text file.content) ∧
      (∀ c ∈ s.constants, Occurs (constantHead c) text) ∧
      (s.errorCodes = false → ∀ f ∈ s.fields, Occurs (parameterText f) text) ∧
      (s.fields.map (·.ident)).Nodup ∧ (s.constants.map (·.ident)).Nodup ∧
      (s.memberIdents.Nodup ↔ (s.errorCodes = false → ∀ f ∈ s.fields, ∀ c ∈ s.body.constants,
        b.table.policy.member f.wire ≠ b.table.policy.member c.name)) := by
  obtain ⟨s, text, hs, htext, hfile⟩ := exists_typeText h he htype
  obtain ⟨hconstants, hfields⟩ := occurs_typeText htext
  exact ⟨s, text, hs, htext, hfile, hconstants, hfields, Binder.memberIdents_of_shapeOf hs⟩

end

/-- Shelves are stocks, which have a `max-size`, and have a `depth` and constants of the given names. -/
def shelves (constants : List String) : Program :=
  { name := "Store"
    declarations :=
      [.type { ns := "App", name := "Stock" }
          { fields := [some { name := "max-size", type := some (.named "int") }] } [],
        .type { ns := "App", name := "Shelf" }
          { baseTypes := [some (.named "Stock")]
            fields := [some { name := "depth", type := some (.named "int") }]
            constants := constants.map fun name => { name, value := some (.int 10) } } []] }

/-- The identifiers of the fields and constants of shelves, if they are emitted as a class. -/
def shelfIdents (constants : List String) : Option (List String × List String) :=
  (Binder.build targets [] policy (shelves constants)).toOption.bind fun b =>
    (emit b ⟨"Store", "ErrorCodes"⟩ (shelves constants)).toOption.bind fun _ =>
      (b.table.lookup "App.Shelf").bind fun e =>
        (b.shapeOf "ErrorCodes" e).toOption.bind fun s =>
          if s.errorCodes then none else some (s.fields.map (·.ident), s.constants.map (·.ident))

private theorem shelfIdents_eq_some {names fields constants : List String}
    (h : shelfIdents names = some (fields, constants)) :
    ∃ b files e s, Binder.build targets [] policy (shelves names) = .ok b ∧
      emit b ⟨"Store", "ErrorCodes"⟩ (shelves names) = .ok files ∧ e ∈ b.table.entries ∧
      e.decl.body?.isSome = true ∧ b.shapeOf "ErrorCodes" e = .ok s ∧ s.errorCodes = false ∧
      s.memberIdents = fields ++ constants := by
  obtain ⟨b, hb, h⟩ := toOption_bind_eq_some.1 h
  obtain ⟨files, hfiles, h⟩ := toOption_bind_eq_some.1 h
  obtain ⟨e, he, h⟩ := Option.bind_eq_some_iff.1 h
  obtain ⟨s, hs, h⟩ := toOption_bind_eq_some.1 h
  have he := Table.mem_entries_of_lookup (Binder.build_eq_ok.1 hb).2 he
  obtain ⟨_, _, _, _, parts⟩ := Binder.shapeOf_eq_ok hs
  cases herror : s.errorCodes with
  | true => simp [herror] at h
  | false =>
    rw [herror, if_neg Bool.false_ne_true, Option.some.injEq, Prod.mk.injEq] at h
    refine ⟨b, files, e, s, hb, hfiles, he, by rw [parts.decl]; rfl, hs, herror, ?_⟩
    rw [Shape.memberIdents, herror, if_neg Bool.false_ne_true, h.1, h.2]

/-- A constant of another name keeps its distance. -/
theorem memberIdents_nodup_iff_shelves :
    ∃ b files e s, Binder.build targets [] policy (shelves ["MinSize"]) = .ok b ∧
      emit b ⟨"Store", "ErrorCodes"⟩ (shelves ["MinSize"]) = .ok files ∧ e ∈ b.table.entries ∧
      b.shapeOf "ErrorCodes" e = .ok s ∧ s.memberIdents = ["maxSize", "depth", "minSize"] ∧
      ∀ f ∈ s.fields, ∀ c ∈ s.body.constants, b.table.policy.member f.wire ≠ b.table.policy.member c.name := by
  have hrun : shelfIdents ["MinSize"] = some (["maxSize", "depth"], ["minSize"]) := by decide +kernel
  obtain ⟨b, files, e, s, hb, hfiles, he, htype, hs, herror, hidents⟩ := shelfIdents_eq_some hrun
  obtain ⟨t, _, ht, _, _, _, _, _, _, hiff⟩ := memberIdents_nodup_iff hfiles he htype
  obtain rfl : t = s := Except.ok.inj (ht.symm.trans hs)
  exact ⟨b, files, e, t, hb, hfiles, he, hs, hidents, hiff.1 (by rw [hidents]; decide) herror⟩

/-- A class is emitted whose static constants are called like an own and an inherited field. -/
theorem fields_called_like_constants :
    ∃ b files e s, (shelves ["Depth", "MaxSize"]).validate = .ok () ∧
      Binder.build targets [] policy (shelves ["Depth", "MaxSize"]) = .ok b ∧
      emit b ⟨"Store", "ErrorCodes"⟩ (shelves ["Depth", "MaxSize"]) = .ok files ∧ e ∈ b.table.entries ∧
      b.shapeOf "ErrorCodes" e = .ok s ∧ s.memberIdents = ["maxSize", "depth", "depth", "maxSize"] := by
  have hvalid : (shelves ["Depth", "MaxSize"]).validate = .ok () := by decide +kernel
  have hrun : shelfIdents ["Depth", "MaxSize"] = some (["maxSize", "depth"], ["depth", "maxSize"]) := by
    decide +kernel
  obtain ⟨b, files, e, s, hb, hfiles, he, _, hs, _, hidents⟩ := shelfIdents_eq_some hrun
  exact ⟨b, files, e, s, hvalid, hb, hfiles, he, hs, hidents⟩

end Emit.Dart

namespace Binding

namespace Binder

variable {b : Binder} {codesName : String} {e : Entry}

def result? (b : Binder) (codesName : String) (e : Entry) : Option Bound :=
  match b.shapeOf codesName e with
  | .ok s => s.result?
  | .error _ => none

theorem result?_eq {s : Shape} (h : b.shapeOf codesName e = .ok s) :
    b.result? codesName e = s.result? := by rw [result?, h]

theorem shapeOf_of_result? {r : Bound} (h : b.result? codesName e = some r) :
    ∃ s, b.shapeOf codesName e = .ok s ∧ s.result? = some r := by
  unfold result? at h
  split at h
  · exact ⟨_, ‹_›, h⟩
  · cases h

theorem shapeOf_of_base? {x : Entry} (h : b.base? codesName e = some x) :
    ∃ s, b.shapeOf codesName e = .ok s ∧ s.base?.bind (·.declared?) = some x := by
  unfold base? at h
  split at h
  · exact ⟨_, ‹_›, h⟩
  · cases h

section

variable (hindexed : ∀ q x, b.table.lookup q = some x → x ∈ b.table.entries)
include hindexed

theorem mem_entries_of_ancestor? {x : Entry} {n : Nat} (h : b.ancestor? codesName e (n + 1) = some x) :
    x ∈ b.table.entries := by
  obtain ⟨y, _, hx⟩ := Option.bind_eq_some_iff.1 h
  exact hindexed _ _ (lookup_of_base? hx).1

/-- The nearest ancestor with a result comes before all entries are used up. -/
theorem exists_nearest {a : Entry} {n : Nat} (ha : b.ancestor? codesName e (n + 1) = some a)
    (hr : (b.result? codesName a).isSome = true) :
    ∃ m ≤ n, m < b.table.entries.length ∧
      (∃ c, b.ancestor? codesName e (m + 1) = some c ∧ (b.result? codesName c).isSome = true) ∧
      ∀ i < m, ∀ x, b.ancestor? codesName e (i + 1) = some x → b.result? codesName x = none := by
  classical
  have hsome : ∃ m, ∃ c, b.ancestor? codesName e (m + 1) = some c ∧
      (b.result? codesName c).isSome = true := ⟨n, a, ha, hr⟩
  set m := Nat.find hsome
  obtain ⟨c, hc, hresult⟩ := Nat.find_spec hsome
  have hfirst : ∀ i < m, ∀ x, b.ancestor? codesName e (i + 1) = some x → b.result? codesName x = none := by
    intro i hi x hx
    simpa [hx] using Nat.find_min hsome hi
  refine ⟨m, Nat.find_min' hsome ⟨a, ha, hr⟩, ?_, ⟨c, hc, hresult⟩, hfirst⟩
  -- if the steps `i` and `j` came to the same ancestor, the way without what is between them would be shorter
  have hne : ∀ i j, i < j → j ≤ m → b.ancestor? codesName e (i + 1) ≠ b.ancestor? codesName e (j + 1) := by
    intro i j hij hj heq
    have hshort : b.ancestor? codesName e (i + (m - j) + 1) = some c := by
      rw [Nat.add_right_comm, ancestor?_add, heq, ← ancestor?_add, ← hc]
      congr 1
      omega
    rw [hfirst (i + (m - j)) (by omega) c hshort] at hresult
    cases hresult
  have hnodup : ((List.range (m + 1)).map fun i => b.ancestor? codesName e (i + 1)).Nodup := by
    refine nodup_range.map_on fun i hi j hj heq => ?_
    rw [mem_range] at hi hj
    rcases Nat.lt_trichotomy i j with hij | hij | hij
    · exact absurd heq (hne i j hij (by omega))
    · exact hij
    · exact absurd heq.symm (hne j i hij (by omega))
  have hsubset : ((List.range (m + 1)).map fun i => b.ancestor? codesName e (i + 1)) ⊆
      b.table.entries.map some := by
    intro x hx
    obtain ⟨i, hi, rfl⟩ := mem_map.1 hx
    obtain ⟨y, hy⟩ := ancestor?_of_le (Nat.succ_le_of_lt (mem_range.1 hi)) hc
    rw [hy]
    exact mem_map_of_mem (mem_entries_of_ancestor? hindexed hy)
  have hlength := (subperm_of_subset hnodup hsubset).length_le
  rwa [length_map, length_map, length_range] at hlength

end

end Binder

end Binding

namespace Emit.Dart

variable {b : Binder} {settings : Settings}

private theorem eq_of_checkResultOverride {s : Shape} {r r' : Bound} {x a : Entry} {m fuel : Nat}
    {base? : Option Bound}
    (h : checkResultOverride b settings s r fuel base? = .ok ()) (hbase : base?.bind (·.declared?) = some x)
    (hfuel : m < fuel) (ha : b.ancestor? settings.errorCodesName x m = some a)
    (hr' : b.result? settings.errorCodesName a = some r')
    (hnone : ∀ i < m, ∀ y, b.ancestor? settings.errorCodesName x i = some y →
      b.result? settings.errorCodesName y = none) : typeExpr r = typeExpr r' := by
  induction m generalizing fuel base? x with
  | zero =>
    cases ha
    obtain ⟨fuel, rfl⟩ := Nat.exists_eq_add_one_of_ne_zero (Nat.ne_of_gt hfuel)
    obtain ⟨t, rfl, hdeclared⟩ := Option.bind_eq_some_iff.1 hbase
    obtain ⟨occ, as, rfl⟩ := Bound.eq_named_of_declared? hdeclared
    obtain ⟨t, ht, hresult⟩ := Binder.shapeOf_of_result? hr'
    simp only [checkResultOverride, ht, ok_bind, hresult] at h
    by_contra hne
    rw [if_neg hne] at h
    exact throw_ne_ok h
  | succ m ih =>
    obtain ⟨fuel, rfl⟩ := Nat.exists_eq_add_one_of_ne_zero (Nat.ne_of_gt (Nat.zero_lt_of_lt hfuel))
    obtain ⟨t, rfl, hdeclared⟩ := Option.bind_eq_some_iff.1 hbase
    obtain ⟨occ, as, rfl⟩ := Bound.eq_named_of_declared? hdeclared
    obtain ⟨y, hy⟩ := Binder.ancestor?_of_le (Nat.le_add_left 1 m) ha
    obtain ⟨t, ht, hnext⟩ := Binder.shapeOf_of_base? hy
    have hresult : t.result? = none := by
      rw [← Binder.result?_eq ht]
      exact hnone 0 (Nat.succ_pos m) x rfl
    simp only [checkResultOverride, ht, ok_bind, hresult] at h
    refine ih h hnext (Nat.lt_of_succ_lt_succ hfuel) (Binder.ancestor?_succ hy m ▸ ha) fun i hi z hz => ?_
    exact hnone (i + 1) (Nat.succ_lt_succ hi) z ((Binder.ancestor?_succ hy i).trans hz)

private theorem checked_of_emit {p : Program} {files : List OutputFile} (h : emit b settings p = .ok files)
    {e : Entry} (he : e ∈ b.table.entries) (hplain : e.isContainer settings.errorCodesName = false) {r : Bound}
    (hr : b.result? settings.errorCodesName e = some r) :
    ∃ s, b.shapeOf settings.errorCodesName e = .ok s ∧
      checkResultOverride b settings s r (b.table.entries.length + 1) s.base? = .ok () := by
  obtain ⟨s, hs, hresult⟩ := Binder.shapeOf_of_result? hr
  obtain ⟨-, ⟨_, _, hdecl⟩, hcontainer, -⟩ := shape_flags hs
  obtain ⟨s', text, hs', htext, -⟩ := exists_typeText h he (by rw [hdecl]; rfl)
  obtain rfl : s' = s := Except.ok.inj (hs'.symm.trans hs)
  simp only [typeText, hcontainer, hplain, Bool.false_eq_true, if_false, hresult] at htext
  obtain ⟨⟨⟩, hcheck, -⟩ := bind_eq_ok.1 htext
  exact ⟨s', hs, hcheck⟩

/-- Along the bases of emitted classes all results are written alike: where a class reaches another one through
classes that are no containers of error codes, and both have a result, the two are the same type. -/
theorem results_agree {p : Program} {targets : Typing.Targets} {overrides : List (String × String)}
    {policy : Naming.Policy} (hb : Binder.build targets overrides policy p = .ok b) {files : List OutputFile}
    (h : emit b settings p = .ok files) {d a : Entry} (hd : d ∈ b.table.entries) {n : Nat}
    (ha : b.ancestor? settings.errorCodesName d (n + 1) = some a)
    (hplain : ∀ m ≤ n, ∀ c, b.ancestor? settings.errorCodesName d m = some c →
      c.isContainer settings.errorCodesName = false)
    {r r' : Bound} (hr : b.result? settings.errorCodesName d = some r)
    (hr' : b.result? settings.errorCodesName a = some r') : typeExpr r = typeExpr r' := by
  have hindexed : ∀ q x, b.table.lookup q = some x → x ∈ b.table.entries :=
    fun _ _ => Table.mem_entries_of_lookup (Binder.build_eq_ok.1 hb).2
  -- from one class with a result to the nearest above it, until no steps are left
  induction n using Nat.strong_induction_on generalizing d r with
  | _ n ih =>
    obtain ⟨m, hmn, hlength, ⟨c, hc, hsome⟩, hnone⟩ := Binder.exists_nearest hindexed ha (by rw [hr']; rfl)
    obtain ⟨rc, hrc⟩ := Option.isSome_iff_exists.1 hsome
    obtain ⟨s, hs, hcheck⟩ := checked_of_emit h hd (hplain 0 (Nat.zero_le n) d rfl) hr
    obtain ⟨x, hx⟩ := Binder.ancestor?_of_le (Nat.le_add_left 1 n) ha
    have hnearest : typeExpr r = typeExpr rc := by
      refine eq_of_checkResultOverride hcheck ?_ (Nat.lt_succ_of_lt hlength) (Binder.ancestor?_succ hx m ▸ hc) hrc ?_
      · rw [← Binder.base?_eq hs]
        exact hx
      · exact fun i hi y hy => hnone i hi y ((Binder.ancestor?_succ hx i).trans hy)
    rw [hnearest]
    rcases Nat.eq_or_lt_of_le hmn with rfl | hlt
    · obtain rfl : c = a := Option.some.inj (hc.symm.trans ha)
      rw [Option.some.inj (hrc.symm.trans hr')]
    · obtain ⟨k, rfl⟩ := Nat.exists_eq_add_of_le (Nat.succ_le_of_lt hlt)
      have hbeyond : ∀ i, b.ancestor? settings.errorCodesName d (m + 1 + i) =
          b.ancestor? settings.errorCodesName c i := fun i => by rw [Binder.ancestor?_add, hc, Option.bind_some]
      refine ih k (by omega) (Binder.mem_entries_of_ancestor? hindexed hc) ((hbeyond (k + 1)).symm.trans ha) ?_ hrc
      exact fun i hi y hy => hplain (m + 1 + i) (Nat.add_le_add_left hi _) y ((hbeyond i).trans hy)

/-- A query, a class without a result that extends it, and a query that extends the class. -/
def counts : Program :=
  { name := "Counts"
    declarations :=
      [.type { ns := "App", name := "Count" } { kind := .query, result := some (.named "int") } [],
        .type { ns := "App", name := "Census" } { baseTypes := [some (.named "Count")] } [],
        .type { ns := "App", name := "Recount" }
          { kind := .query, baseTypes := [some (.named "Census")], result := some (.named "int") } []] }

/-- The check passes over the class without a result. -/
theorem results_agree_counts :
    ∃ b files d c a r r', Binder.build targets [] policy counts = .ok b ∧
      emit b ⟨"Counts", "ErrorCodes"⟩ counts = .ok files ∧ b.base? "ErrorCodes" d = some c ∧
      (b.result? "ErrorCodes" c).isSome = false ∧ b.base? "ErrorCodes" c = some a ∧
      b.result? "ErrorCodes" d = some r ∧ b.result? "ErrorCodes" a = some r' ∧ typeExpr r = typeExpr r' := by
  have hrun : ((Binder.build targets [] policy counts).toOption.bind fun b =>
      (emit b ⟨"Counts", "ErrorCodes"⟩ counts).toOption.bind fun _ =>
        (b.table.lookup "App.Recount").bind fun d => (b.base? "ErrorCodes" d).bind fun c =>
          (b.base? "ErrorCodes" c).bind fun a =>
            some ([d, c, a].map fun x => (x.isContainer "ErrorCodes", (b.result? "ErrorCodes" x).isSome))) =
      some [(false, true), (false, false), (false, true)] := by decide +kernel
  obtain ⟨b, hb, hrun⟩ := toOption_bind_eq_some.1 hrun
  obtain ⟨files, hfiles, hrun⟩ := toOption_bind_eq_some.1 hrun
  obtain ⟨d, hd, hrun⟩ := Option.bind_eq_some_iff.1 hrun
  obtain ⟨c, hc, hrun⟩ := Option.bind_eq_some_iff.1 hrun
  obtain ⟨a, ha, hrun⟩ := Option.bind_eq_some_iff.1 hrun
  simp only [map_cons, map_nil, Option.some.injEq, cons.injEq, Prod.mk.injEq, and_true] at hrun
  obtain ⟨⟨hdplain, hr⟩, ⟨hcplain, hnone⟩, _, hr'⟩ := hrun
  obtain ⟨r, hr⟩ := Option.isSome_iff_exists.1 hr
  obtain ⟨r', hr'⟩ := Option.isSome_iff_exists.1 hr'
  have hd := Table.mem_entries_of_lookup (Binder.build_eq_ok.1 hb).2 hd
  have hsteps : b.ancestor? "ErrorCodes" d 1 = some c ∧ b.ancestor? "ErrorCodes" d 2 = some a := by
    simp [Binder.ancestor?, hc, ha]
  refine ⟨b, files, d, c, a, r, r', hb, hfiles, hc, hnone, ha, hr, hr', ?_⟩
  refine results_agree (n := 1) hb hfiles hd hsteps.2 (fun m hm x hx => ?_) hr hr'
  rcases Nat.le_one_iff_eq_zero_or_eq_one.1 hm with rfl | rfl
  · cases hx
    exact hdplain
  · obtain rfl : c = x := Option.some.inj (hsteps.1.symm.trans hx)
    exact hcplain

end Emit.Dart

end Covenant
