import Covenant.Proofs.Compile.Introductions

/-!
# Names that type parameters capture

A class writes its type parameters and the emitted names of declarations side by side, and whoever reads it takes a
word for a type parameter first (`Referent.read`).  What the names in a type are bound to (`Language.typeReferents`)
is written word by word (`Language.words_baseType`), so a type denotes what it is bound to just if no type parameter
has the name of something else in it (`denotes_iff_uncaptured`).  Binding looks for type parameters only among names
without a namespace, and emission writes none, so a name can be captured.
-/

namespace Covenant

open Binding (Binder Bound Shape)
open Naming (Entry)
open Outcome
open List

namespace Text

section

variable {p : Char → Bool} {c d : Char} {cs : List Char}

private theorem runs_skip (hc : p c = false) : runs p (c :: cs) = runs p cs := by simp [runs, hc]

private theorem runs_end (hc : p c = true) (hcs : ∀ d ∈ cs.head?, p d = false) :
    runs p (c :: cs) = [c] :: runs p cs := by
  cases cs with
  | nil => simp [runs, hc]
  | cons d cs => rw [runs, if_pos hc, if_neg (by simpa using hcs d rfl)]

private theorem runs_extend (hc : p c = true) (hd : p d = true) (cs : List Char) :
    ∃ run rest, runs p (d :: cs) = run :: rest ∧ runs p (c :: d :: cs) = (c :: run) :: rest := by
  have hne : runs p (d :: cs) ≠ [] := by
    induction cs generalizing d with
    | nil => simp [runs, hd]
    | cons e cs ih =>
      cases he : p e with
      | true =>
        rw [runs, if_pos hd, if_pos he]
        split <;> exact cons_ne_nil _ _
      | false =>
        rw [runs_end hd (by simpa using he)]
        exact cons_ne_nil _ _
  obtain ⟨run, rest, hrun⟩ := exists_cons_of_ne_nil hne
  exact ⟨run, rest, hrun, by rw [runs, if_pos hc, if_pos hd, hrun]⟩

private theorem runs_append {xs ys : List Char} (h : (∀ c ∈ xs.getLast?, p c = false) ∨ ∀ c ∈ ys.head?, p c = false) :
    runs p (xs ++ ys) = runs p xs ++ runs p ys := by
  induction xs with
  | nil => simp [runs]
  | cons c xs ih =>
    have hlast : (∀ d ∈ xs.getLast?, p d = false) ∨ ∀ d ∈ ys.head?, p d = false := by
      cases xs with
      | nil => exact .inl (by simp)
      | cons d xs => simpa [getLast?_cons_cons] using h
    cases hc : p c with
    | false => rw [cons_append, runs_skip hc, runs_skip hc, ih hlast]
    | true =>
      cases xs with
      | nil =>
        have hhead := h.resolve_left (by simp [hc])
        rw [singleton_append, runs_end hc hhead, runs_end hc (by simp)]
        simp [runs]
      | cons d xs =>
        cases hd : p d with
        | false =>
          rw [cons_append, runs_end hc (by simp [hd]), ih hlast, runs_end hc (by simp [hd]), cons_append]
        | true =>
          obtain ⟨run, rest, hrun, hruns⟩ := runs_extend hc hd xs
          obtain ⟨run', rest', hrun', hruns'⟩ := runs_extend hc hd (xs ++ ys)
          have ih := ih hlast
          rw [cons_append, hrun', hrun, cons_append] at ih
          obtain ⟨rfl, rfl⟩ := cons.inj ih
          rw [cons_append, cons_append, hruns', hruns, cons_append]

end

/-- The words of a text: its longest pieces of identifier characters. -/
def words (s : String) : List String := (runs isIdentifierChar s.toList).map String.ofList

private theorem words_eq_singleton {s : String} (h : IsWord s) : words s = [s] := by
  rw [words, runs_of_all h.ne_nil h.chars, map_singleton, String.ofList_toList]

private theorem words_append {s t : String} (c : Char) (h : s.toList.getLast? = some c ∨ t.toList.head? = some c)
    (hc : isIdentifierChar c = false) : words (s ++ t) = words s ++ words t := by
  have hbreak : (∀ d ∈ s.toList.getLast?, isIdentifierChar d = false) ∨
      ∀ d ∈ t.toList.head?, isIdentifierChar d = false := by
    rcases h with h | h <;> simp [h, hc]
  rw [words, String.toList_append, runs_append hbreak, map_append, words, words]

private theorem words_join (ss : List String) : words (join ", " ss) = ss.flatMap words := by
  induction ss with
  | nil => rfl
  | cons s ss ih =>
    cases ss with
    | nil => simp [join]
    | cons t ss =>
      rw [join, String.intercalate_cons_of_ne_nil (cons_ne_nil _ _), String.append_assoc,
        words_append ',' (by simp) rfl, words_append ' ' (by simp) rfl, flatMap_cons, ← ih]
      rfl

end Text

namespace Emit

open Text (words words_append)

private theorem words_angled (parts : List String) : words (angled parts) = parts.flatMap words := by
  unfold angled
  split
  · rename_i h
    rw [List.isEmpty_iff.1 h]
    rfl
  · rw [words_append '>' (by simp) rfl, words_append '<' (by simp) rfl, Text.words_join]
    have hopen : words "<" = [] := by decide
    have hclose : words ">" = [] := by decide
    rw [hopen, hclose, nil_append, append_nil]

/-- What a name in a class stands for: a type parameter of the class, or something that is declared outside of it. -/
inductive Referent where
  | param (name : String)
  | outer (name : String)
  deriving DecidableEq, Repr

namespace Referent

def name : Referent → String
  | param name | outer name => name

/-- What a word stands for in a class with these type parameters: they come before everything outside. -/
def read (params : List String) (word : String) : Referent := if word ∈ params then param word else outer word

end Referent

namespace Language

def baseType : Language → Bound → String
  | dart => Dart.baseType
  | typescript => TypeScript.baseType

def typeExpr : Language → Bound → String
  | dart => Dart.typeExpr
  | typescript => TypeScript.typeExpr

/-- What the name at the head of a type stands for; lists of TypeScript have none. -/
def headReferents (l : Language) : Bound → List Referent
  | .primitive _ _ name | .marker _ name _ => [.outer name]
  | .named _ e _ | .enum _ e => [.outer e.name]
  | .param _ name => [.param name]
  | .list .. => if l = dart then [.outer "List"] else []
  | .map .. => [.outer "Map"]

def nullReferents (l : Language) (t : Bound) : List Referent :=
  if l = typescript && t.nullable && l.baseType t != "unknown" then [.outer "null"] else []

mutual

/-- What the names in a type are bound to, in the order in which they are written, without its nullability. -/
def referents (l : Language) : Bound → List Referent
  | .named occ e as => l.headReferents (.named occ e as) ++ l.argumentReferents as
  | .marker occ name as => l.headReferents (.marker occ name as) ++ l.argumentReferents as
  | .list occ element =>
    l.headReferents (.list occ element) ++ (l.referents element ++ l.nullReferents element)
  | .map occ key value => l.headReferents (.map occ key value) ++
      (l.referents key ++ l.nullReferents key) ++ (l.referents value ++ l.nullReferents value)
  | t => l.headReferents t

def argumentReferents (l : Language) : List Bound → List Referent
  | [] => []
  | a :: as => (l.referents a ++ l.nullReferents a) ++ l.argumentReferents as

end

/-- What the names in a type are bound to, in the order in which they are written. -/
def typeReferents (l : Language) (t : Bound) : List Referent := l.referents t ++ l.nullReferents t

variable {l : Language} {params : List String}

private theorem argumentReferents_eq (l : Language) (as : List Bound) :
    l.argumentReferents as = as.flatMap l.typeReferents := by
  induction as with
  | nil => rfl
  | cons a as ih => rw [argumentReferents, ih, flatMap_cons, typeReferents]

/-- What a type refers to is its head and what its children refer to. -/
theorem referents_eq (l : Language) (t : Bound) :
    l.referents t = l.headReferents t ++ t.children.flatMap l.typeReferents := by
  cases t with
  | named | marker => rw [referents, argumentReferents_eq, Bound.children]
  | list | map => simp [referents, Bound.children, typeReferents]
  | _ => simp [referents, Bound.children]

private theorem words_typeExpr (l : Language) (t : Bound) :
    words (l.typeExpr t) = words (l.baseType t) ++ (l.nullReferents t).map (·.name) := by
  cases l with
  | dart =>
    have hmark : words "?" = [] := by decide
    have htype : dart.typeExpr t = if t.nullable && dart.baseType t != "dynamic" then dart.baseType t ++ "?"
        else dart.baseType t := rfl
    simp only [htype, nullReferents, reduceCtorEq, decide_false, Bool.false_and, Bool.false_eq_true, if_false,
      map_nil, append_nil]
    split
    · rw [words_append '?' (by simp) rfl, hmark, append_nil]
    · rfl
  | typescript =>
    have hmark : words " | null" = ["null"] := by decide
    have htype : typescript.typeExpr t = if t.nullable && typescript.baseType t != "unknown" then
        typescript.baseType t ++ " | null" else typescript.baseType t := rfl
    simp only [htype, nullReferents, decide_true, Bool.true_and]
    split
    · rw [words_append ' ' (by simp) rfl, hmark]
      rfl
    · rw [map_nil, append_nil]

private theorem words_listType (element : String) : words (TypeScript.listType element) = words element := by
  have hopen : words "(" = [] := by decide
  have hclose : words ")" = [] := by decide
  have hbrackets : words "[]" = [] := by decide
  rw [TypeScript.listType, words_append '[' (by simp) rfl, hbrackets, append_nil]
  split
  · rw [words_append ')' (by simp) rfl, words_append '(' (by simp) rfl, hopen, hclose, nil_append,
      append_nil]
  · rfl

private theorem words_generic {name : String} (hname : words name = [name]) (parts : List String) :
    words (name ++ angled parts) = name :: parts.flatMap words := by
  by_cases hparts : parts = []
  · rw [hparts]
    simpa [angled] using hname
  · have hhead : (angled parts).toList.head? = some '<' := by simp [angled, hparts]
    rw [words_append '<' (.inr hhead) rfl, words_angled, hname, singleton_append]

theorem words_baseType (l : Language) (t : Bound) (ht : t.Worded) :
    words (l.baseType t) = (l.referents t).map (·.name) := by
  induction t using Bound.inductChildren with
  | step t ih =>
    have hlabel : ∀ name, t.label? = some name → words name = [name] := fun name hname =>
      Text.words_eq_singleton (ht t (.self t) name hname)
    have hchildren : t.children.flatMap (fun c => (l.typeReferents c).map (·.name)) =
        t.children.flatMap fun c => words (l.typeExpr c) := by
      refine flatMap_congr fun c hc => ?_
      rw [words_typeExpr, ih c hc (Bound.Worded.within ht (.child hc (.self c))), typeReferents, map_append]
    rw [referents_eq, map_append, map_flatMap, hchildren]
    cases t with
    | primitive | enum | param => cases l <;> exact hlabel _ rfl
    | named occ e as | marker occ e as =>
      cases l
      all_goals
        refine (congrArg (fun parts => words (_ ++ angled parts)) (TypeStyle.typeExprs_eq as)).trans ?_
        rw [words_generic (hlabel _ rfl), flatMap_map]
        rfl
    | list occ element =>
      cases l with
      | dart => exact (congrArg words (Dart.baseType_list occ element)).trans (words_generic (by decide) _)
      | typescript => exact (words_listType _).trans (by simp [headReferents, Bound.children]; rfl)
    | map occ key value =>
      cases l
      all_goals
        exact (congrArg words (TypeStyle.baseType_map occ key value)).trans (words_generic (by decide) _)

private theorem core_reserved (l : Language) : "null" ∈ l.policy.reserved ∧ "List" ∈ dart.policy.reserved ∧
    "Map" ∈ l.policy.reserved ∧ ∀ category, l.targets category ∈ l.policy.reserved := by
  cases l <;> refine ⟨by decide, by decide, by decide, fun category => ?_⟩ <;> cases category <;> decide

private theorem head_mem_typeReferents {t u : Bound} (hu : u.Within t) {r : Referent} (hr : r ∈ l.headReferents u) :
    r ∈ l.typeReferents t := by
  induction hu with
  | self =>
    rw [typeReferents, referents_eq]
    exact mem_append_left _ (mem_append_left _ hr)
  | child hc _ ih =>
    rw [typeReferents, referents_eq]
    exact mem_append_left _ (mem_append_right _ (mem_flatMap.2 ⟨_, hc, ih⟩))

private theorem name_mem_headReferents {u : Bound} {c : Entry} (hc : u.entry? = some c) :
    .outer c.name ∈ l.headReferents u := by
  cases u with
  | named | enum =>
    cases hc
    exact mem_singleton_self _
  | _ => cases hc

/-- The words of a type, read in a class with these type parameters, stand for what the type is bound to. -/
def Denotes (l : Language) (params : List String) (t : Bound) : Prop :=
  (words (l.baseType t)).map (.read params) = l.referents t ∧
    (words (l.typeExpr t)).map (.read params) = l.typeReferents t

private theorem map_read {rs : List Referent} (hparam : ∀ name, .param name ∈ rs → name ∈ params) :
    (rs.map (·.name)).map (.read params) = rs ↔ ∀ name, .outer name ∈ rs → name ∉ params := by
  have hread : (rs.map (·.name)).map (.read params) = rs ↔ ∀ r ∈ rs, Referent.read params r.name = r := by
    conv_lhs => rw [map_map, ← map_id rs, map_map]
    exact map_inj_left
  rw [hread]
  constructor
  · intro h name hname hmem
    have hsame := h _ hname
    rw [Referent.name, Referent.read, if_pos hmem] at hsame
    cases hsame
  · intro h r hr
    cases r with
    | param name => rw [Referent.name, Referent.read, if_pos (hparam name hr)]
    | outer name => rw [Referent.name, Referent.read, if_neg (h name hr)]

/-- A type with a captured name does not denote what it is bound to. -/
theorem not_denotes_of_entry {t u : Bound} (hu : u.Within t) {c : Entry} (hc : u.entry? = some c)
    (hname : c.name ∈ params) : ¬l.Denotes params t := by
  intro h
  have houter := head_mem_typeReferents hu (name_mem_headReferents (l := l) hc)
  rw [← h.2] at houter
  obtain ⟨word, _, hread⟩ := mem_map.1 houter
  unfold Referent.read at hread
  split at hread
  · cases hread
  · rename_i hword
    cases hread
    exact hword hname

/-- A type stands for what it is bound to just if no type parameter has the name of something else in it. -/
theorem denotes_iff {t : Bound} (ht : t.Worded) (hparam : ∀ name, .param name ∈ l.typeReferents t → name ∈ params) :
    l.Denotes params t ↔ ∀ name, .outer name ∈ l.typeReferents t → name ∉ params := by
  have hwords : words (l.typeExpr t) = (l.typeReferents t).map (·.name) := by
    rw [words_typeExpr, words_baseType l t ht, typeReferents, map_append]
  rw [Denotes, words_baseType l t ht, hwords, map_read hparam, map_read fun name hname =>
    hparam name (mem_append_left _ hname)]
  exact and_iff_right_of_imp fun h name hname => h name (mem_append_left _ hname)

theorem head_of_mem_typeReferents {t : Bound} {r : Referent} (h : r ∈ l.typeReferents t) :
    r = .outer "null" ∨ ∃ u : Bound, u.Within t ∧ r ∈ l.headReferents u := by
  induction t using Bound.inductChildren with
  | step t ih =>
    rw [typeReferents, referents_eq, mem_append, mem_append] at h
    rcases h with (h | h) | h
    · exact .inr ⟨t, .self t, h⟩
    · obtain ⟨c, hc, h⟩ := mem_flatMap.1 h
      rcases ih c hc h with hnull | ⟨u, hu, hr⟩
      · exact .inl hnull
      · exact .inr ⟨u, .child hc hu, hr⟩
    · unfold nullReferents at h
      split at h
      · exact .inl (mem_singleton.1 h)
      · cases h

end Language

end Emit

namespace Binding

open Emit (Language)

/-- The type that a class makes of its own type parameters. -/
def Shape.self (s : Shape) : Bound :=
  .named ⟨default, false⟩ s.entry (s.params.map fun p => .param ⟨default, false⟩ p.name)

namespace Binder

variable {b : Binder} {l : Language} {d c : Entry} {t u : Bound}

private theorem Binds.param_mem (h : b.Binds d t) {name : String} (hname : .param name ∈ l.typeReferents t) :
    name ∈ (Scope.inside d).params := by
  obtain hnull | ⟨u, hu, hhead⟩ := Language.head_of_mem_typeReferents hname
  · cases hnull
  · obtain ⟨occ, rfl⟩ : ∃ occ, u = .param occ name := by
      cases u with
      | param occ x =>
        cases mem_singleton.1 hhead
        exact ⟨occ, rfl⟩
      | list => cases l <;> simp [Language.headReferents] at hhead
      | _ => simp [Language.headReferents] at hhead
    obtain ⟨scope, ⟨head, as⟩, hscope, hr⟩ := h.within hu
    cases bind_mk_eq_ok.1 hr with
    | param hread => exact hscope ▸ (b.of_reading scope head).2.1 name hread

private theorem Binds.head_of_captured (h : b.Binds d u) (hc : u.entry? = some c)
    (hname : c.name ∈ (Scope.inside d).params) :
    u.ref.head.ns ≠ "" ∨ u.ref.head.name ≠ c.name := by
  obtain ⟨scope, ⟨head, as⟩, hscope, hr⟩ := h
  have hread : b.reading scope head = .declared c ∧ u.ref.head = head := by
    cases bind_mk_eq_ok.1 hr with
    | enum hread | named hread =>
      cases hc
      exact ⟨hread, rfl⟩
    | _ => cases hc
  rw [hread.2, ← not_and_or]
  rintro ⟨hns, hsame⟩
  refine not_param_of_reading.1 c hread.1 (by simp [hns]) ?_
  rw [hsame, hscope]
  exact hname

/-- Type parameters that are called like nothing that the language or the table has names for capture no name. -/
theorem Binds.outer_not_mem (h : b.Binds d t) (hfound : ∀ q x, b.table.lookup q = some x → x ∈ b.table.entries)
    (htargets : b.types.targets = l.targets)
    (hfree : ∀ name ∈ (Scope.inside d).params, name ∉ l.policy.reserved ∧ ∀ x ∈ b.table.entries, x.name ≠ name)
    {name : String} (hname : .outer name ∈ l.typeReferents t) : name ∉ (Scope.inside d).params := by
  intro hmem
  obtain ⟨hreserved, hentries⟩ := hfree name hmem
  obtain ⟨hnull, hlist, hmap, hcore⟩ := l.core_reserved
  obtain hword | ⟨u, hu, hhead⟩ := Language.head_of_mem_typeReferents hname
  · cases hword
    exact hreserved hnull
  · obtain ⟨scope, ⟨head, as⟩, hscope, hr⟩ := h.within hu
    cases bind_mk_eq_ok.1 hr with
    | list =>
      cases l with
      | dart =>
        cases mem_singleton.1 hhead
        exact hreserved hlist
      | typescript => cases hhead
    | map =>
      cases mem_singleton.1 hhead
      exact hreserved hmap
    | param => cases mem_singleton.1 hhead
    | primitive =>
      cases mem_singleton.1 hhead
      exact hreserved (htargets ▸ hcore _)
    | enum hread | named hread =>
      cases mem_singleton.1 hhead
      obtain ⟨q, hq⟩ := (b.of_reading scope head).1 _ hread
      exact hentries _ (hfound q _ hq) rfl
    | marker hread =>
      cases mem_singleton.1 hhead
      exact not_param_of_reading.2 name hread (hscope ▸ hmem)

end Binder

namespace Shape

variable {s : Shape}

theorem typeExpr_self (l : Language) (s : Shape) :
    l.typeExpr s.self = s.entry.name ++ Emit.paramNames s.params := by
  have harguments : ∀ typeExpr : Bound → String, (∀ name, typeExpr (.param ⟨default, false⟩ name) = name) →
      (s.params.map fun p => Bound.param ⟨default, false⟩ p.name).map typeExpr = s.params.map (·.name) := by
    intro typeExpr h
    rw [map_map]
    exact map_congr_left fun p _ => h p.name
  cases l
  all_goals
    change s.entry.name ++ Emit.angled (Emit.TypeStyle.typeExprs _ _) = _
    rw [Emit.TypeStyle.typeExprs_eq, harguments _ fun _ => rfl, Emit.paramNames]

theorem typeReferents_self (l : Language) (s : Shape) :
    l.typeReferents s.self = .outer s.entry.name :: s.paramNames.map .param := by
  have hnull : ∀ t : Bound, t.nullable = false → l.nullReferents t = [] := by
    intro t ht
    simp [Language.nullReferents, ht]
  have hparam : ∀ name, l.typeReferents (.param ⟨default, false⟩ name) = [.param name] := by
    intro name
    rw [Language.typeReferents, hnull _ rfl]
    rfl
  rw [Language.typeReferents, hnull _ rfl, append_nil, Language.referents_eq, self, Bound.children,
    flatMap_map, paramNames, map_map]
  simp only [hparam]
  rw [← map_eq_flatMap]
  rfl

private theorem Worded.self (h : s.Worded) : s.self.Worded := by
  intro u hu name hname
  cases hu with
  | self =>
    cases hname
    exact h.name
  | child hc hu =>
    obtain ⟨p, hp, rfl⟩ := mem_map.1 hc
    cases hu with
    | self =>
      cases hname
      exact h.params p hp
    | child hc => cases hc

end Shape

end Binding

namespace Compile

open Contract (Program)
open Emit (Language)

/-- The types in an emitted class are read as what they are bound to just if none of the names in them is that of a
type parameter of the class.  No reference by a bare name is captured: a declaration that is called like a type
parameter is named with its namespace, or is called differently in its program.  And type parameters capture nothing
that are called neither like a reserved word nor like a declaration. -/
theorem denotes_iff_uncaptured {p : Program} {o : Options} {out : Output} (h : generate p o = .ok out) {e : Emitted}
    (he : e ∈ out.emitted) :
    ∃ b, binderOf o (p.exclude o.exclude).1 e.language = .ok b ∧ e.table = b.table ∧
      ∀ d ∈ e.table.entries, d.decl.body?.isSome = true → ∃ s, b.shapeOf o.containerName d = .ok s ∧
        e.language.typeExpr s.self = s.entry.name ++ Emit.paramNames s.params ∧
        (∀ t ∈ s.self :: s.types, e.language.Denotes s.paramNames t ↔
          ∀ name, .outer name ∈ e.language.typeReferents t → name ∉ s.paramNames) ∧
        (∀ t ∈ s.types, ∀ u : Bound, u.Within t → ∀ c, u.entry? = some c → c.name ∈ s.paramNames →
          ¬e.language.Denotes s.paramNames t ∧ (u.ref.head.ns ≠ "" ∨ u.ref.head.name ≠ c.name)) ∧
        ((∀ name ∈ s.paramNames, name ∉ e.language.policy.reserved ∧ ∀ x ∈ e.table.entries, x.name ≠ name) →
          ∀ t ∈ s.self :: s.types, e.language.Denotes s.paramNames t) := by
  obtain ⟨b, files, hb, hfiles, heq⟩ := emitted_of_generate h he
  have hworded := worded_of_generate h hb
  have htable : e.table = b.table := (congrArg Emitted.table heq).symm
  refine ⟨b, hb, htable, fun d hd htype => ?_⟩
  rw [htable] at hd ⊢
  -- the type was emitted, so it has a shape
  obtain ⟨s, hs⟩ := Language.shapeOf_of_emit hfiles hd htype
  have hparams := Binder.paramNames_of_shapeOf hs
  have hshape := Binder.worded_of_shapeOf hworded hd hs
  have hbinds : ∀ t ∈ s.types, b.Binds d t := fun t ht => Binder.binds_of_mem_types hs ht
  have hiff : ∀ t ∈ s.self :: s.types, e.language.Denotes s.paramNames t ↔
      ∀ name, .outer name ∈ e.language.typeReferents t → name ∉ s.paramNames := by
    intro t ht
    rcases mem_cons.1 ht with rfl | ht
    · refine Language.denotes_iff hshape.self fun name hname => ?_
      simpa [Shape.typeReferents_self] using hname
    · exact Language.denotes_iff (hshape.types t ht) fun name hname => hparams ▸ (hbinds t ht).param_mem hname
  refine ⟨s, hs, Shape.typeExpr_self _ s, hiff, fun t ht u hu c hc hname => ?_, fun hfree t ht => ?_⟩
  · exact ⟨Language.not_denotes_of_entry hu hc hname,
      ((hbinds t ht).within hu).head_of_captured hc (hparams ▸ hname)⟩
  · refine (hiff t ht).2 fun name hname => ?_
    rcases mem_cons.1 ht with rfl | ht
    · obtain rfl : name = s.entry.name := by simpa [Shape.typeReferents_self] using hname
      intro hmem
      obtain ⟨_, _, _, _, parts⟩ := Binder.shapeOf_eq_ok hs
      exact (hfree _ hmem).2 d hd (by rw [parts.entry])
    · rw [hparams] at hfree ⊢
      exact (hbinds t ht).outer_not_mem hworded.found (Binder.targets_of_build hb) hfree hname

/-- Pages of things of any type, with a cover of the declared type of the given name. -/
def press (cover : String) : Program :=
  { name := "Press"
    declarations :=
      [.type { ns := "App", name := cover }
        { fields := [some { name := "Title", type := some (.named "string") }] } [],
        .type { ns := "App", name := "Page" }
          { typeParameters := [some { name := "T" }]
            fields := [some { name := "Items", type := some (.listOf (.named "T")) },
              some { name := "Cover", type := some (.within "App" cover []) }] } []] }

/-- The type parameters of pages, the names in the table and the declared types of the fields of pages. -/
def pageNames (cover : String) (l : Language) : Option (List String × List String × List (Option String)) :=
  (binderOf {} ((press cover).exclude {}).1 l).toOption.bind fun b =>
    (b.table.lookup "App.Page").bind fun d => (b.shapeOf "ErrorCodes" d).toOption.bind fun s =>
      some (s.paramNames, b.table.entries.map (·.name), s.fields.map (·.type.entry?.map (·.name)))

private theorem pageNames_eq_some {cover : String} {l : Language} {params names : List String}
    {types : List (Option String)} (h : pageNames cover l = some (params, names, types)) :
    ∃ b d s, binderOf {} ((press cover).exclude {}).1 l = .ok b ∧ d ∈ b.table.entries ∧
      d.decl.body?.isSome = true ∧ b.shapeOf "ErrorCodes" d = .ok s ∧ s.paramNames = params ∧
      b.table.entries.map (·.name) = names ∧ s.fields.map (·.type.entry?.map (·.name)) = types := by
  obtain ⟨b, hb, h⟩ := toOption_bind_eq_some.1 h
  obtain ⟨d, hd, h⟩ := Option.bind_eq_some_iff.1 h
  obtain ⟨s, hs, h⟩ := toOption_bind_eq_some.1 h
  rw [Option.some.injEq, Prod.mk.injEq, Prod.mk.injEq] at h
  obtain ⟨_, _, _, _, parts⟩ := Binder.shapeOf_eq_ok hs
  refine ⟨b, d, s, hb, ?_, by rw [parts.decl]; rfl, hs, h⟩
  exact Naming.Table.mem_entries_of_lookup (Binder.build_eq_ok.1 hb).2 hd

/-- A cover that is an image is not taken for the type parameter. -/
theorem denotes_iff_uncaptured_press :
    ∃ out, generate (press "Image") {} = .ok out ∧ out.emitted.map (·.language) = [.dart, .typescript] ∧
      ∀ e ∈ out.emitted, ∃ b d s, binderOf {} ((press "Image").exclude {}).1 e.language = .ok b ∧
        d ∈ e.table.entries ∧ b.shapeOf "ErrorCodes" d = .ok s ∧ s.paramNames = ["T"] ∧
        s.fields.map (·.type.entry?.map (·.name)) = [none, some "Image"] ∧
        ∀ t ∈ s.self :: s.types, e.language.Denotes ["T"] t := by
  have hrun :
      (generate (press "Image") {}).toOption.map (·.emitted.map (·.language)) = some [.dart, .typescript] := by
    decide +kernel
  have hpage : ∀ l, pageNames "Image" l = some (["T"], ["Image", "Page"], [none, some "Image"]) := by
    intro l
    cases l <;> decide +kernel
  have hfree : ∀ l : Language, "T" ∉ l.policy.reserved := by
    intro l
    cases l <;> decide
  obtain ⟨out, hout, hlanguages⟩ := toOption_map_eq_some.1 hrun
  refine ⟨out, hout, hlanguages, fun e he => ?_⟩
  obtain ⟨b, d, s, hb, hd, htype, hs, hparams, hnames, hfields⟩ := pageNames_eq_some (hpage e.language)
  obtain ⟨b', hb', htable, hshapes⟩ := denotes_iff_uncaptured hout he
  obtain rfl : b' = b := Except.ok.inj (hb'.symm.trans hb)
  rw [htable] at hshapes ⊢
  obtain ⟨s', hs', _, _, _, hdenotes⟩ := hshapes d hd htype
  obtain rfl : s' = s := Except.ok.inj (hs'.symm.trans hs)
  rw [hparams] at hdenotes
  refine ⟨b', d, s', hb, hd, hs, hparams, hfields, hdenotes fun name hname => ?_⟩
  obtain rfl := mem_singleton.1 hname
  refine ⟨hfree _, fun x hx hsame => ?_⟩
  have hmem : x.name ∈ b'.table.entries.map (·.name) := mem_map_of_mem hx
  rw [hnames, hsame] at hmem
  exact absurd hmem (by decide)

/-- Both languages emit a class whose type parameter captures the declared type of a field. -/
theorem captured_press :
    ∃ out, generate (press "T") {} = .ok out ∧ out.emitted.map (·.language) = [.dart, .typescript] ∧
      ∀ e ∈ out.emitted, ∃ b d s f c, binderOf {} ((press "T").exclude {}).1 e.language = .ok b ∧
        d ∈ b.table.entries ∧ b.shapeOf "ErrorCodes" d = .ok s ∧ s.paramNames = ["T"] ∧ f ∈ s.fields ∧
        f.type.entry? = some c ∧ c.name = "T" ∧ ¬e.language.Denotes s.paramNames f.type := by
  have hrun : (generate (press "T") {}).toOption.map (·.emitted.map (·.language)) = some [.dart, .typescript] := by
    decide +kernel
  have hpage : ∀ l, pageNames "T" l = some (["T"], ["Page", "T"], [none, some "T"]) := by
    intro l
    cases l <;> decide +kernel
  obtain ⟨out, hout, hlanguages⟩ := toOption_map_eq_some.1 hrun
  refine ⟨out, hout, hlanguages, fun e he => ?_⟩
  obtain ⟨b, d, s, hb, hd, _, hs, hparams, _, hfields⟩ := pageNames_eq_some (hpage e.language)
  have hcover : some "T" ∈ s.fields.map (·.type.entry?.map (·.name)) := by
    rw [hfields]
    exact .tail _ (.head _)
  obtain ⟨f, hf, hcover⟩ := mem_map.1 hcover
  obtain ⟨c, hc, hname⟩ := Option.map_eq_some_iff.1 hcover
  refine ⟨b, d, s, f, c, hb, hd, hs, hparams, hf, hc, hname, Language.not_denotes_of_entry (.self _) hc ?_⟩
  rw [hparams, hname]
  exact mem_singleton_self _

end Compile

end Covenant
