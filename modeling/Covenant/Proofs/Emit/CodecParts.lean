import Covenant.Proofs.Binding.Parts

/-!
# The parts of codec expressions

A codec expression takes no variable from the closures around it but the ones its source takes, and the classes and
enumerations that it names are those in the type.
-/

namespace Covenant.Emit

open Binding (Bound Occurrence)
open List

mutual

/-- Whether an expression uses only the given variables outside of its closures, and in every closure only its own. -/
def Expr.Scoped (vars : List String) : Expr → Prop
  | .place _ => True
  | .var name => name ∈ vars
  | .nonNull value | .convert _ value => value.Scoped vars
  | .unlessNull tested value => tested.Scoped vars ∧ value.Scoped vars
  | .construct _ value x as => value.Scoped vars ∧ Expr.ScopedAll [x] as
  | .readList _ value x body | .writeList value x body => value.Scoped vars ∧ body.Scoped [x]
  | .readMap _ _ source k v keyBody valueBody | .writeMap source k v keyBody valueBody =>
    source.Scoped vars ∧ keyBody.Scoped [k] ∧ valueBody.Scoped [v]

def Expr.ScopedAll (vars : List String) : List Expr → Prop
  | [] => True
  | e :: es => e.Scoped vars ∧ Expr.ScopedAll vars es

end

variable {vars : List String} {src : Expr}

private theorem scoped_var (x : String) : (Expr.var x).Scoped [x] := mem_singleton_self x

theorem decodeArguments_eq_map (depth : Nat) (as : List Bound) :
    decodeArguments depth as = as.map fun a => decode a (.var (elementVar depth)) (depth + 1) := by
  induction as with
  | nil => rfl
  | cons a as ih => rw [decodeArguments, ih, map_cons, decode]

private theorem scoped_guardNull {value : Expr} (t : Bound) (hsrc : src.Scoped vars) (hvalue : value.Scoped vars) :
    (guardNull t src value).Scoped vars := by
  unfold guardNull
  split
  · exact ⟨hsrc, hvalue⟩
  · exact hvalue

private theorem scoped_decodeKey (key : Bound) (hsrc : src.Scoped vars) : (decodeKey key src).Scoped vars := by
  unfold decodeKey
  split <;> exact hsrc

mutual

private theorem scoped_decodeValue : ∀ (t : Bound) {vars : List String} {src : Expr} (depth : Nat),
    src.Scoped vars → (decodeValue src depth t).Scoped vars
  | .primitive _ category _, _, _, _, hsrc => by cases category <;> exact hsrc
  | .enum _ _, _, _, _, hsrc | .param _ _, _, _, _, hsrc | .marker _ _ _, _, _, _, hsrc => hsrc
  | .named _ _ as, _, _, depth, hsrc => ⟨hsrc, scoped_decodeArguments as depth⟩
  | .list _ element, _, _, depth, hsrc =>
    ⟨hsrc, scoped_guardNull element (scoped_var _) (scoped_decodeValue element (depth + 1) (scoped_var _))⟩
  | .map _ key value, _, _, depth, hsrc =>
    ⟨hsrc, scoped_decodeKey key (scoped_var _),
      scoped_guardNull value (scoped_var _) (scoped_decodeValue value (depth + 1) (scoped_var _))⟩

private theorem scoped_decodeArguments : ∀ (as : List Bound) (depth : Nat),
    Expr.ScopedAll [elementVar depth] (decodeArguments depth as)
  | [], _ => trivial
  | a :: as, depth =>
    ⟨scoped_guardNull a (scoped_var _) (scoped_decodeValue a (depth + 1) (scoped_var _)),
      scoped_decodeArguments as depth⟩

end

theorem encodeValue_list {style : EncodeStyle} {occ : Occurrence} {element : Bound}
    (h : writesAsIs style (.list occ element) = false) (src : Expr) (depth : Nat) :
    encodeValue style src depth (.list occ element) =
      .writeList src (elementVar depth) (encode style element (.var (elementVar depth)) (depth + 1)) := by
  rw [writesAsIs] at h
  simp [encodeValue, encode, h]

theorem encodeValue_map {style : EncodeStyle} {occ : Occurrence} {key value : Bound}
    (h : writesAsIs style (.map occ key value) = false) (src : Expr) (depth : Nat) :
    encodeValue style src depth (.map occ key value) =
      .writeMap src (keyVar depth) (valueVar depth) (encodeKey key (.var (keyVar depth)))
        (encode style value (.var (valueVar depth)) (depth + 1)) := by
  rw [writesAsIs] at h
  simp [encodeValue, encode, h]

namespace Expr

def children : Expr → List Expr
  | place _ | var _ => []
  | nonNull value | convert _ value => [value]
  | unlessNull tested value => [tested, value]
  | construct _ value _ as => value :: as
  | readList _ value _ body | writeList value _ body => [value, body]
  | readMap _ _ source _ _ keyBody valueBody | writeMap source _ _ keyBody valueBody => [source, keyBody, valueBody]

theorem inductChildren {P : Expr → Prop} (step : ∀ e, (∀ c ∈ e.children, P c) → P e) (e : Expr) : P e :=
  step e fun c _ => inductChildren step c
termination_by sizeOf e
decreasing_by
  rename_i hc
  cases e with
  | construct cls value x as =>
    rcases mem_cons.1 hc with rfl | hc
    · simp only [construct.sizeOf_spec]
      omega
    · have hlt := sizeOf_lt_of_mem hc
      simp only [construct.sizeOf_spec]
      omega
  | _ => simp only [children, mem_cons, not_mem_nil, or_false] at hc <;> grind

/-- An expression occurs in another, or is it. -/
inductive Within : Expr → Expr → Prop
  | self (e : Expr) : Within e e
  | child {u c e : Expr} : c ∈ e.children → Within u c → Within u e

theorem within_iff {u e : Expr} : u.Within e ↔ u = e ∨ ∃ c ∈ e.children, u.Within c := by
  constructor
  · rintro (_ | ⟨hc, hu⟩)
    · exact .inl rfl
    · exact .inr ⟨_, hc, hu⟩
  · rintro (rfl | ⟨c, hc, hu⟩)
    · exact .self u
    · exact .child hc hu

/-- The names of the variables of closures. -/
def IsVariable (x : String) : Prop := ∃ depth, x = elementVar depth ∨ x = keyVar depth ∨ x = valueVar depth

/-- What a conversion names occurs in the type. -/
def ConversionFrom (t : Bound) : Conversion → Prop
  | .member name | .keyMember name => ∃ occ e, (Bound.enum occ e).Within t ∧ name = e.name
  | .parameter name => ∃ occ, (Bound.param occ name).Within t
  | _ => True

/-- What the expression itself names occurs in the type; its parts do not matter. -/
def From (t : Bound) : Expr → Prop
  | place _ => False
  | var x => IsVariable x
  | nonNull _ | unlessNull .. => True
  | convert c _ => ConversionFrom t c
  | construct cls _ x _ => (∃ occ e as, (Bound.named occ e as).Within t ∧ cls = e.name) ∧ IsVariable x
  | readList element _ x _ => element.Within t ∧ IsVariable x
  | readMap key value _ k v _ _ => key.Within t ∧ value.Within t ∧ IsVariable k ∧ IsVariable v
  | writeList _ x _ => IsVariable x
  | writeMap _ k v _ _ => IsVariable k ∧ IsVariable v

variable {t c : Bound} {src u : Expr}

private theorem From.of_child (h : u.From c) (hc : c ∈ t.children) : u.From t := by
  cases u with
  | convert conversion =>
    cases conversion with
    | member | keyMember =>
      obtain ⟨occ, e, hwithin, hname⟩ := h
      exact ⟨occ, e, .child hc hwithin, hname⟩
    | parameter =>
      obtain ⟨occ, hwithin⟩ := h
      exact ⟨occ, .child hc hwithin⟩
    | _ => trivial
  | construct =>
    obtain ⟨⟨occ, e, as, hwithin, hname⟩, hx⟩ := h
    exact ⟨⟨occ, e, as, .child hc hwithin, hname⟩, hx⟩
  | readList => exact ⟨.child hc h.1, h.2⟩
  | readMap => exact ⟨.child hc h.1, .child hc h.2.1, h.2.2⟩
  | _ => exact h

private theorem isVariable_element (depth : Nat) : IsVariable (elementVar depth) := ⟨depth, .inl rfl⟩

private theorem isVariable_key (depth : Nat) : IsVariable (keyVar depth) := ⟨depth, .inr (.inl rfl)⟩

private theorem isVariable_value (depth : Nat) : IsVariable (valueVar depth) := ⟨depth, .inr (.inr rfl)⟩

/-- Every part of the expression is a part of the source, or names only what occurs in the type. -/
def Made (src : Expr) (t : Bound) (e : Expr) : Prop := ∀ u : Expr, u.Within e → u.Within src ∨ u.From t

namespace Made

variable {e value : Expr}

private theorem source (src : Expr) (t : Bound) : Made src t src := fun _ => .inl

private theorem node (h : e.From t) (hchildren : ∀ c ∈ e.children, Made src t c) : Made src t e := by
  intro u hu
  rcases within_iff.1 hu with rfl | ⟨c, hc, hu⟩
  · exact .inr h
  · exact hchildren c hc u hu

/-- The first part is the source itself. -/
theorem onSource {rest : List Expr} (h : e.From t) (he : e.children = src :: rest)
    (hrest : ∀ c ∈ rest, Made src t c) : Made src t e := .node h (he ▸ forall_mem_cons.2 ⟨source src t, hrest⟩)

theorem convert {conversion : Conversion} (h : ConversionFrom t conversion) :
    Made src t (Expr.convert conversion src) := .onSource h rfl (forall_mem_nil _)

private theorem trans {mid : Expr} (h : Made mid t e) (hmid : Made src t mid) : Made src t e :=
  fun u hu => (h u hu).elim (hmid u) .inr

/-- What is made of a variable for a child. -/
theorem ofVariable {x : String} (hx : IsVariable x) (h : Made (var x) c e) (hc : c ∈ t.children) : Made src t e := by
  intro u hu
  rcases h u hu with h | h
  · rcases within_iff.1 h with rfl | ⟨_, hnone, _⟩
    · exact .inr hx
    · cases hnone
  · exact .inr (h.of_child hc)

end Made

private theorem made_decodeKey : Made src t (decodeKey t src) := by
  unfold decodeKey
  split
  · exact .convert ⟨_, _, .self _, rfl⟩
  · exact .convert trivial
  · exact .convert trivial
  · exact .convert trivial
  · exact .source src _

private theorem made_guardNull {value : Expr} (h : Made src t value) : Made src t (guardNull t src value) := by
  unfold guardNull
  split
  · exact .onSource trivial rfl (forall_mem_singleton.2 h)
  · exact h

private theorem made_decode (t : Bound) (src : Expr) (depth : Nat) : Made src t (decode t src depth) := by
  induction t using Bound.inductChildren generalizing src depth with
  | step t ih =>
    -- a part that reads a child from a variable
    have hchild {c : Bound} {x : String} {depth : Nat} (hc : c ∈ t.children) (hx : IsVariable x) :
        Made src t (decode c (.var x) depth) := .ofVariable hx (ih c hc _ depth) hc
    refine made_guardNull ?_
    cases t with
    | primitive occ category target =>
      cases category with
      | dynamic => exact .source src _
      | _ => exact .convert trivial
    | enum occ e => exact .convert ⟨occ, e, .self _, rfl⟩
    | param occ name => exact .convert ⟨occ, .self _⟩
    | marker => exact .source src _
    | named occ e as =>
      rw [decodeValue, decodeArguments_eq_map]
      refine .onSource ⟨⟨occ, e, as, .self _, rfl⟩, isVariable_element depth⟩ rfl fun c hc => ?_
      obtain ⟨a, ha, rfl⟩ := mem_map.1 hc
      exact hchild ha (isVariable_element depth)
    | list occ element =>
      have helement := Bound.element_mem_children occ element
      exact .onSource ⟨.child helement (.self _), isVariable_element depth⟩ rfl
        (forall_mem_singleton.2 (hchild helement (isVariable_element depth)))
    | map occ key value =>
      have hkey : key ∈ (Bound.map occ key value).children := (.head _)
      have hvalue := Bound.value_mem_children occ key value
      refine .onSource ⟨.child hkey (.self _), .child hvalue (.self _), isVariable_key depth, isVariable_value depth⟩
        rfl (forall_mem_cons.2 ⟨.ofVariable (isVariable_key depth) made_decodeKey hkey, ?_⟩)
      exact forall_mem_singleton.2 (hchild hvalue (isVariable_value depth))

/-- A part of a reader is one of its source, or comes from the type. -/
theorem within_decode {depth : Nat} (h : u.Within (decode t src depth)) : u.Within src ∨ u.From t :=
  made_decode t src depth u h

private theorem made_encodeKey : Made src t (encodeKey t src) := by
  unfold encodeKey
  split
  · exact .convert trivial
  · exact .convert trivial
  · exact .convert trivial
  · exact .convert trivial
  · exact .source src _

private theorem made_testedSource (style : EncodeStyle) (src : Expr) : Made src t (testedSource style t src) := by
  unfold testedSource
  split
  · exact .onSource trivial rfl (forall_mem_nil _)
  · exact .source src t

private theorem made_encode (style : EncodeStyle) (t : Bound) (src : Expr) (depth : Nat) :
    Made src t (encode style t src depth) := by
  induction t using Bound.inductChildren generalizing src depth with
  | step t ih =>
    have hchild {src : Expr} {c : Bound} {x : String} {depth : Nat} (hc : c ∈ t.children) (hx : IsVariable x) :
        Made src t (encode style c (.var x) depth) := .ofVariable hx (ih c hc _ depth) hc
    cases has : writesAsIs style t with
    | true =>
      rw [encode, if_pos has]
      exact .source src t
    | false =>
      have hvalue (src : Expr) : Made src t (encodeValue style src depth t) := by
        cases t with
        | primitive occ category target =>
          cases category with
          | datetime | dynamic => exact .convert trivial
          | _ => exact .source src _
        | list occ element =>
          rw [encodeValue_list has]
          exact .onSource (isVariable_element depth) rfl (forall_mem_singleton.2
            (hchild (Bound.element_mem_children occ element) (isVariable_element depth)))
        | map occ key value =>
          rw [encodeValue_map has]
          refine .onSource ⟨isVariable_key depth, isVariable_value depth⟩ rfl (forall_mem_cons.2
            ⟨.ofVariable (isVariable_key depth) made_encodeKey (.head _), forall_mem_singleton.2 ?_⟩)
          exact hchild (Bound.value_mem_children occ key value) (isVariable_value depth)
        | _ => exact .convert trivial
      have hbody := (hvalue _).trans (made_testedSource style src)
      simp only [encode, has, Bool.false_eq_true, ↓reduceIte]
      split
      · exact .onSource trivial rfl (forall_mem_singleton.2 hbody)
      · exact hbody

theorem within_encode {style : EncodeStyle} {depth : Nat} (h : u.Within (encode style t src depth)) :
    u.Within src ∨ u.From t := made_encode style t src depth u h

end Expr

namespace Language

def exprText : Language → Expr → String
  | dart => Dart.exprText
  | typescript => TypeScript.exprText

def argumentTexts : Language → String → List Expr → String
  | dart => Dart.argumentTexts
  | typescript => TypeScript.argumentTexts

end Language

end Covenant.Emit
