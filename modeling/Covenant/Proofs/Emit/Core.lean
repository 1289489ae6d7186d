import Covenant.Proofs.Binding.Nameless
import Covenant.Proofs.Emit.CodecParts

/-!
# Emitted text shows the core of declarations

The text of a type shows the emitted names of the entries it refers to and nothing of their declarations, so it can be
printed from the core of its shape.
-/

namespace Covenant.Emit

open Binding (Binder Bound Shape ShapeField ShapeParam)
open Naming (Entry Table)
open Outcome
open List

section

variable (style : EncodeStyle) (t : Bound) (src value : Expr) (depth : Nat)

@[simp] theorem readsAsIs_core : readsAsIs t.core = readsAsIs t := by cases t <;> rfl

@[simp] theorem decodeKey_core : decodeKey t.core src = decodeKey t src := by cases t <;> rfl

@[simp] theorem guardNull_core : guardNull t.core src value = guardNull t src value := by
  rw [guardNull, guardNull, Bound.nullable_core, readsAsIs_core]

@[simp] theorem keyAsIs_core : keyAsIs t.core = keyAsIs t := by cases t <;> rfl

@[simp] theorem encodeKey_core : encodeKey t.core src = encodeKey t src := by cases t <;> rfl

@[simp] theorem testedSource_core : testedSource style t.core src = testedSource style t src := by
  rw [testedSource, testedSource, Bound.nullable_core]

@[simp] theorem writesAsIs_core : ∀ t : Bound, writesAsIs style t.core = writesAsIs style t
  | .list occ element => by rw [Bound.core, writesAsIs, writesAsIs, writesAsIs_core element]
  | .map occ key v => by rw [Bound.core, writesAsIs, writesAsIs, keyAsIs_core, writesAsIs_core v]
  | .primitive .. | .named .. | .enum .. | .param .. | .marker .. => rfl

private theorem encodeValue_core : ∀ (t : Bound) (src : Expr) (depth : Nat),
    encodeValue style src depth t.core = encodeValue style src depth t
  | .list occ element, src, depth => by
    simp only [Bound.core, encodeValue, writesAsIs_core, testedSource_core, Bound.nullable_core,
      encodeValue_core element]
  | .map occ key v, src, depth => by
    simp only [Bound.core, encodeValue, writesAsIs_core, keyAsIs_core, encodeKey_core, testedSource_core,
      Bound.nullable_core, encodeValue_core v]
  | .primitive .., _, _ | .named .., _, _ | .enum .., _, _ | .param .., _, _ | .marker .., _, _ => rfl

@[simp] theorem encode_core : encode style t.core src depth = encode style t src depth := by
  simp only [encode, writesAsIs_core, testedSource_core, Bound.nullable_core, encodeValue_core]

end

namespace Expr

mutual

def core : Expr → Expr
  | place text => place text
  | var name => var name
  | nonNull value => nonNull value.core
  | unlessNull tested value => unlessNull tested.core value.core
  | convert c value => convert c value.core
  | construct cls value x as => construct cls value.core x (coreAll as)
  | readList element value x body => readList element.core value.core x body.core
  | readMap key value source k v keyBody valueBody =>
    readMap key.core value.core source.core k v keyBody.core valueBody.core
  | writeList value x body => writeList value.core x body.core
  | writeMap source k v keyBody valueBody => writeMap source.core k v keyBody.core valueBody.core

def coreAll : List Expr → List Expr
  | [] => []
  | e :: es => e.core :: coreAll es

end

end Expr

private theorem core_guardNull (t : Bound) (src value : Expr) :
    (guardNull t src value).core = guardNull t src.core value.core := by
  rw [guardNull, guardNull]
  split <;> rfl

private theorem core_decodeKey (t : Bound) (src : Expr) : (decodeKey t src).core = decodeKey t src.core := by
  cases t with
  | primitive occ category target => cases category <;> rfl
  | named | enum | param | list | map | marker => rfl

mutual

private theorem decodeValue_core : ∀ (t : Bound) (src : Expr) (depth : Nat),
    decodeValue src.core depth t.core = (decodeValue src depth t).core
  | .primitive _ category _, _, _ => by cases category <;> rfl
  | .enum .., _, _ | .param .., _, _ | .marker .., _, _ => rfl
  | .named _ e as, src, depth => by
    rw [Bound.core, decodeValue, decodeValue, decodeArguments_core as depth]
    rfl
  | .list _ element, src, depth => by
    have helement := decodeValue_core element (.var (elementVar depth)) (depth + 1)
    rw [Bound.core, decodeValue, decodeValue, guardNull_core, Expr.core, core_guardNull, ← helement]
    rfl
  | .map _ key value, src, depth => by
    have hvalue := decodeValue_core value (.var (valueVar depth)) (depth + 1)
    rw [Bound.core, decodeValue, decodeValue, guardNull_core, decodeKey_core, Expr.core, core_guardNull,
      core_decodeKey, ← hvalue]
    rfl

private theorem decodeArguments_core : ∀ (ts : List Bound) (depth : Nat),
    decodeArguments depth (Bound.coreAll ts) = Expr.coreAll (decodeArguments depth ts)
  | [], _ => rfl
  | t :: ts, depth => by
    have ht := decodeValue_core t (.var (elementVar depth)) (depth + 1)
    rw [Bound.coreAll, decodeArguments, decodeArguments, guardNull_core, decodeArguments_core ts depth, Expr.coreAll,
      core_guardNull, ← ht]
    rfl

end

private theorem decode_core (t : Bound) (src : Expr) (depth : Nat) :
    decode t.core src.core depth = (decode t src depth).core := by
  rw [decode, decode, guardNull_core, core_guardNull, decodeValue_core]

private theorem enumMembers_core (b : Binder) (e : Entry) (members : List (Option Contract.EnumMember)) :
    enumMembers b.core e.core members = enumMembers b e members := rfl

private theorem paramNames_core (params : List ShapeParam) :
    paramNames (params.map ShapeParam.core) = paramNames params := by
  rw [paramNames, paramNames, map_map]
  rfl

private theorem ownFields_core (s : Shape) : s.core.ownFields = s.ownFields.map ShapeField.core := by
  rw [Shape.ownFields, Shape.ownFields, Shape.core, filter_map]
  rfl

@[simp] theorem isRemote_core (s : Shape) : s.core.isRemote = s.isRemote := rfl

private theorem renderAll_core {b : Binder} (hb : b.table.Coherent) (settings : Settings)
    {enum : Entry → List (String × Contract.EnumMember) → String} {type type' : Shape → Except Failure String}
    (henum : ∀ e members, enum e.core members = enum e members) (htype : ∀ s, type' s.core = type s) :
    renderAll b.core settings enum type' = renderAll b settings enum type := by
  rw [renderAll, renderAll]
  show (b.table.entries.map Entry.core).mapM _ = _
  rw [List.mapM_map]
  congr 1
  funext e
  simp only [Function.comp_apply, Entry.core_decl, Entry.core_qualified]
  cases e.decl with
  | enum head members => simp only [Contract.Declaration.core, enumMembers_core, henum]
  | type head body nested =>
    simp only [Contract.Declaration.core, Binder.shapeOf_core hb, bind_map_left, htype]

namespace TypeStyle

variable (s : TypeStyle)

private theorem markNullable_core (t : Bound) (base : String) :
    s.markNullable t.core base = s.markNullable t base := by
  rw [markNullable, markNullable, Bound.nullable_core]

mutual

private theorem baseType_core : ∀ t : Bound, s.baseType t.core = s.baseType t
  | .primitive .. | .enum .. | .param .. => rfl
  | .named _ e as => by rw [Bound.core, baseType, baseType, typeExprs_core as, Entry.core_name]
  | .marker _ name as => by rw [Bound.core, baseType, baseType, typeExprs_core as]
  | .list _ element => by rw [Bound.core, baseType, baseType, markNullable_core, baseType_core element]
  | .map _ key value => by
    rw [Bound.core, baseType, baseType, markNullable_core, markNullable_core, baseType_core key, baseType_core value]

private theorem typeExprs_core : ∀ ts : List Bound, s.typeExprs (Bound.coreAll ts) = s.typeExprs ts
  | [] => rfl
  | t :: ts => by rw [Bound.coreAll, typeExprs, typeExprs, markNullable_core, baseType_core t, typeExprs_core ts]

end

private theorem typeExpr_core (t : Bound) : s.typeExpr t.core = s.typeExpr t := by
  rw [typeExpr, typeExpr, markNullable_core, baseType_core]

private theorem classText_core (start params : String) (shape : Shape) (members : List String) :
    s.classText start params shape.core members = s.classText start params shape members := by
  have hmarkers : s.baseType ∘ Bound.core = s.baseType := funext s.baseType_core
  unfold classText
  simp only [Shape.core_entry, Entry.core_name, Shape.core_markers, map_map, hmarkers, isEmpty_map,
    Shape.core_base?]
  cases shape.base? with
  | none => rfl
  | some base => simp [baseType_core]

end TypeStyle

@[simp] theorem Dart.baseType_core (t : Bound) : Dart.baseType t.core = Dart.baseType t := types.baseType_core t

@[simp] theorem Dart.typeExpr_core (t : Bound) : Dart.typeExpr t.core = Dart.typeExpr t := types.typeExpr_core t

@[simp] theorem TypeScript.baseType_core (t : Bound) : TypeScript.baseType t.core = TypeScript.baseType t :=
  types.baseType_core t

@[simp] theorem TypeScript.typeExpr_core (t : Bound) : TypeScript.typeExpr t.core = TypeScript.typeExpr t :=
  types.typeExpr_core t

namespace Language

private theorem argumentTexts_core (l : Language) (x : String) {as : List Expr}
    (h : ∀ a ∈ as, l.exprText a.core = l.exprText a) :
    l.argumentTexts x (Expr.coreAll as) = l.argumentTexts x as := by
  induction as with
  | nil => rfl
  | cons a as ih =>
    have ha := h a (.head _)
    have has := ih fun a' ha' => h a' (.tail a ha')
    rw [Expr.coreAll]
    cases l
    all_goals
      dsimp only [exprText, argumentTexts] at *
      first
        | unfold Dart.argumentTexts
        | unfold TypeScript.argumentTexts
      rw [ha, has]

private theorem exprText_core (l : Language) (e : Expr) : l.exprText e.core = l.exprText e := by
  induction e using Expr.inductChildren with
  | step e ih =>
    cases e
    all_goals
      simp only [Expr.children, mem_cons, not_mem_nil, or_false, forall_eq_or_imp, forall_eq] at ih
      rw [Expr.core]
    case' construct x as => have harguments := l.argumentTexts_core x ih.2
    all_goals
      cases l
      all_goals
        dsimp only [exprText, argumentTexts] at *
        first
          | unfold Dart.exprText
          | unfold TypeScript.exprText
        simp only [*, Dart.typeExpr_core, TypeScript.typeExpr_core]

end Language

variable {b : Binder} {settings : Settings} {p : Contract.Program} (s : Shape) (t : Bound)

namespace Dart

@[simp] theorem decodeText_core (place : String) : decodeText t.core place = decodeText t place := by
  have h := decode_core t (.place place) 0
  exact (congrArg exprText h).trans (Language.dart.exprText_core _)

@[simp] theorem encodeText_core (place : String) : encodeText t.core place = encodeText t place := by
  rw [encodeText, encodeText, encode_core]

private theorem typeParams_core (params : List ShapeParam) :
    typeParams (params.map ShapeParam.core) = typeParams params := by
  rw [typeParams, typeParams, map_map]
  congr 2
  funext p
  obtain ⟨name, constraints⟩ := p
  cases constraints <;> simp [ShapeParam.core]

private theorem constructor_core : constructor s.core = constructor s := by
  have hfield : constructorField ∘ ShapeField.core = constructorField := by
    funext f
    unfold constructorField
    simp
  unfold constructor
  simp only [Shape.core_entry, Shape.core_fields, Entry.core_name, map_map, hfield, isEmpty_map]

private theorem fromJson_core : fromJson s.core = fromJson s := by
  have hfield : decodedField ∘ ShapeField.core = decodedField := by
    funext f
    unfold decodedField
    simp
  unfold fromJson
  simp only [Shape.core_entry, Shape.core_params, Shape.core_fields, Entry.core_name, paramNames_core,
    map_map, hfield, isEmpty_map]
  rfl

private theorem toJson_core : toJson s.core = toJson s := by
  have hfield : encodedField ∘ ShapeField.core = encodedField := by
    funext f
    unfold encodedField
    simp
  unfold toJson
  simp only [Shape.core_base?, Option.isSome_map, ownFields_core, map_map, hfield]

private theorem classMembers_core : classMembers s.core = classMembers s := by
  have hfield : (fun f : ShapeField => "  final " ++ typeExpr f.type ++ " " ++ f.ident ++ ";") ∘ ShapeField.core =
      fun f => "  final " ++ typeExpr f.type ++ " " ++ f.ident ++ ";" := by
    funext f
    simp
  unfold classMembers
  simp only [constructor_core, fromJson_core, toJson_core, ownFields_core, map_map, hfield,
    Shape.core_constants, Shape.core_entry, Entry.core_qualified, Shape.core_result?, isRemote_core]
  cases s.result? with
  | none => rfl
  | some result =>
    unfold resultFactory
    simp

private theorem classText_core : classText s.core = classText s := by
  rw [classText, classText, TypeStyle.classText_core, classMembers_core, Shape.core_params, typeParams_core]

private theorem checkResultOverride_core (hb : b.table.Coherent) (result : Bound) (fuel : Nat)
    (base? : Option Bound) :
    checkResultOverride b.core settings s.core result.core fuel (base?.map Bound.core) =
      checkResultOverride b settings s result fuel base? := by
  induction fuel generalizing base? with
  | zero => rfl
  | succ fuel ih =>
    cases base? with
    | none => rfl
    | some bound =>
      cases bound with
      | named occ base as =>
        show checkResultOverride b.core settings s.core result.core (fuel + 1)
          (some (.named occ base.core (Bound.coreAll as))) = _
        rw [checkResultOverride, checkResultOverride]
        simp only [Binder.shapeOf_core hb, bind_map_left, Shape.core_result?, Shape.core_base?]
        refine bind_congr fun ancestor => ?_
        cases ancestor.result? with
        | none => exact ih ancestor.base?
        | some expected => simp
      | primitive | enum | param | list | map | marker => rfl

private theorem typeText_core (hb : b.table.Coherent) :
    typeText b.core settings s.core = typeText b settings s := by
  unfold typeText
  simp only [Shape.core_errorCodes, Shape.core_result?, Shape.core_base?, Binder.length_entries_core,
    classText_core]
  split
  · rfl
  · cases s.result? with
    | none => rfl
    | some result => simp only [Option.map_some, checkResultOverride_core s hb]

theorem emit_core (hb : b.table.Coherent) :
    emit b.core settings p = emit b settings p := by
  unfold emit
  rw [renderAll_core hb settings (fun _ _ => rfl) fun s => typeText_core s hb]

end Dart

namespace TypeScript

@[simp] theorem decodeText_core (place : String) : decodeText t.core place = decodeText t place := by
  have h := decode_core t (.place place) 0
  exact (congrArg exprText h).trans (Language.typescript.exprText_core _)

@[simp] theorem encodeText_core (place : String) : encodeText t.core place = encodeText t place := by
  rw [encodeText, encodeText, encode_core]

private theorem typeParams_core (params : List ShapeParam) :
    typeParams (params.map ShapeParam.core) = typeParams params := by
  have hbase : baseType ∘ Bound.core = baseType := funext baseType_core
  rw [typeParams, typeParams, map_map]
  congr 2
  funext p
  simp [hbase]

private theorem selfType_core : selfType s.core = selfType s := by
  rw [selfType, selfType, Shape.core_entry, Shape.core_params, paramNames_core, Entry.core_name]

private theorem constructor_core : constructor s.core = constructor s := by
  unfold constructor
  simp only [selfType_core, Shape.core_base?, Option.isSome_map]

private theorem toJson_core : toJson s.core = toJson s := by
  have hfield : encodedField ∘ ShapeField.core = encodedField := by
    funext f
    unfold encodedField
    simp
  unfold toJson
  simp only [Shape.core_base?, Option.isSome_map, ownFields_core, map_map, hfield]

private theorem getFullName_core : getFullName s.core = getFullName s := rfl

private theorem classMembers_core : classMembers s.core = classMembers s := by
  have hfield : fieldText ∘ ShapeField.core = fieldText := by
    funext f
    unfold fieldText
    simp
  unfold classMembers
  simp only [isRemote_core, Shape.core_entry, Entry.core_qualified, Shape.core_constants, ownFields_core,
    map_map, hfield, constructor_core, toJson_core, getFullName_core]
  rfl

private theorem fromJson_core : fromJson s.core = fromJson s := by
  have hfield : decodedField ∘ ShapeField.core = decodedField := by
    funext f
    unfold decodedField
    simp
  unfold fromJson
  simp only [selfType_core, Shape.core_entry, Entry.core_name, Shape.core_params, typeParams_core,
    Shape.core_fields, map_map, hfield, isEmpty_map]
  rfl

private theorem classText_core : classText s.core = classText s := by
  rw [classText, classText, TypeStyle.classText_core, classMembers_core, Shape.core_params, typeParams_core]

private theorem typeText_core : typeText s.core = typeText s := by
  have hresult : resultFactory s.core ∘ Bound.core = resultFactory s := by
    funext result
    unfold resultFactory
    simp
  unfold typeText
  simp only [Shape.core_errorCodes, classText_core, fromJson_core, Shape.core_result?, Option.map_map, hresult]
  rfl

private theorem functionClash?_core (t : Table) : functionClash? t.core = functionClash? t := by
  have hclash : ∀ e fn role, ((t.entries.map Entry.core).find? (·.name == fn)).map (clash · e.core fn role) =
      (t.entries.find? (·.name == fn)).map (clash · e fn role) := by
    intro e fn role
    rw [find?_map, Option.map_map]
    rfl
  unfold functionClash?
  simp only [Table.core, findSome?_map]
  congr 1
  funext e
  simp only [Function.comp_apply, Entry.core_decl, Entry.core_name, hclash]
  cases e.decl <;> rfl

private theorem clientText_core (hb : b.table.Coherent) :
    clientText b.core settings p = clientText b settings p := by
  have hrouted : ∀ routes, routedClasses b.core routes = routedClasses b routes := by
    intro routes
    rw [routedClasses, routedClasses]
    congr 1
    funext r
    have hlookup : b.core.table.lookup r.target = _ := Table.lookup_core hb r.target
    rw [hlookup]
    cases b.table.lookup r.target <;> rfl
  unfold clientText
  rw [hrouted]

theorem emit_core (hb : b.table.Coherent) :
    emit b.core settings p = emit b settings p := by
  have hclash : functionClash? b.core.table = functionClash? b.table := functionClash?_core b.table
  unfold emit
  rw [hclash, clientText_core hb,
    renderAll_core hb settings (fun _ _ => rfl) fun s => congrArg Except.ok (typeText_core s)]

end TypeScript

/-- A language emits the same files from a binder and from its core. -/
theorem Language.emit_core (l : Language) (hb : b.table.Coherent) :
    l.emit b.core settings p = l.emit b settings p := by
  cases l with
  | dart => exact Dart.emit_core hb
  | typescript => exact TypeScript.emit_core hb

end Covenant.Emit
