import Mathlib.Tactic.Choose
import Covenant.Proofs.Emit.CodecParts
import Covenant.Proofs.Emit.Values

/-!
# Codecs round-trip

The expression that `encode` builds for a type writes a value as the emitted helper for values of unknown type does,
and the expression that `decode` builds reads such a value back, unless a closure variable hides a name that it looks
up.
-/

namespace Covenant.Emit

open Binding (Binder Bound Occurrence Scope)
open Contract (TypeRef)
open Naming (Entry)
open List

variable {D : Domain} {l : Language} {R : Runtime D} {env : Env D} {v : Value D}

/-- The names that are hidden inside of a closure over the variable. -/
def hiddenBy (x : String) (hidden : String → Bool) (name : String) : Bool := name == x || hidden name

mutual

/-- Whether no name that an expression looks up is hidden, from outside or by the variable of a closure around it. -/
def Expr.Resolves (l : Language) (hidden : String → Bool) : Expr → Prop
  | .var _ => True
  | .place text => hidden text = false
  | .nonNull value => value.Resolves l hidden
  | .unlessNull tested value => tested.Resolves l hidden ∧ value.Resolves l hidden
  | .convert c value => (Expr.convert c value).obscured l hidden = false ∧ value.Resolves l hidden
  | .construct cls value x as => (Expr.construct cls value x as).obscured l hidden = false ∧
      value.Resolves l hidden ∧ Expr.ResolvesAll l (hiddenBy x hidden) as
  | .readList element value x body =>
    (Expr.readList element value x body).obscured l hidden = false ∧ value.Resolves l hidden ∧
      body.Resolves l (hiddenBy x hidden)
  | .readMap key value source k v keyBody valueBody =>
    (Expr.readMap key value source k v keyBody valueBody).obscured l hidden = false ∧ source.Resolves l hidden ∧
      keyBody.Resolves l (hiddenBy v (hiddenBy k hidden)) ∧ valueBody.Resolves l (hiddenBy v (hiddenBy k hidden))
  | .writeList value x body => value.Resolves l hidden ∧ body.Resolves l (hiddenBy x hidden)
  | .writeMap source k v keyBody valueBody => source.Resolves l hidden ∧
      keyBody.Resolves l (hiddenBy v (hiddenBy k hidden)) ∧ valueBody.Resolves l (hiddenBy v (hiddenBy k hidden))

def Expr.ResolvesAll (l : Language) (hidden : String → Bool) : List Expr → Prop
  | [] => True
  | e :: es => e.Resolves l hidden ∧ Expr.ResolvesAll l hidden es

end

/-- Whether values of the type are read and written by their type: it is neither opaque JSON nor a marker, and the
keys of a dictionary are not null. -/
def hasCodec : Bound → Bool
  | .primitive _ category _ => category != .dynamic
  | .map _ key _ => !key.nullable
  | .marker .. => false
  | _ => true

/-- Types with codecs whose dictionaries have keys that can be written. -/
def Codable (t : Bound) : Prop := t.every hasCodec = true ∧ t.every Bound.hasKeys = true

theorem Codable.child {t c : Bound} (h : Codable t) (hc : c ∈ t.children) : Codable c :=
  ⟨(Bound.every_eq_true.1 h.1).2 c hc, (Bound.every_eq_true.1 h.2).2 c hc⟩

private theorem Codable.readsAsIs {t : Bound} (h : Codable t) : readsAsIs t = false := by
  have ht := (Bound.every_eq_true.1 h.1).1
  cases t with
  | primitive occ category target => cases category <;> simp_all [hasCodec, Emit.readsAsIs]
  | marker => cases ht
  | _ => rfl

theorem Codable.key {occ : Occurrence} {key value : Bound} (h : Codable (.map occ key value)) :
    key.isKey = true ∧ key.nullable = false := by
  have hcodec : (!key.nullable) = true := (Bound.every_eq_true.1 h.1).1
  have hkeys : key.isKey = true := (Bound.every_eq_true.1 h.2).1
  exact ⟨hkeys, by simpa using hcodec⟩

variable {t : Bound} {key : Bound} {occ : Occurrence} {src : Expr}

/-- Whether a value that is written at run time is read back by the expression that `read` makes of a source, where
its names are not hidden. -/
def ReadsBack (l : Language) (R : Runtime D) (read : Expr → Nat → Expr) (v : Value D) : Prop :=
  ∃ j w, R.anyJson l v = some j ∧ v.Same l w ∧
    ∀ (env : Env D) src depth, (read src depth).Resolves l env.hides → eval l R env src = some j →
      eval l R env (read src depth) = some w

private theorem ReadsBack.decode_null (hcodable : Codable t) (hnull : t.nullable = true) :
    ReadsBack l R (decode t) .null := by
  refine ⟨.null, .null, rfl, .refl l _, fun env src depth _ hsrc => ?_⟩
  rw [decode, guardNull, hnull, hcodable.readsAsIs]
  exact eval_unlessNull_null hsrc

theorem ReadsBack.decode {t : Bound} (hcodable : Codable t)
    (h : ReadsBack l R (fun src depth => decodeValue src depth t) v) : ReadsBack l R (decode t) v := by
  obtain ⟨j, w, hj, hsame, hread⟩ := h
  -- a type parameter may stand for a type with null, which the test for null then takes
  by_cases hnull : t.nullable = true ∧ j = .null
  · obtain ⟨hnull, rfl⟩ := hnull
    rw [Runtime.eq_null_of_anyJson hj]
    exact .decode_null hcodable hnull
  · refine ⟨j, w, hj, hsame, fun env src depth hseen hsrc => ?_⟩
    rw [Emit.decode, guardNull, hcodable.readsAsIs, Bool.not_false, Bool.and_true] at hseen ⊢
    split at hseen
    · rename_i ht
      rw [if_pos ht, eval_unlessNull_of_ne hsrc fun hj => hnull ⟨ht, hj⟩]
      exact hread env src depth hseen.2 hsrc
    · rename_i ht
      rw [if_neg ht]
      exact hread env src depth hseen hsrc

end Covenant.Emit
