import Covenant.Compile.Generate
import Covenant.Proofs.Outcome

/-!
# What is rendered

A file of declarations has a block for every entry of the table.  `Rendered` says once what the block of an entry can
be.
-/

namespace Covenant.Emit

open Binding (Binder Shape)
open Contract (DeclHead EnumMember Program)
open Naming (Entry)
open Outcome

/-- The block of an entry: an enumeration with its members, or a type with its shape. -/
inductive Rendered (b : Binder) (settings : Settings) (enum : Entry → List (String × EnumMember) → String)
    (type : Shape → Except Failure String) (e : Entry) : String → Prop
  | enum {head : DeclHead} {members : List (Option EnumMember)} {named : List (String × EnumMember)} :
      e.decl = .enum head members → enumMembers b e members = .ok named →
      Rendered b settings enum type e (enum e named)
  | type {s : Shape} {text : String} : e.decl.body?.isSome = true →
      b.shapeOf settings.errorCodesName e = .ok s → type s = .ok text → Rendered b settings enum type e text

theorem renderAll_eq_ok {b : Binder} {settings : Settings} {enum : Entry → List (String × EnumMember) → String}
    {type : Shape → Except Failure String} {texts : List String} (h : renderAll b settings enum type = .ok texts) :
    List.Forall₂ (Rendered b settings enum type) b.table.entries texts := by
  refine (mapM_eq_ok.1 h).imp fun e text htext => ?_
  have htext := mapError_eq_ok.1 htext
  split at htext
  · rename_i head members hdecl
    obtain ⟨named, hnamed, htext⟩ := bind_eq_ok.1 htext
    rw [← pure_eq_ok.1 htext]
    exact .enum hdecl hnamed
  · rename_i head body nested hdecl
    obtain ⟨s, hs, htext⟩ := bind_eq_ok.1 htext
    exact .type (by simp [hdecl, Contract.Declaration.body?]) hs htext

theorem Rendered.exists_shape {b : Binder} {settings : Settings}
    {enum : Entry → List (String × EnumMember) → String} {type : Shape → Except Failure String} {e : Entry}
    {text : String} (h : Rendered b settings enum type e text) (he : e.decl.body?.isSome = true) :
    ∃ s, b.shapeOf settings.errorCodesName e = .ok s := by
  cases h with
  | enum hdecl _ => simp [hdecl, Contract.Declaration.body?] at he
  | type _ hs _ => exact ⟨_, hs⟩

section

variable {b : Binder} {settings : Settings} {p : Program} {files : List OutputFile}

theorem Dart.emit_eq_ok (h : Dart.emit b settings p = .ok files) :
    ∃ texts, List.Forall₂ (Rendered b settings Dart.enumText (Dart.typeText b settings)) b.table.entries texts ∧
      files = [{ name := settings.programName ++ ".dart"
                 content := Text.joinBlocks [Dart.header p, Dart.helpers (Text.joinBlocks texts),
                   Text.joinBlocks texts] ++ "\n" }] := by
  obtain ⟨texts, htexts, h⟩ := bind_eq_ok.1 h
  exact ⟨texts, renderAll_eq_ok htexts, (pure_eq_ok.1 h).symm⟩

theorem TypeScript.emit_eq_ok (h : TypeScript.emit b settings p = .ok files) :
    TypeScript.functionClash? b.table = none ∧
    ∃ texts client,
      List.Forall₂
        (Rendered b settings TypeScript.enumText fun s => .ok (TypeScript.typeText s)) b.table.entries texts ∧
      TypeScript.clientText b settings p = .ok client ∧
      files = [{ name := settings.programName ++ ".ts"
                 content := Text.joinBlocks [TypeScript.header p, TypeScript.helpers (Text.joinBlocks texts),
                   Text.joinBlocks texts] ++ "\n" },
        { name := settings.programName ++ "Client.ts"
          content := Text.joinBlocks [TypeScript.header p, client] ++ "\n" }] := by
  unfold TypeScript.emit at h
  split at h
  · exact absurd h (by simp [bind_eq_ok, throw_ne_ok])
  · rename_i hclash
    obtain ⟨texts, htexts, h⟩ := bind_eq_ok.1 h
    obtain ⟨client, hclient, h⟩ := bind_eq_ok.1 h
    refine ⟨?_, texts, client, renderAll_eq_ok htexts, hclient, (pure_eq_ok.1 h).symm⟩
    cases hc : TypeScript.functionClash? b.table with
    | none => rfl
    | some failure => exact absurd hc (hclash failure)

/-- Every type that is emitted has a shape. -/
theorem Language.shapeOf_of_emit {l : Language} (h : l.emit b settings p = .ok files) {e : Entry}
    (he : e ∈ b.table.entries) (htype : e.decl.body?.isSome = true) :
    ∃ s, b.shapeOf settings.errorCodesName e = .ok s := by
  cases l with
  | dart =>
    obtain ⟨texts, htexts, _⟩ := Dart.emit_eq_ok h
    obtain ⟨text, _, htext⟩ := exists_of_mem_right htexts.flip he
    exact htext.exists_shape htype
  | typescript =>
    obtain ⟨_, texts, _, htexts, _⟩ := TypeScript.emit_eq_ok h
    obtain ⟨text, _, htext⟩ := exists_of_mem_right htexts.flip he
    exact htext.exists_shape htype

end

end Covenant.Emit
