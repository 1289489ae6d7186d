import Covenant.Proofs.Binding.Ancestry
import Covenant.Proofs.Compile.Generation
import Covenant.Proofs.Contract.Absence
import Covenant.Proofs.Naming.Words

/-!
# Every failure of compilation has one class

Each step of compilation is gone through once.  What is held to be impossible is: nothing is nested in a declaration
without a name, only types are asked for a shape, every constant has a value, and every route leads to an entry.  All
of this goes back to validation.
-/

namespace Covenant

open Failure (Classified)
open Outcome
open List

namespace Naming

private theorem Policy.members_classified (p : Policy) (owner : String) (wires : List String) :
    FailsOnly (fun c => c.toFailure.Classified) (p.members owner wires) := by
  have hafter : ∀ used, FailsOnly (fun c => c.toFailure.Classified) (p.membersAfter owner used wires) := by
    induction wires with
    | nil => exact fun used => .ok []
    | cons wire rest ih =>
      intro used
      rw [membersAfter]
      split
      · exact .error (Conflict.classified _ fun _ h => by cases h)
      · split
        · exact .error (Conflict.classified _ fun _ h => by cases h)
        · exact (ih _).bind fun ids _ => .ok _
  exact hafter []

end Naming

namespace Binding.Binder

open Contract (Constant TypeBody TypeRef)
open Naming (Entry)

variable {b : Binder}

private theorem bindFor_classified (context : String) (scope : Scope) (r : Option TypeRef) :
    FailsOnly Classified (b.bindFor context scope r) :=
  .mapError fun d _ => d.classified.within context

private theorem shapeParams_classified (e : Entry) (body : TypeBody) : FailsOnly Classified (b.shapeParams e body) :=
  .mapM fun _ _ => (FailsOnly.mapM fun r _ => bindFor_classified _ _ r).bind fun _ _ => .ok _

private theorem shapeBases_classified (e : Entry) (base? : Option Bound) (markers : List Bound)
    (rs : List (Option TypeRef)) :
    FailsOnly Classified (b.shapeBases e base? markers rs) := by
  induction rs generalizing base? markers with
  | nil => exact .ok _
  | cons r rs ih =>
    rw [shapeBases]
    refine (bindFor_classified _ _ r).bind fun bound _ => ?_
    split
    · exact ih _ _
    · exact ih _ _
    · exact .error ((Classified.ofMiddle _ (by decide)).withHint _)
    · exact .error (.ofMiddle _ (by decide))

private theorem firstNamed_classified (context : String) (scope : Scope) (rs : List (Option TypeRef)) :
    FailsOnly Classified (b.firstNamed context scope rs) := by
  induction rs with
  | nil => exact .ok none
  | cons r rs ih =>
    rw [firstNamed]
    refine (bindFor_classified _ _ r).bind fun bound _ => ?_
    split
    · exact .ok _
    · exact ih

private theorem chainFields_classified (e : Entry) (fuel : Nat) (seen : List String) (base? : Option Bound) :
    FailsOnly Classified (b.chainFields e fuel seen base?) := by
  induction fuel generalizing seen base? with
  | zero => exact .ok []
  | succ fuel ih =>
    rcases base? with _ | (_ | ⟨occ, base, as⟩ | _ | _ | _ | _ | _)
    case some.named =>
      rw [chainFields]
      split
      · exact .ok []
      · refine .throwIf (.ofMiddle _ (by decide)) (FailsOnly.bind ?_ fun level _ => ?_)
        · exact .mapM fun _ _ => (bindFor_classified _ _ _).bind fun _ _ => .ok _
        · exact (firstNamed_classified _ _ _).bind fun next _ => (ih _ next).bind fun _ _ => .ok _
    all_goals exact .ok []

private theorem identify_classified (owner : String) (fields : List ShapeField) :
    FailsOnly Classified (b.identify owner fields) := by
  unfold identify
  split
  · exact .error ((Classified.ofEnd _ (by decide)).withHint _)
  · exact (FailsOnly.mapError (Naming.Policy.members_classified _ _ _)).bind fun _ _ => .ok _

private theorem shapeResult_classified (e : Entry) (body : TypeBody) :
    FailsOnly Classified (b.shapeResult e body) := by
  unfold shapeResult
  split
  · exact (bindFor_classified _ _ _).bind fun _ _ => .ok _
  · split
    · exact .error (.ofEnd _ (by decide))
    · exact .ok none

private theorem shapeConstants_classified (owner : String) {cs : List Constant} (h : ∀ c ∈ cs, c.value ≠ none) :
    FailsOnly Classified (b.shapeConstants owner cs) := by
  refine (FailsOnly.mapError (Naming.Policy.members_classified _ _ _)).bind fun idents _ => ?_
  refine .mapM fun (c, ident) hc => ?_
  have hvalue := h c (of_mem_zip hc).1
  show FailsOnly Classified (shapeConstant owner c ident)
  unfold shapeConstant
  split
  · exact .ok _
  · exact .ok _
  · exact .error (.ofMiddle _ (by decide))
  · exact absurd ‹_› hvalue

section

variable (hb : ∀ q x, b.table.lookup q = some x → x.decl.WellFormed)
include hb

variable {e : Entry} {base? : Option Bound}

private theorem value_of_chainConstants {fuel : Nat} {seen : List String}
    (hbase : ∀ occ base as, base? = some (.named occ base as) → base.decl.WellFormed) :
    ∀ c ∈ b.chainConstants fuel seen base?, c.value ≠ none := by
  induction fuel generalizing seen base? with
  | zero => exact fun c hc => by cases hc
  | succ fuel ih =>
    rcases base? with _ | (_ | ⟨occ, base, as⟩ | _ | _ | _ | _ | _)
    case some.named =>
      rw [chainConstants]
      split
      · rename_i head body nested _ hdecl
        have hbody : body.WellFormed := (hbase _ _ _ rfl).body (by rw [hdecl]; rfl)
        intro c hc
        -- The base of the base was found in the table, so its declaration has been checked too.
        rcases mem_append.1 hc with hc | hc
        · refine ih (fun occ next as hnext => ?_) c hc
          obtain ⟨r, _, hr⟩ := exists_of_findSome?_eq_some hnext
          split at hr
          · rename_i hbound
            cases hr
            exact hb _ _ (lookup_of_bind hbound).1
          · cases hr
        · exact (hbody.constants c hc).2
      · exact fun c hc => by cases hc
    all_goals exact fun c hc => by cases hc

/-- The base of a type is a well-formed type. -/
theorem wellFormed_of_shapeBases {rs : List (Option TypeRef)} {markers : List Bound}
    (h : b.shapeBases e none [] rs = .ok (base?, markers)) {occ : Occurrence} {base : Entry} {as : List Bound}
    (hbase : base? = some (.named occ base as)) : base.decl.WellFormed ∧ base.decl.body?.isSome = true := by
  rcases (sorts_of_shapeBases h).base with hnone | ⟨_, _, _, heq, r, _, hr⟩
  · rw [hbase] at hnone
    cases hnone
  · rw [hbase] at heq
    cases heq
    exact ⟨hb _ _ (lookup_of_bind hr).1, (lookup_of_bind hr).2⟩

omit hb in
private theorem mem_of_mem_withoutOwn {cs : List Constant} {own : List String} {c : Constant}
    (hc : c ∈ withoutOwn own cs) :
    c ∈ cs := by
  induction cs generalizing own with
  | nil => exact hc
  | cons c' cs ih =>
    rw [withoutOwn] at hc
    split at hc
    · exact .tail _ (ih hc)
    · rcases mem_cons.1 hc with rfl | hc
      · exact .head _
      · exact .tail _ (ih hc)

private theorem value_of_declaredConstants {body : TypeBody} {errorCodes : Bool}
    (hbody : body.WellFormed) (hbase : ∀ occ base as, base? = some (.named occ base as) → base.decl.WellFormed) :
    ∀ c ∈ b.declaredConstants e body base? errorCodes, c.value ≠ none := by
  intro c hc
  unfold declaredConstants at hc
  split at hc
  · rcases mem_append.1 hc with hc | hc
    · exact value_of_chainConstants hb hbase c (mem_of_mem_withoutOwn hc)
    · exact (hbody.constants c hc).2
  · exact (hbody.constants c hc).2

/-- A well-formed type fails to have a shape only for a cause that has a class. -/
theorem shapeOf_classified (codesName : String) (he : e.decl.WellFormed)
    (htype : e.decl.body?.isSome = true) : FailsOnly Classified (b.shapeOf codesName e) := by
  unfold shapeOf
  split
  · -- An enumeration has no shape, and none is asked for.
    rename_i hdecl
    simp [hdecl, Contract.Declaration.body?] at htype
  · rename_i head body nested hdecl
    have hbody : body.WellFormed := he.body (by rw [hdecl]; rfl)
    refine (shapeParams_classified e body).bind fun _ _ => ?_
    refine (shapeBases_classified e none [] _).bind fun bases hbases => ?_
    refine (chainFields_classified e _ _ _).bind fun _ _ => FailsOnly.bind ?_ fun _ _ => ?_
    · exact .mapM fun _ _ => (bindFor_classified _ _ _).bind fun _ _ => .ok _
    · refine (identify_classified _ _).bind fun _ _ => (shapeResult_classified e body).bind fun _ _ => ?_
      refine (shapeConstants_classified _ (value_of_declaredConstants hb hbody fun occ base as h => ?_)).bind
        fun _ _ => .ok _
      exact (wellFormed_of_shapeBases hb hbases h).1

end

end Binding.Binder

namespace Emit

open Binding (Binder Bound Occurrence Shape)
open Contract (EnumMember Program)
open Naming (Entry Table)

variable {b : Binder}

section

variable (hb : ∀ q x, b.table.lookup q = some x → x.decl.WellFormed)
include hb

private theorem renderAll_classified (hentries : ∀ e ∈ b.table.entries, e.decl.WellFormed) (settings : Settings)
    (enum : Entry → List (String × EnumMember) → String) {type : Shape → Except Failure String}
    (htype : ∀ e s, b.shapeOf settings.errorCodesName e = .ok s → FailsOnly Classified (type s)) :
    FailsOnly Classified (renderAll b settings enum type) := by
  refine .mapM fun e he => Classified.mapError_within ?_ _
  split
  · refine FailsOnly.bind ?_ fun _ _ => .ok _
    exact (FailsOnly.mapError (Naming.Policy.members_classified _ _ _)).bind fun _ _ => .ok _
  · rename_i hdecl
    have hbody : e.decl.body?.isSome = true := by rw [hdecl]; rfl
    exact (Binder.shapeOf_classified hb _ (hentries e he) hbody).bind fun s hs => htype e s hs

private theorem Dart.checkResultOverride_classified (settings : Settings) (s : Shape) (result : Bound) (fuel : Nat)
    {base? : Option Bound}
    (hbase : ∀ occ base as, base? = some (.named occ base as) → base.decl.WellFormed ∧
      base.decl.body?.isSome = true) :
    FailsOnly Classified (checkResultOverride b settings s result fuel base?) := by
  induction fuel generalizing base? with
  | zero => exact .ok ()
  | succ fuel ih =>
    rcases base? with _ | (_ | ⟨occ, base, as⟩ | _ | _ | _ | _ | _)
    case some.named =>
      obtain ⟨hwf, htype⟩ := hbase _ _ _ rfl
      rw [checkResultOverride]
      refine (Binder.shapeOf_classified hb _ hwf htype).bind fun ancestor hancestor => ?_
      split
      · split
        · exact .ok ()
        · exact .error ((Classified.ofMiddle _ (by decide)).withHint _)
      · obtain ⟨_, _, _, _, parts⟩ := Binder.shapeOf_eq_ok hancestor
        exact ih fun occ base as h => Binder.wellFormed_of_shapeBases hb parts.bases h
    all_goals exact .ok ()

private theorem Dart.typeText_classified (settings : Settings) {e : Entry} {s : Shape}
    (hs : b.shapeOf settings.errorCodesName e = .ok s) : FailsOnly Classified (typeText b settings s) := by
  obtain ⟨_, _, _, _, parts⟩ := Binder.shapeOf_eq_ok hs
  unfold typeText
  split
  · exact .ok _
  · split
    · refine (checkResultOverride_classified hb settings s _ _ fun occ base as h => ?_).bind fun _ _ => .ok _
      exact Binder.wellFormed_of_shapeBases hb parts.bases h
    · exact .ok _

end

private theorem TypeScript.clash_classified {t : Table} {f : Failure} (h : functionClash? t = some f) :
    f.Classified := by
  obtain ⟨e, _, he⟩ := exists_of_findSome?_eq_some h
  split at he
  · cases he
  · obtain ⟨⟨fn, role⟩, _, hfn⟩ := exists_of_findSome?_eq_some he
    obtain ⟨other, _, rfl⟩ := Option.map_eq_some_iff.1 hfn
    exact (Classified.ofMiddle _ (by decide)).withHint _

private theorem TypeScript.clientText_classified {settings : Settings} {p : Program}
    (h : ∀ r ∈ p.routes, ∃ e, b.table.lookup r.target = some e) : FailsOnly Classified (clientText b settings p) := by
  refine FailsOnly.bind (.mapM fun r hr => ?_) fun _ _ => .ok _
  obtain ⟨e, he⟩ := h r hr
  rw [he]
  exact .ok _

private theorem Language.emit_classified (l : Language) (hb : ∀ q x, b.table.lookup q = some x → x.decl.WellFormed)
    (hentries : ∀ e ∈ b.table.entries, e.decl.WellFormed) (settings : Settings) {p : Program}
    (hroutes : ∀ r ∈ p.routes, ∃ e, b.table.lookup r.target = some e) :
    FailsOnly Classified (l.emit b settings p) := by
  cases l with
  | dart =>
    refine FailsOnly.bind ?_ fun _ _ => .ok _
    exact renderAll_classified hb hentries settings _ fun e s hs => Dart.typeText_classified hb settings hs
  | typescript =>
    show FailsOnly Classified (TypeScript.emit b settings p)
    unfold TypeScript.emit
    split
    · exact .error (TypeScript.clash_classified ‹_›)
    · refine (renderAll_classified hb hentries settings _ fun e s _ => .ok _).bind fun _ _ => ?_
      exact (TypeScript.clientText_classified hroutes).bind fun _ _ => .ok _

end Emit

namespace Compile

open Binding (Binder)
open Contract (Program)
open Emit (Language Settings)
open Naming (Entry Table)

variable {p : Program}

private theorem emitLanguage_classified (hp : ∀ v ∈ p.visits, v.Checked) (hd : p.DistinctNames)
    (o : Options) (settings : Settings) (l : Language) : FailsOnly Classified (emitLanguage o settings p l) := by
  have hkept : p.DistinctKept := hd.kept
  have hbuild : FailsOnly Classified (binderOf o p l) := by
    refine FailsOnly.bind (.mapError fun d _ => d.classified) fun types _ => FailsOnly.bind (.mapError fun c hc => ?_)
      fun _ _ => .ok _
    exact c.classified fun decl heq => Table.resolve_ne_orphan hkept decl (heq ▸ hc)
  refine hbuild.bind fun b hb => FailsOnly.bind ?_ fun _ _ => .ok _
  have htable := (Binder.build_eq_ok.1 hb).2
  have hentries : ∀ e ∈ b.table.entries, e.decl.WellFormed := by
    intro e he
    obtain ⟨names, _, _, heq⟩ := (Table.resolve_eq_ok hkept).1 htable
    rw [heq] at he
    obtain ⟨v, hv, rfl⟩ := Table.mem_entries_ofNames.1 he
    exact (hp v (mem_filter.1 hv).1).wellFormed
  refine l.emit_classified (fun q x hx => ?_) hentries settings fun r hr => ?_
  · exact hentries x (Table.mem_entries_of_lookup htable hx)
  · -- A route comes from a declaration that is kept, and those are the ones with entries.
    obtain ⟨v, hv, hq, _⟩ := Program.visit_of_route hr
    obtain ⟨e, he, _⟩ := Table.lookup_of_mem_kept hkept htable hv
    exact ⟨e, hq ▸ he⟩

private theorem generate_classified (hp : ∀ v ∈ p.visits, v.decl.Present) (o : Options) :
    FailsOnly Classified (generate p o) := by
  refine FailsOnly.bind (.mapError fun d _ => d.classified) fun languages _ => FailsOnly.bind ?_ fun _ hvalid => ?_
  · exact .mapError fun d hd => (d.classified (Program.validate_known hp d hd)).within _
  · have hvalid : p.validate = .ok () := mapError_eq_ok.1 hvalid
    refine FailsOnly.bind (.mapM fun l _ => Classified.mapError_within ?_ _) fun _ _ => .ok _
    exact emitLanguage_classified (fun v hv => Program.checked_of_validate hvalid o.exclude hv)
      (nodup_exclude hvalid o.exclude) o _ l

/-- A compilation of a program whose lists have no entries left out fails in a way that counts as one of exactly one
class.  What is held to be impossible does not occur, and a failure comes without output. -/
theorem failure_existsUnique_class (p : Program) (hp : ∀ v ∈ p.visits, v.decl.Present) (o : Options) (f : Failure)
    (h : generate p o = .error f) :
    (∃! cls, f.belongsTo cls = true) ∧ f.origin ≠ .assertion ∧ ∀ out, generate p o ≠ .ok out := by
  have hf := generate_classified hp o f h
  exact ⟨hf.existsUnique, hf.origin_ne_assertion, fun out hout => by rw [h] at hout; cases hout⟩

/-- A parcel with a label that is declared nowhere. -/
def parcel : Program :=
  { name := "Parcels"
    declarations :=
      [.type { ns := "Post", name := "Parcel" }
        { fields := [some { name := "Label", type := some (.named "Label") }] }
        []] }

/-- The label that is declared nowhere is an unresolved reference. -/
theorem failure_existsUnique_class_parcel :
    ∃ f, generate parcel {} = .error f ∧ f.belongsTo .unresolvedReference = true ∧
      ∃! cls, f.belongsTo cls = true := by
  have hpresent : ∀ v ∈ parcel.visits, v.decl.Present := by
    simp [parcel, Program.visits, Contract.visitsOf, Contract.Declaration.visits, Contract.Declaration.Present]
  have hfails : failsWith (·.belongsTo .unresolvedReference) (generate parcel {}) = true := by decide +kernel
  obtain ⟨f, hf, hclass⟩ := failsWith_eq_true.1 hfails
  exact ⟨f, hf, hclass, (failure_existsUnique_class parcel hpresent {} f hf).1⟩

end Compile

end Covenant
