import Covenant.Proofs.Contract.Exclusion
import Covenant.Proofs.Naming.NameTable
import Covenant.Proofs.Text.Identifiers

/-!
# Emitted names are identifiers

The names of a valid program are identifiers, and so is everything that naming makes of them.  Nesting and escaping
both leave an underscore in a name, and no language reserves a word with an underscore, so emitted names are not
reserved either (`Table.usable_names`).
-/

namespace Covenant

open Contract (Declaration Program TypeBody Visit)
open Emit (Language)
open Outcome
open Text
open List

namespace Contract

variable {v : Visit}

theorem Visit.Checked.wellFormed (h : v.Checked) : v.decl.WellFormed := (checked_iff.1 h).2

theorem Visit.Checked.isWord_param (h : v.Checked) {body : TypeBody} (hbody : v.decl.body? = some body)
    {name : String} (hname : name ∈ body.parameterNames) : IsWord name := by
  obtain ⟨p, hp, rfl⟩ := mem_map.1 hname
  obtain ⟨q, hq, rfl⟩ := mem_filterMap.1 hp
  obtain ⟨_, heq, hidentifier, _⟩ := (h.wellFormed.body hbody).parameters _ hq
  obtain rfl := Option.some.inj heq
  exact isWord_of_isIdentifier hidentifier

/-- What exclusion leaves of a valid program passes its checks. -/
theorem Program.checked_of_validate {p : Program} (h : p.validate = .ok ()) (rules : ExcludeRules)
    (hv : v ∈ (p.exclude rules).1.visits) : v.Checked := by
  exact (Contract.checkVisits_eq_ok.1 (Program.validate_eq_ok.1 (validate_exclude h rules)).2.1).2.2 v hv

theorem Program.isWord_name {p : Program} (h : p.validate = .ok ()) : IsWord p.name := by
  simp only [Program.validate, throwIf_eq_ok] at h
  exact isWord_of_isIdentifier (by simpa using h.1)

end Contract

namespace Naming

/-- The characters that a policy adds can stand in an identifier. -/
structure Policy.Plain (p : Policy) : Prop where
  separator : Over isIdentifierChar p.nestedSeparator
  suffix : Over isIdentifierChar p.escapeSuffix

/-- The policies of both languages add identifier characters only. -/
theorem plain_policy (l : Language) (unmangled : List String) : (l.policy.extend unmangled).completed.Plain := by
  have hunderscore : Over isIdentifierChar "_" := .ofList rfl
  cases l <;> exact ⟨hunderscore, hunderscore⟩

variable {p : Policy}

private theorem Policy.Plain.isIdentifier_identifier (hp : p.Plain) {name : String}
    (h : isIdentifier name = true) :
    isIdentifier (p.identifier name) = true := by
  unfold identifier
  split
  · exact isIdentifier_append h hp.suffix
  · exact h

namespace Table

variable {program : Program} {policy : Policy} {t : Table}

private theorem isIdentifier_mangledName {v : Visit} (hv : v.Checked) (htop : v.parents = []) (d : Nat) :
    isIdentifier (mangledName (segments v) v.decl.name d) = true := by
  refine isIdentifier_join_append (fun s hs => ?_) hv.wellFormed.head.name
  have hs := mem_reverse.1 (mem_of_mem_take hs)
  obtain ⟨decl, parents⟩ := v
  obtain rfl : parents = [] := htop
  unfold segments at hs
  split at hs
  · cases hs
  · rename_i hns
    exact hv.wellFormed.head.segments (fun h => hns (by simp [Visit.ns, Declaration.ns, h])) s hs

/-- What holds of the names that top-level declarations may get, and is kept by nesting, holds of all names. -/
theorem name_induction (hchecked : ∀ v ∈ program.visits, v.Checked) (hd : program.DistinctKept)
    (ht : resolve program policy = .ok t) {P : String → Prop}
    (hverbatim : ∀ name ∈ policy.unmangled, isIdentifier name = true → P name)
    (hidentifier : ∀ name, isIdentifier name = true → P (policy.completed.identifier name))
    (hnested : ∀ outer name, P outer → isIdentifier name = true →
      P (outer ++ policy.completed.nestedSeparator ++ name)) {e : Entry} (he : e ∈ t.entries) : P e.name := by
  obtain ⟨names, hnames, _, rfl⟩ := (resolve_eq_ok hd).1 ht
  obtain ⟨v, hv, rfl⟩ := mem_entries_ofNames.1 he
  clear he
  show P (emittedName _ names v)
  -- from the outermost declaration inwards
  induction hn : v.parents.length generalizing v with
  | zero =>
    have hchecked := hchecked v (mem_filter.1 hv).1
    have hparents := length_eq_zero_iff.1 hn
    have htop : v ∈ tops program := mem_filter.2 ⟨hv, by simp [hparents]⟩
    have hnamed := named_of_assignTop (hd.sublist (filter_sublist.map _)) hnames
    rcases hnamed.exists_name htop with hname | ⟨d, hname⟩
    · rw [emittedName_of_mem hnamed.distinct hparents hname]
      unfold ownName
      split
      · rename_i hverb
        exact hverbatim _ (contains_iff_mem.1 hverb) hchecked.wellFormed.head.name
      · exact hidentifier _ hchecked.wellFormed.head.name
    · rw [emittedName_of_mem hnamed.distinct hparents hname]
      exact hidentifier _ (isIdentifier_mangledName hchecked hparents d)
  | succ n ih =>
    obtain ⟨u, hu⟩ := Option.ne_none_iff_exists'.1 fun h => by
      rw [Visit.outer?_eq_none.1 h] at hn
      cases hn
    have hlen : u.parents.length = n := by
      rw [Visit.outer?_eq_some.1 hu] at hn
      simpa using hn
    rw [emittedName_of_outer? hu]
    exact hnested _ _ (ih u (Program.outer?_mem_kept hv hu) hlen)
      (hchecked v (mem_filter.1 hv).1).wellFormed.head.name

theorem isIdentifier_name (hp : policy.completed.Plain) (hchecked : ∀ v ∈ program.visits, v.Checked)
    (hd : program.DistinctKept) (ht : resolve program policy = .ok t) {e : Entry}
    (he : e ∈ t.entries) : isIdentifier e.name = true := by
  refine name_induction hchecked hd ht (P := (isIdentifier · = true)) (fun _ _ h => h)
    (fun _ => hp.isIdentifier_identifier) (fun outer name houter hname => ?_) he
  exact isIdentifier_append (isIdentifier_append houter hp.separator) (over_of_isIdentifier hname)

end Table

namespace Policy

variable {wire : String}

private theorem identifier_ne_empty {name : String} (h : name ≠ "") : p.identifier name ≠ "" := by
  unfold identifier
  split
  · simp [h]
  · exact h

private theorem member_of_ne (h : toIdentifier wire ≠ "") :
    p.member wire = p.identifier (toIdentifier wire) := by
  unfold member
  dsimp only
  rw [if_neg (by rwa [String.isEmpty_iff])]

private theorem member_ne_empty : p.member wire ≠ "" ↔ toIdentifier wire ≠ "" := by
  refine ⟨fun h hempty => h ?_, fun h => member_of_ne h ▸ identifier_ne_empty h⟩
  simp [member, hempty]

theorem Plain.isIdentifier_member (hp : p.Plain) (h : p.member wire ≠ "") :
    isIdentifier (p.member wire) = true := by
  have hne := member_ne_empty.1 h
  rw [member_of_ne hne]
  exact hp.isIdentifier_identifier (isIdentifier_toIdentifier hne)

/-- Members get identifiers exactly if every wire name has an identifier character and no two of them get the same. -/
theorem members_eq_ok {owner : String} {wires idents : List String} :
    p.members owner wires = .ok idents ↔
      idents = wires.map (fun wire => p.identifier (toIdentifier wire)) ∧
        (∀ wire ∈ wires, ∃ c ∈ wire.toList, isIdentifierChar c = true) ∧
        (wires.map fun wire => p.identifier (toIdentifier wire)).Nodup := by
  have hmap : (∀ wire ∈ wires, ∃ c ∈ wire.toList, isIdentifierChar c = true) →
      wires.map p.member = wires.map fun wire => p.identifier (toIdentifier wire) := fun h =>
    map_congr_left fun wire hwire => member_of_ne (toIdentifier_ne_empty.2 (h wire hwire))
  have hchars : (∀ wire ∈ wires, p.member wire ≠ "" ∧ p.member wire ∉ ([] : List (String × String)).map (·.1)) ↔
      ∀ wire ∈ wires, ∃ c ∈ wire.toList, isIdentifierChar c = true := by
    simp [← toIdentifier_ne_empty, member_ne_empty]
  rw [members, membersAfter_eq_ok, hchars]
  constructor
  · rintro ⟨rfl, hwires, hnodup⟩
    exact ⟨hmap hwires, hwires, hmap hwires ▸ hnodup⟩
  · rintro ⟨rfl, hwires, hnodup⟩
    exact ⟨(hmap hwires).symm, hwires, (hmap hwires).symm ▸ hnodup⟩

theorem isWord_of_membersAfter (hp : p.Plain) {owner : String} {used : List (String × String)}
    {wires idents : List String} (h : p.membersAfter owner used wires = .ok idents) {ident : String}
    (hident : ident ∈ idents) : IsWord ident := by
  obtain ⟨rfl, hnew, _⟩ := membersAfter_eq_ok.1 h
  obtain ⟨wire, hwire, rfl⟩ := mem_map.1 hident
  exact isWord_of_isIdentifier (hp.isIdentifier_member (hnew wire hwire).1)

/-- An identifier that the language does not reserve. -/
def Usable (p : Policy) (name : String) : Prop := isIdentifier name = true ∧ name ∉ p.reserved

/-- What the policy adds to names has an underscore, and what it reserves has none. -/
structure Underscored (p : Policy) : Prop where
  separator : '_' ∈ p.nestedSeparator.toList
  suffix : '_' ∈ p.escapeSuffix.toList
  reserved : ∀ word ∈ p.reserved, '_' ∉ word.toList

private theorem usable_identifier (hp : p.Plain) (hu : p.Underscored) {name : String}
    (h : isIdentifier name = true) :
    p.Usable (p.identifier name) := by
  refine ⟨hp.isIdentifier_identifier h, fun hreserved => ?_⟩
  unfold identifier at hreserved
  split at hreserved
  · refine hu.reserved _ hreserved ?_
    rw [String.toList_append]
    exact mem_append_right _ hu.suffix
  · rename_i hname
    exact hname (contains_iff_mem.2 hreserved)

private theorem usable_nested (hp : p.Plain) (hu : p.Underscored) {outer name : String} (houter : p.Usable outer)
    (h : isIdentifier name = true) : p.Usable (outer ++ p.nestedSeparator ++ name) := by
  refine ⟨isIdentifier_append (isIdentifier_append houter.1 hp.separator) (over_of_isIdentifier h),
    fun hreserved => hu.reserved _ hreserved ?_⟩
  simp only [String.toList_append, mem_append]
  exact .inl (.inr hu.separator)

end Policy

private theorem underscored_policy (l : Language) (unmangled : List String) :
    (l.policy.extend unmangled).completed.Underscored := by
  have hreserved : l.policy.reserved.all (!·.toList.contains '_') = true := by cases l <;> decide +kernel
  have hwords : ∀ word ∈ l.policy.reserved, '_' ∉ word.toList := by
    intro word hword
    simpa using all_eq_true.1 hreserved word hword
  have hunderscore : '_' ∈ "_".toList := by decide
  cases l <;> exact ⟨hunderscore, hunderscore, hwords⟩

private theorem markerNames_not_reserved (l : Language) : ∀ name ∈ l.policy.unmangled, name ∉ l.policy.reserved := by
  have h : l.policy.unmangled.all (!l.policy.reserved.contains ·) = true := by cases l <;> decide +kernel
  intro name hname
  simpa using all_eq_true.1 h name hname

private theorem Table.usable_name {program : Program} {policy : Policy} {t : Table} (hp : policy.completed.Plain)
    (hu : policy.completed.Underscored) (hunmangled : ∀ name ∈ policy.unmangled, name ∉ policy.reserved)
    (hchecked : ∀ v ∈ program.visits, v.Checked) (hd : program.DistinctKept)
    (ht : resolve program policy = .ok t) {e : Entry} (he : e ∈ t.entries) : policy.completed.Usable e.name := by
  exact name_induction hchecked hd ht (fun name hname h => ⟨h, hunmangled name hname⟩)
    (fun _ => Policy.usable_identifier hp hu) (fun _ _ => Policy.usable_nested hp hu) he

/-- Emitted names can be used in the language: they are identifiers that it does not reserve.  Members get such names
exactly if every wire name has an identifier character and they do not clash. -/
theorem Table.usable_names (program : Program) (l : Language) (unmangled : List String)
    (hvalid : program.validate = .ok ()) (hunmangled : ∀ name ∈ unmangled, name ∉ l.policy.reserved) :
    let p := (l.policy.extend unmangled).completed
    (∀ t, resolve program (l.policy.extend unmangled) = .ok t →
      t.policy = p ∧ ∀ e ∈ t.entries, l.policy.Usable e.name) ∧
    ∀ owner wires,
      ((∃ idents, p.members owner wires = .ok idents) ↔
        (∀ wire ∈ wires, ∃ c ∈ wire.toList, isIdentifierChar c = true) ∧
          (wires.map fun wire => p.identifier (toIdentifier wire)).Nodup) ∧
      ∀ idents, p.members owner wires = .ok idents →
        idents = wires.map (fun wire => p.identifier (toIdentifier wire)) ∧ idents.Nodup ∧
          ∀ ident ∈ idents, l.policy.Usable ident := by
  intro p
  have hp : p.Plain := plain_policy l unmangled
  have hu : p.Underscored := underscored_policy l unmangled
  refine ⟨fun t ht => ?_, fun owner wires => ⟨?_, fun idents hidents => ?_⟩⟩
  · have hd := (Program.nodup_of_validate hvalid).kept
    obtain ⟨names, _, _, hnames⟩ := (resolve_eq_ok hd).1 ht
    have hchecked := (Contract.checkVisits_eq_ok.1 (Program.validate_eq_ok.1 hvalid).2.1).2.2
    refine ⟨hnames ▸ rfl, fun e he => usable_name hp hu (fun name hname => ?_) hchecked hd ht he⟩
    exact (mem_append.1 hname).elim (markerNames_not_reserved l name) (hunmangled name)
  · constructor
    · rintro ⟨idents, hidents⟩
      exact (Policy.members_eq_ok.1 hidents).2
    · exact fun h => ⟨_, Policy.members_eq_ok.2 ⟨rfl, h⟩⟩
  · obtain ⟨rfl, hwires, hnodup⟩ := Policy.members_eq_ok.1 hidents
    refine ⟨rfl, hnodup, fun ident hident => ?_⟩
    obtain ⟨wire, hwire, rfl⟩ := mem_map.1 hident
    have hne := toIdentifier_ne_empty.2 (hwires wire hwire)
    exact Policy.usable_identifier hp hu (isIdentifier_toIdentifier hne)

/-- A type with the name of a core type, and another one in it. -/
def parcels : Program :=
  { name := "Parcels"
    declarations :=
      [.type { ns := "Post", name := "List" } {} [.type { name := "Item" } {} []],
        .type { ns := "Post.Air", name := "Label" } {} [], .type { ns := "Post.Sea", name := "Label" } {} []] }

/-- Names in Dart that had to be escaped, and the one of a nested type. -/
theorem Table.usable_names_parcels : let p := (Language.dart.policy.extend ["Route"]).completed
    parcels.validate = .ok () ∧ (∀ name ∈ ["Route"], name ∉ Language.dart.policy.reserved) ∧
      (∃ t, resolve parcels (Language.dart.policy.extend ["Route"]) = .ok t ∧
        t.entries.map (·.name) = ["AirLabel", "List_", "List__Item", "SeaLabel"] ∧
        ∀ e ∈ t.entries, Language.dart.policy.Usable e.name) ∧
      (∃ idents, p.members "Post.List" ["HTTP code", "1st", "class"] = .ok idents ∧
        idents = ["httpCode", "n1st", "class_"] ∧ ∀ ident ∈ idents, Language.dart.policy.Usable ident) ∧
      ¬∃ idents, p.members "Post.List" ["class", "Class_"] = .ok idents := by
  have hvalid : parcels.validate = .ok () := by decide +kernel
  have hroute : ∀ name ∈ ["Route"], name ∉ Language.dart.policy.reserved := by
    have hfree : Language.dart.policy.reserved.contains "Route" = false := by decide +kernel
    simpa using hfree
  obtain ⟨htable, hmembers⟩ := usable_names parcels .dart ["Route"] hvalid hroute
  have hnames : ((resolve parcels (Language.dart.policy.extend ["Route"])).toOption.map fun t =>
      t.entries.map (·.name)) = some ["AirLabel", "List_", "List__Item", "SeaLabel"] := by
    decide +kernel
  obtain ⟨t, ht, hnames⟩ := toOption_map_eq_some.1 hnames
  obtain ⟨hiff, husable⟩ := hmembers "Post.List" ["HTTP code", "1st", "class"]
  have hchars : (["HTTP code", "1st", "class"].all (·.toList.any isIdentifierChar)) = true := by decide +kernel
  simp only [all_eq_true, any_eq_true] at hchars
  obtain ⟨idents, hidents⟩ := hiff.2 ⟨hchars, by decide +kernel⟩
  obtain ⟨rfl, _, hidentifiers⟩ := husable idents hidents
  refine ⟨hvalid, hroute, ⟨t, ht, hnames, (htable t ht).2⟩, ⟨_, hidents, by decide +kernel, hidentifiers⟩,
    fun h => ?_⟩
  have hnodup := ((hmembers "Post.List" ["class", "Class_"]).1.1 h).2
  revert hnodup
  decide +kernel

end Naming

end Covenant
