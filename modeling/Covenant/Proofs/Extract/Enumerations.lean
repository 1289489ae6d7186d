import Covenant.Proofs.Extract.Declarations

/-!
# Enumerations of an extracted program

The members of an enumeration are the exported constants of exactly its type, in the order of their values.  Values
are numbers of any size until they are narrowed to 64 bits with a sign at the end, so only what fits is kept: a
constant of an unsigned type from 2⁶³ on becomes negative.
-/

namespace Covenant.Extract

open Contract Source Extraction
open List
open Text

variable {s : Site} {p : Package} {prog : Program} {name : String}

/-- The exported constants of exactly one type of a package. -/
def constantsOf (w : World) (p : Package) (name : String) : List ConstSpec :=
  p.constants.filter fun c => isExported c.name && (w.unalias c.type).same (.named (typeName p name) [])

def valueOf (c : ConstSpec) : Int := World.intOf c.value

private theorem perm_orderedConstants (hnames : (p.constants.map (·.name)).Nodup) :
    p.orderedConstants.Perm p.constants := by
  have hfound {n : String} {c : ConstSpec} : p.constant? n = some c ↔ c ∈ p.constants ∧ c.name = n :=
    find?_key_eq_some hnames
  have hnodup : p.orderedConstants.Nodup := by
    refine (nodup_sortedSet _).filterMap fun n n' c hn hn' => ?_
    rw [← (hfound.1 hn).2, (hfound.1 hn').2]
  refine (perm_ext_iff_of_nodup hnodup (Nodup.of_map _ hnames)).2 fun c => ?_
  simp only [Package.orderedConstants, mem_filterMap, mem_sortedSet, mem_map, hfound]
  constructor
  · rintro ⟨_, -, hc, -⟩
    exact hc
  · intro hc
    exact ⟨c.name, ⟨c, hc, rfl⟩, hc, rfl⟩

def asMember (name : String) (c : ConstSpec) : World.Member :=
  { name := World.memberName c.name name, value := c.value }

/-- Of two constants, the one with the smaller value comes first. -/
def constantBefore (name : String) (a b : ConstSpec) : Bool := World.memberBefore (asMember name a) (asMember name b)

private theorem constantBefore_eq_true {a b : ConstSpec} : constantBefore name a b = true ↔ valueOf a < valueOf b ∨
    valueOf a = valueOf b ∧ World.memberName a.name name ≤ World.memberName b.name name := by
  simp only [constantBefore, World.memberBefore, Bool.or_eq_true, Bool.and_eq_true, beq_iff_eq, before_eq_true,
    asMember, valueOf]
  exact or_congr_left decide_eq_true_iff

private theorem pairwise_sortBy_constantBefore (cs : List ConstSpec) :
    (sortBy (constantBefore name) cs).Pairwise fun a b => valueOf a ≤ valueOf b := by
  have htotal : Std.Total fun a b => constantBefore name a b = true := by
    refine ⟨fun a b => ?_⟩
    rw [constantBefore_eq_true, constantBefore_eq_true]
    rcases lt_trichotomy (valueOf a) (valueOf b) with h | h | h
    · exact .inl (.inl h)
    · exact (le_total (World.memberName a.name name) (World.memberName b.name name)).imp (fun hle => .inr ⟨h, hle⟩)
        fun hle => .inr ⟨h.symm, hle⟩
    · exact .inr (.inl h)
  have htrans : IsTrans ConstSpec fun a b => constantBefore name a b = true := by
    refine ⟨fun a b c hab hbc => ?_⟩
    rw [constantBefore_eq_true] at hab hbc ⊢
    rcases hab with hab | ⟨hab, hnames⟩ <;> rcases hbc with hbc | ⟨hbc, hnames'⟩
    · exact .inl (hab.trans hbc)
    · exact .inl (hbc ▸ hab)
    · exact .inl (hab ▸ hbc)
    · exact .inr ⟨hab.trans hbc, hnames.trans hnames'⟩
  rw [sortBy_eq_insertionSort]
  refine (pairwise_insertionSort _ cs).imp fun h => ?_
  rcases constantBefore_eq_true.1 h with h | ⟨h, -⟩
  · exact h.le
  · exact h.le

private theorem members_eq {w : World} (hp : w.package? p.path = some p) (hnames : (p.constants.map (·.name)).Nodup) :
    ∃ cs : List ConstSpec, cs.Perm (constantsOf w p name) ∧ cs.Pairwise (fun a b => valueOf a ≤ valueOf b) ∧
      w.members (typeName p name) [] = cs.map (asMember name) := by
  let own := p.orderedConstants.filter fun c =>
    isExported c.name && (w.unalias c.type).same (.named (typeName p name) [])
  refine ⟨sortBy (constantBefore name) own, ?_, pairwise_sortBy_constantBefore own, ?_⟩
  · exact (perm_sortBy _ own).trans ((perm_orderedConstants hnames).filter _)
  · have hown : w.members (typeName p name) [] = sortBy World.memberBefore (own.map (asMember name)) := by
      simp only [World.members, typeName, Option.bind_some, hp, Option.elim_some]
      rfl
    rw [hown, sortBy_eq_insertionSort, sortBy_eq_insertionSort]
    exact (map_insertionSort _ _ (asMember name) own fun a _ b _ => Iff.rfl).symm

private theorem isInt64_eq_true {v : Int} :
    Number.isInt64 v = true ↔ -9223372036854775808 ≤ v ∧ v < 9223372036854775808 := by
  rw [Number.isInt64, Bool.and_eq_true]
  exact and_congr decide_eq_true_iff decide_eq_true_iff

private theorem narrowed_eq_iff (v : Int) : (narrowed v).toInt = v ↔ Number.isInt64 v = true := by
  have hsize : Int64.size = 18446744073709551616 := rfl
  rw [narrowed, Int64.toInt_ofInt, isInt64_eq_true, hsize]
  constructor
  · intro h
    have hlow := Int.le_bmod (x := v) (m := 18446744073709551616) (by decide)
    have hhigh := Int.bmod_lt (x := v) (m := 18446744073709551616) (by decide)
    omega
  · rintro ⟨hlow, hhigh⟩
    exact Int.bmod_eq_of_le (by omega) (by omega)

private theorem isInt64_of_bounds {b : Basic} {v : Int} (hb : b.isUnsigned = false ∨ b.bits < 64)
    (hv : (Constant.bounds b).1 ≤ v ∧ v ≤ (Constant.bounds b).2) : Number.isInt64 v = true := by
  rw [isInt64_eq_true]
  cases b <;> simp [Constant.bounds, Basic.isUnsigned, Basic.bits, Basic.proper, Number.twoTo] at hb hv <;> omega

/-- The member has the name of the constant, without that of the type, and its narrowed value. -/
def StandsFor (name : String) (c : ConstSpec) (member : Option EnumMember) : Prop :=
  member = some { name := World.memberName c.name name, value := narrowed (valueOf c) }

def KeepsValue (c : ConstSpec) (member : Option EnumMember) : Prop := ∃ m, member = some m ∧ m.value.toInt = valueOf c

private theorem standsFor_enumMembers (cs : List ConstSpec) :
    Forall₂ (StandsFor name) cs (enumMembers (cs.map (asMember name))) := by
  rw [enumMembers, map_map, forall₂_map_right_iff, forall₂_same]
  exact fun c _ => rfl

private theorem keepsValue_iff {cs : List ConstSpec} {members : List (Option EnumMember)}
    (h : Forall₂ (StandsFor name) cs members) :
    Forall₂ KeepsValue cs members ↔ ∀ c ∈ cs, Number.isInt64 (valueOf c) = true := by
  induction h with
  | nil => simp
  | cons hc _ ih =>
    rw [forall₂_cons, forall_mem_cons, ih, KeepsValue, hc, ← narrowed_eq_iff]
    simp

private theorem eq_of_outline {decl : Declaration} {head : DeclHead} {members : List (Option EnumMember)}
    (h : outline decl = .enum head members) : decl = .enum head members := by
  cases decl with
  | enum _ _ => exact h
  | type _ _ _ => cases h

/-- Every integer type with exported constants, unless they are error codes, becomes an enumeration.  Every
enumeration is that of such a type and has one member for each of its constants, in the order of their values.  The
values are those of the constants exactly if all of them fit in 64 bits with a sign, as they do for every integer type
but the unsigned ones of 64 bits. -/
theorem enumeration_keeps_values_iff (h : (program s.world p s.options).Gives prog)
    (hp : s.world.package? p.path = some p) (hnames : (p.constants.map (·.name)).Nodup) :
    (∀ spec d, IsOwn p spec d → s.world.isInteger (.named (typeName p spec.name) []) = true →
      constantsOf s.world p spec.name ≠ [] → ∃ members, .enum (declHead s p spec d) members ∈ prog.declarations) ∧
    ∀ head members, .enum head members ∈ prog.declarations → ∃ spec d b, IsOwn p spec d ∧ head = declHead s p spec d ∧
      s.world.underlying (.named (typeName p spec.name) []) = .basic b ∧ b.isInteger = true ∧
      ∃ cs : List ConstSpec, cs.Perm (constantsOf s.world p spec.name) ∧
        cs.Pairwise (fun a b => valueOf a ≤ valueOf b) ∧ Forall₂ (StandsFor spec.name) cs members ∧
        (Forall₂ KeepsValue cs members ↔
          ∀ c ∈ constantsOf s.world p spec.name, Number.isInt64 (valueOf c) = true) ∧
        (b.isUnsigned = false ∨ b.bits < 64 →
          (∀ c ∈ constantsOf s.world p spec.name, (Constant.bounds b).1 ≤ valueOf c ∧
            valueOf c ≤ (Constant.bounds b).2) → Forall₂ KeepsValue cs members) := by
  have hextracted := isExtracted_of_gives h
  constructor
  · intro spec d hown hinteger hconstants
    obtain ⟨cs, hperm, -, hmembers⟩ := members_eq hp hnames
    have henum : s.world.isEnum (typeName p spec.name) [] = true := by
      have hcs : cs ≠ [] := fun hnil => hconstants (nil_perm.1 (hnil ▸ hperm))
      rw [World.isEnum, hinteger, hmembers]
      simpa using hcs
    obtain ⟨made, hmade⟩ := hextracted.taken spec d hown
    obtain ⟨-, rfl⟩ := (gives_declaration_of_isEnum henum).1 hmade
    obtain ⟨decl, hdecl, houtline⟩ := mem_map.1 ((hextracted.outlines _).2 ⟨spec, d, hown, hmade⟩)
    rw [eq_of_outline houtline] at hdecl
    exact ⟨_, hdecl⟩
  · intro head members hdecl
    obtain ⟨spec, d, hown, hgives⟩ := (hextracted.outlines _).1 (mem_map_of_mem hdecl)
    rcases declaration_cases hgives with ⟨_, _, -, -, heq⟩ | ⟨henum, heq⟩
    · cases heq
    · obtain ⟨rfl, rfl⟩ := Declaration.enum.inj (eq_of_outline heq)
      obtain ⟨b, hb⟩ := exists_basic_of_isEnum henum
      obtain ⟨cs, hperm, hsorted, hmembers⟩ := members_eq hp hnames
      have hinteger : b.isInteger = true := by
        simp only [World.isEnum, World.isInteger, hb, Bool.and_eq_true] at henum
        exact henum.1
      have hstands : Forall₂ (StandsFor spec.name) cs _ := standsFor_enumMembers cs
      rw [← hmembers] at hstands
      have hkeeps := keepsValue_iff hstands
      simp only [hperm.mem_iff] at hkeeps
      refine ⟨spec, d, b, hown, rfl, hb, hinteger, cs, hperm, hsorted, hstands, hkeeps, fun hkind hbounds => ?_⟩
      exact hkeeps.2 fun c hc => isInt64_of_bounds hkind (hbounds c hc)

def maskSpec : TypeSpec := { name := "Mask", definition := .basic .uint64 }

def maskFlag (name : String) (value : Int) : ConstSpec :=
  { name, type := .named { home := some "app", name := "Mask" } [], value := .int value }

/-- An unsigned type with constants for its lowest and its highest bit. -/
def flags : Package :=
  { path := "app"
    groups := [{ specs := [maskSpec] }]
    constants := [maskFlag "MaskHigh" 9223372036854775808, maskFlag "MaskLow" 1] }

def flagsSite : Site := { world := { packages := [flags] }, options := {} }

def maskMembers : List (Option EnumMember) :=
  [some { name := "Low", value := 1 }, some { name := "High", value := -9223372036854775808 }]

def maskDecl : Declaration := .enum { ns := "app", name := "Mask" } maskMembers

def flagsProgram : Program := { name := "Contracts", version := defaultSchema, declarations := [maskDecl] }

private theorem flags_candidates : candidates flags [] = [(maskSpec, {})] := rfl

private theorem flags_extracted : (program flagsSite.world flags flagsSite.options).Gives flagsProgram := by
  have hmask : (declaration? flagsSite flags maskSpec {}).Gives (some maskDecl) := by
    have hmembers : enumMembers (flagsSite.world.members (typeName flags maskSpec.name) []) = maskMembers := by
      decide +kernel
    have hhead : declHead flagsSite flags maskSpec {} = { ns := "app", name := "Mask" } := by decide +kernel
    rw [gives_declaration_of_isEnum (by decide +kernel), hmembers, hhead]
    exact ⟨rfl, rfl⟩
  refine gives_bind.2 ⟨[], gives_ofExcept.2 rfl, ?_⟩
  rw [flags_candidates]
  refine gives_bind.2 ⟨[({}, some maskDecl)], gives_mapM.2 (.cons ?_ .nil), ?_⟩
  · exact gives_bind.2 ⟨_, hmask, gives_pure.2 rfl⟩
  · exact gives_bind.2 ⟨_, gives_ofExcept.2 rfl, gives_pure.2 rfl⟩

private theorem flags_constants : constantsOf flagsSite.world flags "Mask" = flags.constants := by
  rw [constantsOf, filter_eq_self, ← all_eq_true]
  decide +kernel

/-- The unsigned type becomes an enumeration. -/
theorem flags_enumeration : flagsSite.world.package? flags.path = some flags ∧
    ∃ members, .enum (declHead flagsSite flags maskSpec {}) members ∈ flagsProgram.declarations := by
  have hown : IsOwn flags maskSpec {} := ⟨⟨[], rfl, by rw [flags_candidates]; exact .head _⟩, rfl⟩
  have hconstants : constantsOf flagsSite.world flags maskSpec.name ≠ [] := by
    rw [maskSpec, flags_constants]
    simp [flags]
  exact ⟨rfl, (enumeration_keeps_values_iff flags_extracted rfl (by decide)).1 maskSpec {} hown rfl hconstants⟩

/-- The constant for the highest bit is lost. -/
theorem flags_narrowed : (program flagsSite.world flags flagsSite.options).Gives flagsProgram ∧
    flagsProgram.declarations = [.enum { ns := "app", name := "Mask" } maskMembers] ∧
    maskFlag "MaskHigh" 9223372036854775808 ∈ constantsOf flagsSite.world flags "Mask" ∧
    ¬∃ m, some m ∈ maskMembers ∧ m.value.toInt = valueOf (maskFlag "MaskHigh" 9223372036854775808) := by
  refine ⟨flags_extracted, rfl, by rw [flags_constants]; exact .head _, ?_⟩
  rintro ⟨m, hm, hvalue⟩
  simp only [maskMembers, mem_cons, Option.some.injEq, not_mem_nil, or_false] at hm
  rcases hm with rfl | rfl <;> exact absurd hvalue (by decide)

end Covenant.Extract
