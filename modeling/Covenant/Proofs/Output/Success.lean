import Mathlib.Data.List.Nodup
import Covenant.Proofs.Output.Restore

/-!
# A successful write

While files take their places, what was at a destination goes aside, be it a file or a directory with all below it.
So the directory is followed through its branches.  In the end what went aside is removed, unless there is anything
below it.
-/

namespace Covenant

open Emit (OutputFile)
open Covenant.Path (IsEntry IsFlat)
open Function (update)
open List

namespace Branch

variable {b : Branch}

private theorem cleared_eq_bare (h : ∀ q, q ≠ [] → b q = none) : b.cleared = bare := by rw [cleared, if_pos h]

private theorem cleared_bare : bare.cleared = bare := cleared_eq_bare fun _ _ => rfl

private theorem cleared_cleared (b : Branch) : b.cleared.cleared = b.cleared := by
  by_cases h : ∀ q, q ≠ [] → b q = none
  · rw [cleared_eq_bare h, cleared_bare]
  · have hfull : b.cleared = b := by rw [cleared, if_neg h]
    rw [hfull, hfull]

end Branch

namespace Output

variable {D : Folder} {B B' : Branches} {d d' : Disk} {h h' : Host} {E : Host → Prop} {dir : String}
  {names ks kept xs : List String} {files : List OutputFile} {done todo : List (OutputFile × String)}
  {p : OutputFile × String}

/-- The ways to all entries are open, both as destinations and as temporary files are written. -/
structure Reaches (D : Folder) (dir : String) (d : Disk) : Prop where
  join : ∀ x, IsFlat x → d.Opens D.here (Path.join [dir, x])
  below : ∀ x, IsFlat x → d.Opens D.here (Host.below (Path.trunk dir) x)

private theorem reaches_disk (hdir : D.IsAt dir) : Reaches D dir D.disk :=
  ⟨fun _ hx => Disk.opens_join hdir hx, fun _ hx => Disk.opens_below (Disk.find_trunk hdir) hx⟩

private theorem reaches_of_opens (hdir : dir ≠ "") {x y : String} (hx : IsFlat x) (hy : IsFlat y)
    (hjoin : d.Opens D.here (Path.join [dir, x])) (hbelow : d.Opens D.here (Host.below (Path.trunk dir) y)) :
    Reaches D dir d := by
  have htrunk : Path.trunk dir ≠ "" := by
    rw [Path.trunk]
    exact Path.clean_ne_empty _
  refine ⟨fun z hz => (Disk.opens_congr ?_).1 hjoin, fun z hz => (Disk.opens_congr ?_).1 hbelow⟩
  · rw [Path.way_join D.here hdir hx, Path.way_join D.here hdir hz]
  · rw [Path.way_below D.here htrunk hy, Path.way_below D.here htrunk hz]

private theorem Reaches.keep (h₀ : Reaches D dir D.disk) (h : Reaches D dir d)
    (hkeep : ∀ q, D.disk.at? q = some .directory → d.at? q = some .directory → d'.at? q = some .directory) :
    Reaches D dir d' :=
  ⟨fun x hx => (h₀.join x hx).keep (h.join x hx) hkeep, fun x hx => (h₀.below x hx).keep (h.below x hx) hkeep⟩

private theorem Reaches.bears (h₀ : Reaches D dir D.disk) (h : Reaches D dir d) (hB : D.Bears B d)
    (hB' : D.Bears B' d') (hkeep : ∀ x, B' x = B x ∨ B x = .bare ∨ D.IsFree x) : Reaches D dir d' := by
  refine h₀.keep h fun q hq₀ hq => ?_
  by_cases hin : ∃ x t, q = D.place ++ [x] ++ t
  · obtain ⟨x, t, rfl⟩ := hin
    rw [hB.branch] at hq
    rw [hB'.branch]
    rcases hkeep x with heq | hbare | hfree
    · rw [heq, hq]
    · rw [hbare] at hq
      cases hq
    · by_cases ht : t = []
      · exact absurd (by simpa [ht, Folder.contents] using hq₀) hfree
      · have hnone :=
          (Folder.isTree_branch D.isTree _).eq_none (by simpa [Folder.IsFree, Folder.contents] using hfree) ht
        rw [hq₀] at hnone
        cases hnone
  · rwa [hB'.other q fun x t heq => hin ⟨x, t, heq⟩, ← hB.other q fun x t heq => hin ⟨x, t, heq⟩]

theorem contents_eq (D : Folder) (x : String) : D.contents x = D.branches x [] := by
  simp [Folder.contents, Folder.branches]

/-- The names that a replacement touches, of a file and the name of its temporary file. -/
def touched (p : OutputFile × String) : List String := [p.1.name, p.2, p.2 ++ backupEnd]

/-- The directory while files take their places: others wait in temporary files, and not all that went aside has been
removed. -/
structure Placing (D : Folder) (dir : String) (names : List String) (done todo : List (OutputFile × String))
    (ks : List String) (B : Branches) (h : Host) : Prop where
  here_eq : h.here = D.here
  bears : D.Bears B h.disk
  reaches : Reaches D dir h.disk
  placed : ∀ p ∈ done, B p.1.name = .file p.1.content ∧ Path.Fits (destination dir p.1)
  waiting : ∀ p ∈ todo, B p.1.name = D.branches p.1.name ∧ B p.2 = .file p.1.content ∧
    B (p.2 ++ backupEnd) = D.branches (p.2 ++ backupEnd)
  aside : ∀ p ∈ done, D.contents p.1.name ≠ none → D.IsFree (p.2 ++ backupEnd) ∧
    (B (p.2 ++ backupEnd) = (D.branches p.1.name).cleared ∨
      p.2 ++ backupEnd ∈ ks ∧ B (p.2 ++ backupEnd) = D.branches p.1.name)
  other : ∀ x, (∀ p ∈ done, x ≠ p.1.name ∧ (D.contents p.1.name ≠ none → x ≠ p.2 ++ backupEnd)) →
    (∀ p ∈ todo, x ≠ p.2) → B x = D.branches x
  kept : ∀ k ∈ ks, (∃ p ∈ done, D.contents p.1.name ≠ none ∧ k = p.2 ++ backupEnd) ∧ IsFlat k ∧ k ∉ names ∧
    D.Leads (Host.below (Path.trunk dir) k) k

private theorem Placing.at?_name (hC : Placing D dir names done todo ks B h) (hp : p ∈ done) :
    h.disk.at? (D.place ++ [p.1.name]) = some (.file p.1.content) := by
  simpa [(hC.placed p hp).1, Branch.file] using hC.bears.branch p.1.name []

/-- What a replacement makes of the branches, and the name it keeps the old one under. -/
structure Replaces (D : Folder) (dir : String) (p : OutputFile × String) (kept : List String) (B B' : Branches) :
    Prop where
  name : B' p.1.name = B p.2
  temp : B' p.2 = .bare
  backup : D.contents p.1.name = none ∧ kept = [] ∧ B' (p.2 ++ backupEnd) = B (p.2 ++ backupEnd) ∨
    D.contents p.1.name ≠ none ∧ kept = [p.2 ++ backupEnd] ∧ D.IsFree (p.2 ++ backupEnd) ∧
      D.Leads (Host.below (Path.trunk dir) (p.2 ++ backupEnd)) (p.2 ++ backupEnd) ∧ B' (p.2 ++ backupEnd) = B p.1.name
  rest : ∀ x, x ∉ touched p → B' x = B x

private theorem ne_of_nodup_touched (h : (touched p).Nodup) :
    p.1.name ≠ p.2 ∧ p.1.name ≠ p.2 ++ backupEnd ∧ p.2 ≠ p.2 ++ backupEnd := by
  simpa [touched, and_assoc] using h

private theorem move_touched (h : (touched p).Nodup) (B : Branches) :
    B.move p.2 p.1.name p.1.name = B p.2 ∧ B.move p.2 p.1.name p.2 = .bare ∧
      B.move p.2 p.1.name (p.2 ++ backupEnd) = B (p.2 ++ backupEnd) ∧
      ∀ x, x ∉ touched p → B.move p.2 p.1.name x = B x := by
  obtain ⟨hnw, hnb, hwb⟩ := ne_of_nodup_touched h
  refine ⟨by simp [Branches.move], by simp [Branches.move, hnw.symm], by simp [Branches.move, hnb.symm, hwb.symm], ?_⟩
  intro x hx
  simp only [touched, mem_cons, not_mem_nil, or_false, not_or] at hx
  simp [Branches.move, hx]

section

variable (htemp : Temporary D (Host.below (Path.trunk dir) p.2) p.2)
include htemp

private theorem Placing.replaced (hC : Placing D dir names done (p :: todo) ks B h)
    (hnodup : ((done ++ p :: todo).flatMap touched).Nodup) (hbackup : p.2 ++ backupEnd ∉ names)
    (hfits : Path.Fits (destination dir p.1)) (hreplaces : Replaces D dir p kept B B') (hhere : h'.here = D.here)
    (hB' : D.Bears B' h'.disk) (hreaches : Reaches D dir h'.disk) :
    Placing D dir names (done ++ [p]) todo (ks ++ kept) B' h' := by
  rw [flatMap_append, flatMap_cons] at hnodup
  obtain ⟨-, hrest, hapart⟩ := nodup_append.1 hnodup
  have hdone : ∀ q ∈ done, ∀ x ∈ touched q, x ∉ touched p := fun q hq x hx hmem =>
    hapart x (mem_flatMap_of_mem hq hx) x (mem_append_left _ hmem) rfl
  have htodo : ∀ q ∈ todo, ∀ x ∈ touched q, x ∉ touched p := fun q hq x hx hmem =>
    (nodup_append.1 hrest).2.2 x hmem x (mem_flatMap_of_mem hq hx) rfl
  -- what `p` touches, no other file does, so that all else is as it was before the step
  obtain ⟨hname, hcontent, haside⟩ := hC.waiting p (.head _)
  refine ⟨hhere, hB', hreaches, fun q hq => ?_, fun q hq => ?_, fun q hq hsome => ?_, fun x hx hxtodo => ?_,
    fun k hk => ?_⟩
  · rcases mem_append.1 hq with hq | hq
    · rw [hreplaces.rest _ (hdone q hq _ (by simp [touched]))]
      exact hC.placed q hq
    · rw [mem_singleton.1 hq, hreplaces.name, hcontent]
      exact ⟨rfl, hfits⟩
  · have hq' := htodo q hq
    rw [hreplaces.rest _ (hq' _ (by simp [touched])), hreplaces.rest _ (hq' _ (by simp [touched])),
      hreplaces.rest _ (hq' _ (by simp [touched]))]
    exact hC.waiting q (.tail p hq)
  · rcases mem_append.1 hq with hq | hq
    · rw [hreplaces.rest _ (hdone q hq _ (by simp [touched]))]
      obtain ⟨hfree, hold⟩ := hC.aside q hq hsome
      exact ⟨hfree, hold.imp_right fun hold => ⟨mem_append_left _ hold.1, hold.2⟩⟩
    · rw [mem_singleton.1 hq] at hsome ⊢
      obtain ⟨hnone, -⟩ | ⟨-, hkept, hfree, -, hold⟩ := hreplaces.backup
      · exact absurd hnone hsome
      · exact ⟨hfree, .inr ⟨by simp [hkept], hold.trans hname⟩⟩
  · -- the temporary name is free again, and the backup may hold what was at the destination
    obtain ⟨hxp, hxold⟩ := hx p (by simp)
    by_cases hxw : x = p.2
    · rw [hxw, hreplaces.temp]
      exact ((Folder.isTree_branch D.isTree _).eq_bare ((contents_eq D p.2).symm.trans htemp.absent)).symm
    by_cases hxb : x = p.2 ++ backupEnd
    · rw [hxb]
      obtain ⟨-, -, hsame⟩ | ⟨hsome, -⟩ := hreplaces.backup
      · exact hsame.trans haside
      · exact absurd hxb (hxold hsome)
    · rw [hreplaces.rest x (by simp [touched, hxp, hxw, hxb])]
      refine hC.other x (fun q hq => hx q (mem_append_left _ hq)) ?_
      rintro q (_ | ⟨_, hq⟩)
      · exact hxw
      · exact hxtodo q hq
  · rcases mem_append.1 hk with hk | hk
    · obtain ⟨⟨q, hq, hold⟩, hk⟩ := hC.kept k hk
      exact ⟨⟨q, mem_append_left _ hq, hold⟩, hk⟩
    · obtain ⟨-, hkept, -⟩ | ⟨hsome, hkept, -, hleads, -⟩ := hreplaces.backup
      · simp [hkept] at hk
      · rw [hkept, mem_singleton] at hk
        exact hk ▸ ⟨⟨p, by simp, hsome, rfl⟩, htemp.backup.flat, hbackup, hleads⟩

section

variable (hhere : h.here = D.here) (hB : D.Bears B h.disk) (h₀ : Reaches D dir D.disk)
  (hdest : IsEntry D.here (destination dir p.1) D.place p.1.name)
include hhere hB h₀ hdest

private theorem meets_moveIn (hdir : dir ≠ "") (hflat : IsFlat p.1.name)
    (hfree : h.disk.target D.here (destination dir p.1) = .ok ⟨D.place ++ [p.1.name], true, false⟩ →
      B p.1.name = .bare) :
    (Work.rename (Host.below (Path.trunk dir) p.2) (destination dir p.1)).Meets h
      (fun _ h' => h'.here = D.here ∧ D.Bears (B.move p.2 p.1.name) h'.disk ∧ Reaches D dir h'.disk ∧
        Path.Fits (destination dir p.1) ∧ B p.1.name = .bare) (fun _ => True) := by
  refine Work.meets_change (fun _ => trivial) fun due disk hdisk => ?_
  rw [hhere] at hdisk
  obtain ⟨hold, hnew, -, -, hB'⟩ := hB.rename htemp.entry hdest hdisk
  obtain ⟨hfits, hopens, -⟩ := (Disk.target_entry hdest).1 hnew
  have hreaches := reaches_of_opens hdir hflat htemp.entry.flat hopens ((Disk.target_entry htemp.entry).1 hold).2.1
  refine ⟨hhere, hB', h₀.bears hreaches hB hB' fun x => ?_, hfits, hfree hnew⟩
  by_cases hx : x = p.1.name
  · exact .inr (.inl (hx ▸ hfree hnew))
  by_cases hxw : x = p.2
  · exact .inr (.inr (hxw ▸ htemp.isFree))
  · left
    rw [Branches.move, Function.update_of_ne hx, Function.update_of_ne hxw]

private theorem meets_moveAside :
    (Work.rename (destination dir p.1) (Host.below (Path.trunk dir) p.2 ++ backupEnd)).Meets h
      (fun _ h' => h'.here = D.here ∧ D.Bears (B.move p.1.name (p.2 ++ backupEnd)) h'.disk ∧ B p.1.name [] ≠ none ∧
        B (p.2 ++ backupEnd) [] ≠ some .directory ∧
        D.Leads (Host.below (Path.trunk dir) (p.2 ++ backupEnd)) (p.2 ++ backupEnd)) (fun _ => True) := by
  refine Work.meets_change (fun _ => trivial) fun due disk hdisk => ?_
  rw [hhere] at hdisk
  obtain ⟨-, hold, hsome, hfree, hB'⟩ := hB.rename hdest htemp.backup hdisk
  have hfits := ((Disk.target_entry htemp.backup).1 hold).1
  have hopens := h₀.below _ htemp.backup.flat
  rw [← Host.below_append] at hopens
  have hleads : D.Leads (Host.below (Path.trunk dir) p.2 ++ backupEnd) (p.2 ++ backupEnd) :=
    (Disk.target_entry htemp.backup).2 ⟨hfits, hopens, rfl⟩
  exact ⟨hhere, hB', hsome, hfree, by rwa [← Host.below_append]⟩

end

private theorem Placing.replace (hC : Placing D dir names done (p :: todo) ks B h) (hdir : D.IsAt dir)
    (hflat : IsFlat p.1.name)
    (hnodup : ((done ++ p :: todo).flatMap touched).Nodup) (hbackup : p.2 ++ backupEnd ∉ names) :
    (replace dir p.1 (Host.below (Path.trunk dir) p.2)).Meets h
      (fun r h' => ∃ kept B', r.backup.toList = kept.map (Host.below (Path.trunk dir)) ∧
        Placing D dir names (done ++ [p]) todo (ks ++ kept) B' h') (fun _ => True) := by
  have hdest := isEntry_destination hdir hflat
  have hne : dir ≠ "" := (Disk.find_eq_directory.1 hdir).1.ne_empty
  have h₀ := reaches_disk hdir
  obtain ⟨hname, -, haside⟩ := hC.waiting p (.head _)
  have hself : (touched p).Nodup := (nodup_flatMap.1 hnodup).1 p (by simp)
  obtain ⟨hnw, hnb, hwb⟩ := ne_of_nodup_touched hself
  refine Work.meets_get_bind ?_
  -- something is found at the destination and goes aside first, or nothing is found there
  split
  · refine ((meets_moveAside htemp hC.here_eq hC.bears h₀ hdest).during _).bind ?_
    rintro _ h₁ ⟨hhere₁, hB₁, hsome, hfree, hleads⟩
    rw [hname, ← contents_eq] at hsome
    rw [haside, ← contents_eq] at hfree
    have hbare : B.move p.1.name (p.2 ++ backupEnd) p.1.name = .bare := by simp [Branches.move, hnb]
    have hmove := meets_moveIn htemp hhere₁ hB₁ h₀ hdest hne hflat fun _ => hbare
    refine ((hmove.during _).tryCatch fun failure h₂ _ => ?_).bind ?_
    · exact (Work.meets_true _).bind fun _ _ _ => Work.meets_throw trivial
    · rintro _ h₂ ⟨hhere₂, hB₂, hreaches, hfits, -⟩
      obtain ⟨hin, hgone, hold, hrest⟩ := move_touched hself (B.move p.1.name (p.2 ++ backupEnd))
      refine Work.meets_pure
        ⟨[p.2 ++ backupEnd], _, by simp [Host.below_append], hC.replaced htemp hnodup hbackup hfits
        ⟨hin.trans ?_, hgone, .inr ⟨hsome, rfl, hfree, hleads, hold.trans ?_⟩, fun x hx => (hrest x hx).trans ?_⟩
        hhere₂ hB₂ hreaches⟩
      · simp [Branches.move, hnw.symm, hwb]
      · simp [Branches.move]
      · simp only [touched, mem_cons, not_mem_nil, or_false, not_or] at hx
        simp [Branches.move, hx]
  · rename_i hexists
    have hfree : h.disk.target D.here (destination dir p.1) = .ok ⟨D.place ++ [p.1.name], true, false⟩ →
        B p.1.name = .bare := by
      intro ht
      refine (hC.bears.isTree _).eq_bare (Option.eq_none_iff_forall_ne_some.2 fun e he => hexists ?_)
      have hat : h.disk.at? (D.place ++ [p.1.name]) = some e := by simpa [he] using hC.bears.branch p.1.name []
      rw [Host.exists_, Host.find, hC.here_eq, (Disk.find_iff_of_target ht).2 ⟨rfl, hat⟩]
      rfl
    refine ((meets_moveIn htemp hC.here_eq hC.bears h₀ hdest hne hflat hfree).during _).bind ?_
    rintro _ h₁ ⟨hhere₁, hB₁, hreaches, hfits, hbare⟩
    have hnone : D.contents p.1.name = none := by rw [contents_eq, ← hname, hbare, Branch.bare]
    obtain ⟨hin, hgone, hold, hrest⟩ := move_touched hself B
    exact Work.meets_pure ⟨[], _, rfl, hC.replaced htemp hnodup hbackup hfits
      ⟨hin, hgone, .inl ⟨hnone, rfl, hold⟩, hrest⟩ hhere₁ hB₁ hreaches⟩

end

private theorem Placing.commit {temps : List String} {rs : List Replacement}
    (hC : Placing D dir names done todo ks B h) (hdir : D.IsAt dir) (hflat : ∀ p ∈ todo, IsFlat p.1.name)
    (htemps : ∀ p ∈ todo, Temporary D (Host.below (Path.trunk dir) p.2) p.2 ∧ p.2 ++ backupEnd ∉ names)
    (hnodup : ((done ++ todo).flatMap touched).Nodup)
    (hrs : rs.reverse.filterMap (·.backup) = ks.map (Host.below (Path.trunk dir))) :
    (commit dir temps rs (todo.map fun p => (p.1, Host.below (Path.trunk dir) p.2))).Meets h
      (fun rs' h' => ∃ ks' B', rs'.reverse.filterMap (·.backup) = ks'.map (Host.below (Path.trunk dir)) ∧
        Placing D dir names (done ++ todo) [] ks' B' h') (fun _ => True) := by
  -- by induction on the files that wait; each one comes to those in place
  induction todo generalizing done ks B h rs with
  | nil => exact Work.meets_pure ⟨ks, B, hrs, by simpa using hC⟩
  | cons p todo ih =>
    obtain ⟨htemp, hbackup⟩ := htemps p (.head _)
    have hreplace := hC.replace htemp hdir (hflat p (.head _)) hnodup hbackup
    refine (hreplace.tryCatch fun failure h' _ => ?_).bind ?_
    · exact (Work.meets_true _).bind fun _ _ _ => Work.meets_throw trivial
    · rintro r h' ⟨kept, B', hkept, hC'⟩
      have hrs' : (r :: rs).reverse.filterMap (·.backup) = (ks ++ kept).map (Host.below (Path.trunk dir)) := by
        rw [reverse_cons, filterMap_append, hrs, map_append, ← hkept]
        cases hr : r.backup <;> simp [hr]
      have hrest := ih hC' (fun q hq => hflat q (.tail p hq)) (fun q hq => htemps q (.tail p hq))
        (by simpa using hnodup) hrs'
      simpa using hrest

private theorem Placing.remove {k : String} (hC : Placing D dir names done [] (k :: ks) B h) (hdir : D.IsAt dir)
    (hnames : ∀ p ∈ done, p.1.name ∈ names) :
    (Work.remove (Host.below (Path.trunk dir) k)).Meets h
      (fun _ h' => ∃ B', Placing D dir names done [] ks B' h') E := by
  obtain ⟨⟨q, hq, hqsome, hqk⟩, hflat, hk, hleads⟩ := hC.kept k (.head _)
  have hfree : D.IsFree k := hqk ▸ (hC.aside q hq hqsome).1
  have hB' := hC.bears.remove (Disk.target_of_opens hleads (hC.reaches.below k hflat))
  rw [← hC.here_eq] at hB'
  refine Work.meets_attempt ⟨update B k (B k).cleared, hC.here_eq, hB', ?_, fun p hp => ?_, forall_mem_nil _,
    fun p hp hsome => ?_, fun x hx _ => ?_, fun k' hk' => hC.kept k' (.tail k hk')⟩
  · refine (reaches_disk hdir).bears hC.reaches hC.bears hB' fun x => ?_
    by_cases hx : x = k
    · exact .inr (.inr (hx ▸ hfree))
    · exact .inl (Function.update_of_ne hx _ _)
  · have hne : p.1.name ≠ k := fun heq => hk (heq ▸ hnames p hp)
    rw [Function.update_of_ne hne]
    exact hC.placed p hp
  · obtain ⟨hpfree, hold⟩ := hC.aside p hp hsome
    refine ⟨hpfree, ?_⟩
    by_cases hpk : p.2 ++ backupEnd = k
    · left
      rw [hpk] at hold ⊢
      rw [Function.update_self]
      rcases hold with heq | ⟨-, heq⟩
      · rw [heq, Branch.cleared_cleared]
      · rw [heq]
    · rw [Function.update_of_ne hpk]
      exact hold.imp_right fun hold => ⟨(mem_cons.1 hold.1).resolve_left hpk, hold.2⟩
  · have hxk : x ≠ k := fun heq => (hx q hq).2 hqsome (heq.trans hqk)
    rw [Function.update_of_ne hxk, hC.other x hx (forall_mem_nil _)]

private theorem Placing.removeAll (hC : Placing D dir names done [] ks B h) (hdir : D.IsAt dir)
    (hnames : ∀ p ∈ done, p.1.name ∈ names) :
    ((ks.map (Host.below (Path.trunk dir))).forM Work.remove).Meets h
      (fun _ h' => ∃ B', Placing D dir names done [] [] B' h') E := by
  induction ks generalizing B h with
  | nil => exact Work.meets_pure ⟨B, hC⟩
  | cons k ks ih =>
    refine (hC.remove hdir hnames).bind ?_
    rintro _ h' ⟨B', hC'⟩
    exact ih hC'

/-- The names of the temporary files of a write that comes to replacing. -/
def temporaryNames (dir : String) (files : List OutputFile) (h : Host) : List String :=
  (temporaries dir files h).map Path.base

/-- No temporary file has the name of a destination, as it is or with the ending for an old file. -/
def Apart (xs : List String) (files : List OutputFile) : Prop :=
  ∀ x ∈ xs, ∀ f ∈ files, x ≠ f.name ∧ x ++ backupEnd ≠ f.name

private theorem nodup_touched (hlength : files.length = xs.length) (hnodup : (files.map (·.name)).Nodup)
    (hxs : xs.Nodup) (htemp : ∀ x ∈ xs, Temporary D (Host.below (Path.trunk dir) x) x) (hapart : Apart xs files) :
    ((files.zip xs).flatMap touched).Nodup := by
  have hfresh : ∀ p ∈ files.zip xs, ∀ q ∈ files.zip xs, p.1.name ≠ q.2 ∧ p.1.name ≠ q.2 ++ backupEnd ∧
      p.2 ≠ q.2 ++ backupEnd := by
    intro p hp q hq
    obtain ⟨hname, hbackup⟩ := hapart q.2 (of_mem_zip hq).2 p.1 (of_mem_zip hp).1
    exact ⟨hname.symm, hbackup.symm, (htemp p.2 (of_mem_zip hp).2).ne_backup _⟩
  have hpairs : (files.zip xs).Pairwise fun p q => p.1.name ≠ q.1.name ∧ p.2 ≠ q.2 := by
    have hfst : (files.zip xs).map (·.1) = files := map_fst_zip hlength.le
    have hsnd : (files.zip xs).map (·.2) = xs := map_snd_zip hlength.ge
    have hfiles := pairwise_map.1 hnodup
    rw [← hfst, pairwise_map] at hfiles
    exact hfiles.and (pairwise_map.1 (hsnd.symm ▸ hxs))
  refine nodup_flatMap.2 ⟨fun p hp => ?_, hpairs.imp_of_mem fun {p q} hp hq hpq => ?_⟩
  · simpa [touched, and_assoc] using hfresh p hp p hp
  · have hpq' := hfresh p hp q hq
    have hqp' := hfresh q hq p hp
    simp [touched, disjoint_left, Function.onFun, hpq, hpq', hqp'.1.symm, hqp'.2.1.symm, hqp'.2.2.symm]

section

variable {temps : List String} {C : Contents} (hC : Stages D dir temps xs files C h)
include hC

private theorem Stages.temporary : ∀ x ∈ xs, Temporary D (Host.below (Path.trunk dir) x) x := by
  have heach := hC.temporaries.each
  rw [hC.paths, forall₂_map_left_iff] at heach
  exact forall₂_same.1 heach

private theorem Stages.map_base : temps.map Path.base = xs := by
  rw [hC.paths, map_map]
  exact (map_congr_left fun x hx => (hC.temporary x hx).entry.base_eq).trans (map_id xs)

private theorem Stages.placing (hdir : D.IsAt dir) (hapart : Apart xs files) :
    ∃ B, Placing D dir names [] (files.zip xs) [] B h := by
  have hshows := hC.holds.at_.shows
  have h₀ := reaches_disk hdir
  obtain ⟨hlength, hfilled⟩ := forall₂_iff_zip.1 hC.filled
  have hsame : ∀ x, x ∉ xs → (fun q => h.disk.at? (D.place ++ [x] ++ q)) = D.branches x := by
    intro x hx
    funext q
    by_cases hq : q = []
    · simpa [hq, Folder.branches, Folder.contents] using (hshows.entry x).trans (hC.holds.agrees x hx)
    · exact hshows.other _ fun y hy => hq (by simpa using congrArg length hy)
  refine ⟨_, hC.holds.at_.here_eq, hshows.bears, h₀.keep h₀ fun q hq _ => (hshows.directory_iff q).2 hq,
    forall_mem_nil _, fun p hp => ?_, forall_mem_nil _, fun x _ hx => hsame x fun hxs => ?_,
    forall_mem_nil _⟩
  · obtain ⟨hf, hx⟩ := of_mem_zip hp
    have hcontent : h.disk.at? (D.place ++ [p.2]) = some (.file p.1.content) :=
      (hshows.entry p.2).trans (hfilled hp).1
    refine ⟨hsame _ fun hname => (hapart _ hname _ hf).1 rfl, ?_, hsame _ (hC.temporaries.backup_not_mem p.2)⟩
    exact (hshows.bears.isTree p.2).eq_file (by simpa using hcontent)
  · have hsnd : (files.zip xs).map (·.2) = xs := map_snd_zip hlength.ge
    rw [← hsnd] at hxs
    obtain ⟨p, hp, rfl⟩ := mem_map.1 hxs
    exact hx p hp rfl

end

/-- Files have been written to a directory: `xs` are the names of their temporary files. -/
structure Written (D : Folder) (dir : String) (files : List OutputFile) (xs : List String) (B : Branches) (h : Host) :
    Prop where
  length_eq : files.length = xs.length
  placing : Placing D dir (files.map (·.name)) (files.zip xs) [] [] B h

private theorem meets_writeInto_written (hdir : D.IsAt dir) (hflat : ∀ f ∈ files, IsFlat f.name)
    (hnodup : (files.map (·.name)).Nodup) (hbegin : D.At D.contents h)
    (hstage : ∀ temps h', (stage dir [] files).run.run h = (.ok temps, h') → temps.map Path.base = xs)
    (hapart : Apart xs files) :
    (writeInto dir files).Meets h (fun paths h' => paths = files.map (destination dir) ∧
      ∃ B, Written D dir files xs B h') (fun _ => True) := by
  refine ((meets_stage hdir hflat (stages_nil hbegin)).with_run.mono (fun _ _ h => h) fun _ _ => trivial).bind ?_
  rintro temps h₁ ⟨⟨ys, C, hC⟩, hrun⟩
  obtain rfl : ys = xs := hC.map_base.symm.trans (hstage temps h₁ hrun)
  rw [nil_append] at hC
  obtain ⟨B, hB⟩ : ∃ B, Placing D dir (files.map (·.name)) [] (files.zip ys) [] B h₁ := hC.placing hdir hapart
  obtain ⟨hlength, -⟩ := forall₂_iff_zip.1 hC.filled
  have htouched := nodup_touched hlength hnodup hC.temporaries.nodup hC.temporary hapart
  have hbackup : ∀ x ∈ ys, x ++ backupEnd ∉ files.map (·.name) := by
    intro x hx hmem
    obtain ⟨f, hf, heq⟩ := mem_map.1 hmem
    exact (hapart x hx f hf).2 heq.symm
  have hcommit :
      (commit dir temps [] ((files.zip ys).map fun p => (p.1, Host.below (Path.trunk dir) p.2))).Meets h₁ _ _ :=
    hB.commit hdir (fun p hp => hflat p.1 (of_mem_zip hp).1)
      (fun p hp => ⟨hC.temporary p.2 (of_mem_zip hp).2, hbackup p.2 (of_mem_zip hp).2⟩) htouched rfl
  have hzip : (files.zip ys).map (fun p => (p.1, Host.below (Path.trunk dir) p.2)) = files.zip temps := by
    rw [hC.paths, zip_map_right]
    rfl
  rw [hzip, nil_append] at hcommit
  refine hcommit.bind ?_
  rintro rs h₂ ⟨ks, B', hks, hB'⟩
  rw [hks]
  refine (hB'.removeAll hdir fun p hp => mem_map_of_mem (of_mem_zip hp).1).bind ?_
  rintro _ h₃ ⟨B'', hB''⟩
  exact Work.meets_pure ⟨rfl, B'', hlength, hB''⟩

section

variable (hB : Written D dir files xs B h)
include hB

private theorem Written.mem_zip {f : OutputFile} (hf : f ∈ files) : ∃ x, (f, x) ∈ files.zip xs := by
  have hfst : (files.zip xs).map (·.1) = files := map_fst_zip hB.length_eq.le
  rw [← hfst] at hf
  obtain ⟨p, hp, rfl⟩ := mem_map.1 hf
  exact ⟨p.2, hp⟩

/-- Each destination holds its file and nothing else. -/
theorem Written.placed {f : OutputFile} (hf : f ∈ files) :
    B f.name = .file f.content ∧ h.disk.at? (D.place ++ [f.name]) = some (.file f.content) := by
  obtain ⟨x, hx⟩ := hB.mem_zip hf
  exact ⟨(hB.placing.placed _ hx).1, hB.placing.at?_name hx⟩

/-- Each file reads as what was written. -/
theorem Written.readFile (hdir : D.IsAt dir) (hflat : ∀ f ∈ files, IsFlat f.name) :
    ∀ f ∈ files, h.readFile (destination dir f) = .ok f.content := by
  intro f hf
  obtain ⟨x, hx⟩ := hB.mem_zip hf
  have hdest := isEntry_destination hdir (hflat f hf)
  have hfits := (hB.placing.placed _ hx).2
  have htarget := (Disk.target_entry hdest).2 ⟨hfits, hB.placing.reaches.join f.name (hflat f hf), rfl⟩
  rw [Host.readFile, Host.find, hB.placing.here_eq, (Disk.find_iff_of_target htarget).2 ⟨rfl, (hB.placed hf).2⟩]

/-- What was at a destination has gone aside and been removed, unless there was anything below it. -/
theorem Written.aside (hp : p ∈ files.zip xs) (hsome : D.contents p.1.name ≠ none) :
    D.IsFree (p.2 ++ backupEnd) ∧ B (p.2 ++ backupEnd) = (D.branches p.1.name).cleared := by
  simpa using hB.placing.aside p hp hsome

/-- Names that are neither destinations nor kept aside are as before. -/
theorem Written.other {x : String} (hx : ∀ f ∈ files, x ≠ f.name)
    (hold : ∀ p ∈ files.zip xs, D.contents p.1.name ≠ none → x ≠ p.2 ++ backupEnd) : B x = D.branches x :=
  hB.placing.other x (fun p hp => ⟨hx p.1 (of_mem_zip hp).1, hold p hp⟩) (forall_mem_nil _)

private theorem Written.at?_of_not_initial {q : Place} {e : Disk.Entry} (hq : ∀ f ∈ files, ¬D.place ++ [f.name] <+: q)
    (hold : ∀ x ∈ xs, q ≠ D.place ++ [x ++ backupEnd]) (he : D.disk.at? q = some e) : h.disk.at? q = some e := by
  by_cases hin : ∃ x t, q = D.place ++ [x] ++ t
  · obtain ⟨x, t, rfl⟩ := hin
    rw [hB.placing.bears.branch, hB.other (fun f hf heq => hq f hf (heq ▸ prefix_append _ _)), Folder.branches, he]
    rintro p hp hsome rfl
    -- there was a file at most under the name, so nothing was below it
    have ht : t ≠ [] := by
      rintro rfl
      exact hold p.2 (of_mem_zip hp).2 (by simp)
    have hfree : D.branches (p.2 ++ backupEnd) [] ≠ some .directory := contents_eq D _ ▸ (hB.aside hp hsome).1
    have hnone : D.branches (p.2 ++ backupEnd) t = none := (Folder.isTree_branch D.isTree _).eq_none hfree ht
    rw [Folder.branches, he] at hnone
    cases hnone
  · rwa [hB.placing.bears.other q fun x t heq => hin ⟨x, t, heq⟩]

private theorem Written.frame_iff (hapart : Apart xs files) :
    (∀ q, (∀ f ∈ files, q ≠ D.place ++ [f.name]) → h.disk.at? q = D.disk.at? q) ↔
      ∀ p ∈ files.zip xs, D.disk.placesBelow (D.place ++ [p.1.name]) = [] ∧
        (D.contents p.1.name ≠ none → D.contents (p.2 ++ backupEnd) = none) := by
  constructor
  · intro hall p hp
    obtain ⟨hf, hx⟩ := of_mem_zip hp
    -- what was below a destination would have to be below the new file
    have hbelow : ∀ t, t ≠ [] → D.branches p.1.name t = none := by
      intro t ht
      have hne : ∀ g ∈ files, D.place ++ [p.1.name] ++ t ≠ D.place ++ [g.name] := by simp [ht]
      rw [Folder.branches, ← hall _ hne, hB.placing.bears.branch, (hB.placed hf).1, Branch.file, if_neg ht]
    refine ⟨Disk.placesBelow_eq_nil.2 hbelow, fun hsome => ?_⟩
    have hne : ∀ g ∈ files, D.place ++ [p.2 ++ backupEnd] ≠ D.place ++ [g.name] := fun g hg => by
      simpa using (hapart p.2 hx g hg).2
    have hroot := hB.placing.bears.branch (p.2 ++ backupEnd) []
    rw [(hB.aside hp hsome).2, Branch.cleared_eq_bare hbelow, append_nil, hall _ hne] at hroot
    exact hroot
  · intro hclear q hq
    by_cases hin : ∃ x t, q = D.place ++ [x] ++ t
    · obtain ⟨x, t, rfl⟩ := hin
      rw [hB.placing.bears.branch]
      change B x t = D.branches x t
      have hbelow : ∀ p ∈ files.zip xs, ∀ t, t ≠ [] → D.branches p.1.name t = none := fun p hp =>
        Disk.placesBelow_eq_nil.1 (hclear p hp).1
      by_cases hx : ∃ f ∈ files, x = f.name
      · obtain ⟨f, hf, rfl⟩ := hx
        obtain ⟨x, hx⟩ := hB.mem_zip hf
        have ht : t ≠ [] := fun heq => hq f hf (by simp [heq])
        rw [(hB.placed hf).1, hbelow _ hx t ht, Branch.file, if_neg ht]
      · by_cases hold : ∃ p ∈ files.zip xs, D.contents p.1.name ≠ none ∧ x = p.2 ++ backupEnd
        · -- a name that a destination went aside to: it could be removed
          obtain ⟨p, hp, hsome, rfl⟩ := hold
          have hbare : D.branches (p.2 ++ backupEnd) = .bare :=
            (Folder.isTree_branch D.isTree _).eq_bare ((contents_eq D _).symm.trans ((hclear p hp).2 hsome))
          rw [(hB.aside hp hsome).2, Branch.cleared_eq_bare (hbelow p hp), hbare]
        · rw [hB.other (fun f hf heq => hx ⟨f, hf, heq⟩) fun p hp hsome heq => hold ⟨p, hp, hsome, heq⟩]
    · exact hB.placing.bears.other q fun x t heq => hin ⟨x, t, heq⟩

end

/-- A write that succeeds has written its files to a folder. -/
theorem exists_written {paths : List String} (htree : h.disk.IsTree) (hflat : ∀ f ∈ files, IsFlat f.name)
    (hnodup : (files.map (·.name)).Nodup) (hapart : Apart (temporaryNames dir files h) files)
    (hrun : (writeFiles dir files).run.run h = (.ok paths, h')) :
    paths = files.map (destination dir) ∧ ∃ D B, D.disk = prepared dir h ∧ D.here = h.here ∧
      D.IsAt dir ∧ Written D dir files (temporaryNames dir files h) B h' := by
  refine (meets_writeFiles_of (E := fun _ => True) (P := fun paths h' => paths = files.map (destination dir) ∧ ∃ D B,
    D.disk = prepared dir h ∧ D.here = h.here ∧ D.IsAt dir ∧ Written D dir files (temporaryNames dir files h) B h')
    htree trivial fun D hdisk hhere hdir hbegin htemps => ?_).of_ok hrun
  refine (meets_writeInto_written hdir hflat hnodup hbegin (fun temps h₁ hrun => ?_) hapart).mono ?_ fun _ h => h
  · rw [← htemps temps h₁ hrun, temporaryNames]
  · rintro paths h' ⟨hpaths, B, hB⟩
    exact ⟨hpaths, D, B, hdisk, hhere, hdir, hB⟩

theorem exists_written_of_find {p : Place} {paths : List String} (htree : h.disk.IsTree)
    (hdir : h.find dir = .ok (p, .directory)) (hflat : ∀ f ∈ files, IsFlat f.name)
    (hnodup : (files.map (·.name)).Nodup) (hapart : Apart (temporaryNames dir files h) files)
    (hrun : (writeFiles dir files).run.run h = (.ok paths, h')) :
    ∃ D B, D.disk = h.disk ∧ D.place = p ∧ D.IsAt dir ∧ Written D dir files (temporaryNames dir files h) B h' := by
  obtain ⟨-, D, B, hdisk, hhere, hfind, hB⟩ := exists_written htree hflat hnodup hapart hrun
  have hdisk : D.disk = h.disk := by rw [hdisk, prepared, Disk.makeDirectories_of_find _ hdir]
  refine ⟨D, B, hdisk, ?_, hfind, hB⟩
  rw [Folder.IsAt, hdisk, hhere, ← Host.find, hdir] at hfind
  cases hfind
  rfl

/-- A write that succeeds puts each file with its content at its destination, provided that no temporary file is named
like a destination.  All that was beside the destinations and not below them stays, but for what was under a name that
something went aside to.  Nothing but the destinations has changed, so that neither a temporary file nor one that went
aside is left, if and only if there was nothing below any destination and nothing under these names. -/
theorem writeFiles_frame {p : Place} {paths : List String} (htree : h.disk.IsTree)
    (hdir : h.find dir = .ok (p, .directory)) (hflat : ∀ f ∈ files, IsFlat f.name)
    (hnodup : (files.map (·.name)).Nodup) (hapart : Apart (temporaryNames dir files h) files)
    (hrun : (writeFiles dir files).run.run h = (.ok paths, h')) :
    paths = files.map (destination dir) ∧
      (∀ f ∈ files, h'.readFile (destination dir f) = .ok f.content ∧
        h'.disk.at? (p ++ [f.name]) = some (.file f.content)) ∧
      (∀ q e, (∀ f ∈ files, ¬p ++ [f.name] <+: q) → (∀ x ∈ temporaryNames dir files h, q ≠ p ++ [x ++ backupEnd]) →
        h.disk.at? q = some e → h'.disk.at? q = some e) ∧
      ((∀ q, (∀ f ∈ files, q ≠ p ++ [f.name]) → h'.disk.at? q = h.disk.at? q) ↔
        ∀ r ∈ files.zip (temporaryNames dir files h), h.disk.placesBelow (p ++ [r.1.name]) = [] ∧
          (h.disk.at? (p ++ [r.1.name]) ≠ none → h.disk.at? (p ++ [r.2 ++ backupEnd]) = none)) := by
  have hpaths := (exists_written htree hflat hnodup hapart hrun).1
  obtain ⟨D, B, hdisk, rfl, hfind, hB⟩ := exists_written_of_find htree hdir hflat hnodup hapart hrun
  rw [← hdisk]
  exact ⟨hpaths, fun f hf => ⟨hB.readFile hfind hflat f hf, (hB.placed hf).2⟩, fun q e => hB.at?_of_not_initial,
    hB.frame_iff hapart⟩

/-- A directory with an old file and an empty directory at two of three destinations, and another file. -/
def drawer : Host :=
  { disk := ⟨[(["out"], .directory), (["out", "A.ts"], .file "old a"), (["out", "B.ts"], .directory),
      (["out", "keep"], .file "kept")]⟩
    draws := fun _ => 7 }

/-- The drawer gets its files, and the other file stays. -/
theorem writeFiles_frame_drawer :
    ∃ paths h', (writeFiles "out" editions).run.run drawer = (.ok paths, h') ∧
      (∀ f ∈ editions, h'.disk.at? ["out", f.name] = some (.file f.content)) ∧
      ∀ q, (∀ f ∈ editions, q ≠ ["out", f.name]) → h'.disk.at? q = drawer.disk.at? q := by
  have hsucceeds : ((writeFiles "out" editions).run.run drawer).1.toOption ≠ none := by decide +kernel
  rcases hrun : (writeFiles "out" editions).run.run drawer with ⟨failure | paths, h'⟩
  · rw [hrun] at hsucceeds
    exact absurd rfl hsucceeds
  · have hdir : drawer.find "out" = .ok (["out"], .directory) := by decide +kernel
    have hapart : Apart (temporaryNames "out" editions drawer) editions := by
      unfold Apart
      decide +kernel
    obtain ⟨-, hfiles, -, hframe⟩ :=
      writeFiles_frame (by decide +kernel) hdir (by decide +kernel) (by decide +kernel) hapart hrun
    exact ⟨paths, h', rfl, fun f hf => (hfiles f hf).2, hframe.2 (by decide +kernel)⟩

/-- A directory with a note below a destination. -/
def cabinet : Host :=
  { disk := ⟨[(["out"], .directory), (["out", "A.ts"], .directory), (["out", "A.ts", "note"], .file "n")]⟩
    draws := fun _ => 7 }

/-- Writes that succeed and touch more than their destinations.  After one the note is no longer where it was, and the
directory that went aside is left with it; after the other one a file is gone that had the name of what went aside. -/
theorem writeFiles_leaves_aside_cabinet :
    (let end_ := (writeFiles "out" [⟨"typescript", "A.ts", "a"⟩]).run.run cabinet
     end_.1.toOption = some ["out/A.ts"] ∧ end_.2.disk.at? ["out", "A.ts", "note"] = none ∧
      end_.2.disk.at? ["out", ".A.ts.7.tmp.bak", "note"] = some (.file "n") ∧
      cabinet.disk.at? ["out", "A.ts", "note"] = some (.file "n") ∧
      cabinet.disk.at? ["out", ".A.ts.7.tmp.bak"] = none) ∧
    (let end_ := (writeFiles "out" [⟨"typescript", "A.ts", "a"⟩]).run.run { bundle with due := [] }
     end_.1.toOption = some ["out/A.ts"] ∧ bundle.disk.at? ["out", ".A.ts.7.tmp.bak"] = some (.file "kept") ∧
      end_.2.disk.at? ["out", ".A.ts.7.tmp.bak"] = none) := by
  decide +kernel

end Output

end Covenant
