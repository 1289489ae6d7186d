import Covenant.Output.Write
import Covenant.Proofs.Disk.Folder

/-!
# A failed write leaves no trace

While files take the places of their destinations, undoing all replacements so far gives the directory as it was, but
for the temporary files.  So whatever operation fails, the directory is left as it was found.  That needs one thing of
the numbers that are drawn: no file is there already under a name that an old file is kept under.
-/

namespace Covenant

open Disk (Entry)
open Emit (OutputFile)
open Covenant.Path (IsEntry IsFlat)
open Function (update)
open List

namespace Contents

/-- Two directories hold the same, but for some names. -/
def Agrees (xs : List String) (C C' : Contents) : Prop := ∀ x, x ∉ xs → C x = C' x

/-- The names of a replacement: the destination, and the one its old file is kept under. -/
abbrev Names := String × Option String

/-- What a directory holds after a replacement has been undone. -/
def undo (C : Contents) : Names → Contents
  | (y, none) => update C y none
  | (y, some b) => C.move b y

/-- A destination that undoing gives something else, without taking what is there anywhere. -/
def Overwrites (us : List Names) (z : String) : Prop := z ∈ us.map (·.1) ∧ some z ∉ us.map (·.2)

/-- Undoing replacements gives a directory back, but for some names, whatever has come to overwritten destinations. -/
def Undone (xs : List String) (us : List Names) (C C₀ : Contents) : Prop :=
  ∀ C', (∀ z, z ∉ xs → ¬Overwrites us z → C' z = C z) → Agrees xs (us.foldl undo C') C₀

variable {C C₀ : Contents} {x y z b : String} {xs : List String} {us : List Names}

private theorem move_apply (h : C x ≠ none) (y z : String) :
    C.move x y z = if z = y then C x else if z = x then none else C z := by
  rw [move, if_neg h, Function.update_apply, Function.update_apply]

private theorem not_overwrites_cons {u : Names} (hz : z ≠ u.1) (h : ¬Overwrites us z) : ¬Overwrites (u :: us) z := by
  rintro ⟨hmem, hnot⟩
  rw [map_cons, mem_cons] at hmem hnot
  exact h ⟨hmem.resolve_left hz, (not_or.1 hnot).2⟩

private theorem undone_nil (h : Agrees xs C C₀) : Undone xs [] C C₀ :=
  fun _ hC' z hz => (hC' z hz fun hover => not_mem_nil hover.1).trans (h z hz)

namespace Undone

variable (h : Undone xs us C C₀)
include h

private theorem agrees : Agrees xs (us.foldl undo C) C₀ := h C fun _ _ _ => rfl

private theorem placed (hx : x ∈ xs) (hy : C y = none) (hsome : C x ≠ none) :
    Undone xs ((y, none) :: us) (C.move x y) C₀ := by
  intro C' hC'
  refine h _ fun z hz hover => ?_
  rw [undo, Function.update_apply]
  split_ifs with hzy
  · rw [hzy, hy]
  · have hzx : z ≠ x := fun heq => hz (heq ▸ hx)
    rw [hC' z hz (not_overwrites_cons hzy hover), move_apply hsome, if_neg hzy, if_neg hzx]

private theorem replaced (hx : x ∈ xs) (hb : b ∉ xs) (hby : b ≠ y) (hy : C y ≠ none)
    (hfree : ¬Overwrites us b → C b = none)
    (hsome : C.move y b x ≠ none) : Undone xs ((y, some b) :: us) ((C.move y b).move x y) C₀ := by
  intro C' hC'
  have hbx : b ≠ x := fun heq => hb (heq ▸ hx)
  have hkept : C' b = C y := by
    rw [hC' b hb (by simp [Overwrites]), move_apply hsome, if_neg hby, if_neg hbx, move_apply hy, if_pos rfl]
  refine h _ fun z hz hover => ?_
  rw [undo, move_apply (hkept ▸ hy), hkept]
  split_ifs with hzy hzb
  · rw [hzy]
  · rw [hzb, hfree (hzb ▸ hover)]
  · have hzx : z ≠ x := fun heq => hz (heq ▸ hx)
    rw [hC' z hz (not_overwrites_cons hzy hover), move_apply hsome, if_neg hzy, if_neg hzx, move_apply hy, if_neg hzb,
      if_neg hzy]

private theorem moved_back (hy : C y ≠ none) (hfree : ¬Overwrites us b → C b = none) :
    Agrees xs (us.foldl undo ((C.move y b).move b y)) C₀ := by
  refine h _ fun z _ hover => ?_
  have hmoved : C.move y b b = C y := by rw [move_apply hy, if_pos rfl]
  rw [move_apply (hmoved ▸ hy), hmoved]
  split_ifs with hzy hzb
  · rw [hzy]
  · rw [hzb, hfree (hzb ▸ hover)]
  · rw [move_apply hy, if_neg hzb, if_neg hzy]

end Undone

end Contents

namespace Output

open Contents (Agrees Names Undone)

variable {D : Folder} {C : Contents} {h : Host} {E : Host → Prop} {dir : String} {temps xs : List String}
  {temp x : String}

/-- A temporary file with its name, which was not in use. -/
structure Temporary (D : Folder) (temp x : String) : Prop where
  entry : IsEntry D.here temp D.place x
  leads : D.Leads temp x
  absent : D.contents x = none
  ends : Text.hasSuffix ".tmp" x = true
  backup : IsEntry D.here (temp ++ backupEnd) D.place (x ++ backupEnd)

theorem Temporary.isFree (h : Temporary D temp x) : D.IsFree x := by
  rw [Folder.IsFree, h.absent]
  simp

theorem Temporary.ne_backup (h : Temporary D temp x) (y : String) : x ≠ y ++ backupEnd := by
  rintro rfl
  obtain ⟨cs, hcs⟩ := isSuffixOf_iff_suffix.1 h.ends
  have hlast := congrArg getLast? hcs
  simp [backupEnd] at hlast

/-- Temporary files with pairwise distinct names. -/
structure Temporaries (D : Folder) (temps xs : List String) : Prop where
  each : Forall₂ (Temporary D) temps xs
  nodup : xs.Nodup

private theorem Temporaries.concat (h : Temporaries D temps xs) (htemp : Temporary D temp x) (hx : x ∉ xs) :
    Temporaries D (temps ++ [temp]) (xs ++ [x]) :=
  ⟨rel_append h.each (.cons htemp .nil), h.nodup.append (nodup_singleton x) (by simpa using hx)⟩

theorem Temporaries.backup_not_mem (h : Temporaries D temps xs) (y : String) : y ++ backupEnd ∉ xs := by
  intro hmem
  obtain ⟨temp, -, htemp⟩ := Outcome.exists_of_mem_right h.each hmem
  exact htemp.ne_backup y rfl

/-- Only names of temporary files stand for something else than in the beginning. -/
def Staged (D : Folder) (xs : List String) (h : Host) : Prop := ∃ C, D.At C h ∧ Agrees xs C D.contents

private theorem meets_removeAll (htemps : Forall₂ (Temporary D) temps xs) (hstaged : Staged D xs h) :
    (temps.forM Work.remove).Meets h (fun _ => D.At D.contents) E := by
  have hstep : ∀ temp temps h, (∃ xs, Forall₂ (Temporary D) (temp :: temps) xs ∧ Staged D xs h) →
      (Work.remove temp).Meets h (fun _ h => ∃ xs, Forall₂ (Temporary D) temps xs ∧ Staged D xs h) E := by
    rintro temp temps h ⟨_, hall, C, hC, hagree⟩
    obtain ⟨x, xs, hx, hxs, rfl⟩ := forall₂_cons_left_iff.1 hall
    refine (hC.remove hx.leads hx.isFree).mono (fun _ h' hC' => ⟨xs, hxs, _, hC', fun y hy => ?_⟩) fun _ h => h
    rw [Function.update_apply]
    split
    · rename_i hyx
      rw [hyx, hx.absent]
    · rename_i hyx
      exact hagree y (by simp [hyx, hy])
  have hloop := Work.meets_forM (P := fun temps h => ∃ xs, Forall₂ (Temporary D) temps xs ∧ Staged D xs h)
    hstep ⟨xs, htemps, hstaged⟩
  refine hloop.mono (fun _ h' hend => ?_) fun _ h => h
  obtain ⟨_, hnil, C, hC, hagree⟩ := hend
  rw [forall₂_nil_left_iff.1 hnil] at hagree
  have hcontents : C = D.contents := funext fun x => hagree x not_mem_nil
  exact hcontents ▸ hC

private theorem meets_orElseRemove {α : Type} {P : α → Host → Prop} {t : Work α}
    (htemps : Forall₂ (Temporary D) temps xs) (ht : t.Meets h P (Staged D xs)) :
    (orElseRemove temps t).Meets h P (D.At D.contents) := by
  refine ht.tryCatch fun failure h' hstaged => ?_
  exact (meets_removeAll htemps hstaged).bind fun _ _ hC => Work.meets_throw hC

/-- The temporary files are there, and nothing else has changed. -/
structure Holds (D : Folder) (xs : List String) (C : Contents) (h : Host) : Prop where
  at_ : D.At C h
  agrees : Agrees xs C D.contents
  present : ∀ x ∈ xs, C x ≠ none

private theorem Holds.staged (hC : Holds D xs C h) : Staged D xs h := ⟨C, hC.at_, hC.agrees⟩

private theorem Holds.due (hC : Holds D xs C h) (due : List (Option Errno)) : Holds D xs C { h with due } :=
  ⟨hC.at_.due due, hC.agrees, hC.present⟩

private theorem Holds.written {x content : String} {ys : List String} {h' : Host} (hC : Holds D xs C h)
    (hys : ∀ y, y ∈ ys ↔ y = x ∨ y ∈ xs) (hat : D.At (update C x (some (.file content))) h') :
    Holds D ys (update C x (some (.file content))) h' := by
  refine ⟨hat, fun y hy => ?_, fun y hy => ?_⟩
  · obtain ⟨hyx, hyxs⟩ := not_or.1 (mt (hys y).2 hy)
    rw [Function.update_of_ne hyx, hC.agrees y hyxs]
  · rw [Function.update_apply]
    split
    · simp
    · rename_i hyx
      exact hC.present y (((hys y).1 hy).resolve_left hyx)

private theorem meets_fill (f : OutputFile) (htemp : Temporary D temp x) (hx : x ∈ xs) (hC : Holds D xs C h) :
    (fill temp f).Meets h (fun _ => Holds D xs (update C x (some (.file f.content)))) (Staged D xs) := by
  refine Work.Meets.bind (Q := fun _ => Holds D xs (update C x (some (.file f.content)))) ?_ ?_
  · refine ((hC.at_.write htemp.entry "write" f.content).mono ?_ ?_).during _
    · rintro _ h' ⟨-, -, hat⟩
      exact hC.written (fun y => ⟨.inr, fun hy => hy.elim (· ▸ hx) id⟩) hat
    · exact fun h' hat => ⟨C, hat, hC.agrees⟩
  · intro _ h' hC'
    refine Work.Meets.bind (Q := fun _ => Holds D xs (update C x (some (.file f.content)))) ?_ ?_
    · refine (Work.meets_change (fun due => (hC'.due due).staged) ?_).during _
      rintro due disk hdisk
      cases hdisk
      exact hC'.due due
    · intro _ h'' hC''
      refine (Work.meets_change (fun due => (hC''.due due).staged) ?_).during _
      intro due disk hdisk
      cases hfind : Host.find { h'' with due } temp with
      | error e =>
        rw [hfind] at hdisk
        cases hdisk
      | ok found =>
        rw [hfind] at hdisk
        cases hdisk
        exact hC''.due due

private theorem Holds.createTemporary {base parent : String} (hC : Holds D xs C h) (hbase : '/' ∉ base.toList)
    (hparent : D.IsAt parent) : (Work.createTemporary parent ("." ++ base ++ ".") ".tmp").Meets h
      (fun temp h' => ∃ x, temp = Host.below parent x ∧ Temporary D temp x ∧ base.length < x.length ∧ x ∉ xs ∧
        Holds D (xs ++ [x]) (update C x (some (.file ""))) h') (Staged D xs) := by
  obtain ⟨hfits, -, hplace, -⟩ := Disk.find_eq_directory.1 hparent
  have hstart : '/' ∉ ("." ++ base ++ ".").toList := by simpa using hbase
  refine (Work.meets_drawPath (P := fun temp h' => ∃ n draws,
    temp = Host.below parent (Host.numbered ("." ++ base ++ ".") ".tmp" n) ∧ h.exists_ temp = false ∧
      h' = { h with draws }) "createtemp" hC.staged fun n draws hnew => ?_).bind ?_
  · exact ⟨n, draws, rfl, hnew, rfl⟩
  rintro _ _ ⟨n, draws, rfl, hfree, rfl⟩
  have hflat : ∀ stop : String, '/' ∉ stop.toList → IsFlat (Host.numbered ("." ++ base ++ ".") stop n) :=
    fun stop hstop => Host.isFlat_numbered hstart hstop n
  have hbackup : IsFlat (Host.numbered ("." ++ base ++ ".") ".tmp" n ++ backupEnd) := by
    rw [Host.numbered, String.append_assoc]
    exact hflat (".tmp" ++ backupEnd) (by decide)
  have hends : Text.hasSuffix ".tmp" (Host.numbered ("." ++ base ++ ".") ".tmp" n) = true := by
    rw [Host.numbered, Text.hasSuffix, String.toList_append, isSuffixOf_iff_suffix]
    exact suffix_append _ _
  have hlonger : base.length < (Host.numbered ("." ++ base ++ ".") ".tmp" n).length := by
    simp only [Host.numbered, String.length_append]
    have hdot : ".".length = 1 := rfl
    omega
  have hpath := Path.isEntry_below D.here hfits.ne_empty (hflat ".tmp" (by decide))
  rw [hplace] at hpath
  generalize Host.numbered ("." ++ base ++ ".") ".tmp" n = x at hfree hbackup hends hlonger hpath ⊢
  refine (((hC.at_.draws draws).write hpath "open" "").mono (fun _ _ hwritten => hwritten) fun h' hat => ?_).bind ?_
  · exact ⟨C, hat, hC.agrees⟩
  rintro _ h' ⟨hleads, -, hat⟩
  have hnone : C x = none := by
    refine Option.eq_none_iff_forall_ne_some.2 fun e he => ?_
    rw [Host.exists_, Host.find, hC.at_.here_eq, (hC.at_.shows.find_iff hleads).2 ⟨rfl, he⟩] at hfree
    cases hfree
  have hnew : x ∉ xs := fun hmem => hC.present x hmem hnone
  have htemp : Temporary D (Host.below parent x) x :=
    ⟨hpath, hleads, hC.agrees x hnew ▸ hnone, hends, hpath.append (by decide) hbackup⟩
  exact Work.meets_pure ⟨x, rfl, htemp, hlonger, hnew, hC.written (fun y => by simp [or_comm]) hat⟩

/-- Files have been written to temporary ones, whose names are longer than their own. -/
structure Stages (D : Folder) (dir : String) (temps xs : List String) (files : List OutputFile) (C : Contents)
    (h : Host) : Prop where
  temporaries : Temporaries D temps xs
  holds : Holds D xs C h
  paths : temps = xs.map (Host.below (Path.trunk dir))
  filled : Forall₂ (fun f x => C x = some (.file f.content) ∧ f.name.length < x.length) files xs

/-- All files are written to temporary ones, or only such files have changed. -/
theorem meets_stage {files done : List OutputFile} (hdir : D.IsAt dir) (hflat : ∀ f ∈ files, IsFlat f.name)
    (hdone : Stages D dir temps xs done C h) :
    (stage dir temps files).Meets h (fun temps' h' => ∃ xs' C', Stages D dir temps' xs' (done ++ files) C' h')
      (D.At D.contents) := by
  induction files generalizing temps xs C h done with
  | nil => exact Work.meets_pure ⟨xs, C, by simpa using hdone⟩
  | cons f files ih =>
    obtain ⟨htemps, hC, hpaths, hfilled⟩ := hdone
    have hf := hflat f (.head _)
    have hrest := fun g hg => hflat g (.tail f hg)
    have hne : dir ≠ "" := (Disk.find_eq_directory.1 hdir).1.ne_empty
    have hparent : Path.parent (destination dir f) = Path.trunk dir := Path.parent_join hne hf
    have hbase : Path.base (destination dir f) = f.name := Path.base_join hne hf
    have hfind : D.IsAt (Path.parent (destination dir f)) :=
      hparent ▸ Disk.find_trunk hdir
    refine (meets_orElseRemove htemps.each ((hC.at_.makeDirectories hfind).during _)).bind ?_
    rintro _ h' rfl
    have hcreate := hC.createTemporary (hbase ▸ hf.segment.2) hfind
    refine (meets_orElseRemove htemps.each (hcreate.during _)).bind ?_
    rintro temp h' ⟨x, hbelow, htemp, hlonger, hnew, hC'⟩
    have htemps' := htemps.concat htemp hnew
    refine (meets_orElseRemove htemps'.each (meets_fill f htemp (by simp) hC')).bind ?_
    intro _ h'' hC''
    rw [append_cons done f files]
    refine ih hrest ⟨htemps', hC'', by simp [hpaths, hbelow, hparent], rel_append ?_ (.cons ⟨?_, ?_⟩ .nil)⟩
    · -- the file is new, so it is none of those that were filled before
      have hxs := (forall₂_and_left xs done).2 ⟨fun y hy => hy, hfilled.flip⟩
      refine hxs.flip.imp fun g y hgy => ?_
      have hyx : y ≠ x := fun heq => hnew (heq ▸ hgy.1)
      rw [Function.update_of_ne hyx, Function.update_of_ne hyx]
      exact hgy.2
    · rw [Function.update_self]
    · rwa [hbase] at hlonger

/-- A replacement with its names, by which it can be taken back. -/
inductive Undoes (D : Folder) : Replacement → Names → Prop
  | placed {dest y : String} (hdest : D.Leads dest y) (hy : D.IsFree y) : Undoes D ⟨dest, none⟩ (y, none)
  | replaced {dest old y b : String} (hdest : D.Leads dest y) (hy : D.IsFree y) (hold : D.Leads old b)
      (hb : D.IsFree b) : Undoes D ⟨dest, some old⟩ (y, some b)

private theorem meets_undo {r : Replacement} {u : Names} (hr : Undoes D r u) (hC : D.At C h) :
    r.undo.Meets h (fun _ => D.At (C.undo u)) E := by
  cases hr with
  | placed hdest hy => exact hC.remove hdest hy
  | replaced hdest hy hold hb => exact hC.restore hold hdest hb hy

variable {us : List Names} {ws : List String}

private theorem meets_rollBack {done : List Replacement} (htemps : Forall₂ (Temporary D) temps xs)
    (hdone : Forall₂ (Undoes D) done us) (hC : D.At C h)
    (hundone : Agrees xs (us.foldl Contents.undo C) D.contents) :
    (rollBack temps done).Meets h (fun _ => D.At D.contents) E := by
  have hstep : ∀ r done h, (∃ us C, Forall₂ (Undoes D) (r :: done) us ∧ D.At C h ∧
      Agrees xs (us.foldl Contents.undo C) D.contents) → r.undo.Meets h (fun _ h => ∃ us C,
        Forall₂ (Undoes D) done us ∧ D.At C h ∧ Agrees xs (us.foldl Contents.undo C) D.contents) E := by
    rintro r done h ⟨_, C, hall, hC, hundone⟩
    obtain ⟨u, us, hu, hus, rfl⟩ := forall₂_cons_left_iff.1 hall
    exact (meets_undo hu hC).mono (fun _ h' hC' => ⟨us, _, hus, hC', hundone⟩) fun _ h => h
  have hloop := Work.meets_forM (P := fun done h => ∃ us C, Forall₂ (Undoes D) done us ∧ D.At C h ∧
    Agrees xs (us.foldl Contents.undo C) D.contents) hstep ⟨us, C, hdone, hC, hundone⟩
  refine hloop.bind ?_
  rintro _ h' ⟨_, C', hnil, hC', hundone'⟩
  rw [forall₂_nil_left_iff.1 hnil] at hundone'
  exact meets_removeAll htemps ⟨C', hC', hundone'⟩

/-- Undoing the replacements so far gives the beginning back, other names stand for what they did, and the names are
free that are still to be used for old files. -/
structure Committing (D : Folder) (xs ws : List String) (us : List Names) (C : Contents) : Prop where
  undone : Undone xs us C D.contents
  kept : ∀ z, z ∉ xs → z ∉ us.map (·.1) → some z ∉ us.map (·.2) → C z = D.contents z
  waiting : ∀ w ∈ ws, some (w ++ backupEnd) ∉ us.map (·.2)

namespace Committing

variable {w y : String} (hC : Committing D xs (w :: ws) us C)
include hC

private theorem backup_eq_none (hb : w ++ backupEnd ∉ xs) (hnone : D.contents (w ++ backupEnd) = none)
    (hover : ¬Contents.Overwrites us (w ++ backupEnd)) : C (w ++ backupEnd) = none := by
  have hnot := hC.waiting w (.head _)
  rw [hC.kept _ hb (fun hmem => hover ⟨hmem, hnot⟩) hnot, hnone]

private theorem placed (hw : w ∈ xs) (hy : C y = none) (hsome : C w ≠ none) :
    Committing D xs ws ((y, none) :: us) (C.move w y) := by
  refine ⟨hC.undone.placed hw hy hsome, fun z hz hdest hbackup => ?_, fun v hv => ?_⟩
  · simp only [map_cons, mem_cons, not_or] at hdest hbackup
    have hzw : z ≠ w := fun heq => hz (heq ▸ hw)
    rw [Contents.move_apply hsome, if_neg hdest.1, if_neg hzw, hC.kept z hz hdest.2 hbackup.2]
  · simpa using hC.waiting v (.tail w hv)

private theorem replaced (hw : w ∈ xs) (hnew : w ∉ ws) (hb : w ++ backupEnd ∉ xs) (hby : w ++ backupEnd ≠ y)
    (hy : C y ≠ none) (hnone : D.contents (w ++ backupEnd) = none) (hsome : C.move y (w ++ backupEnd) w ≠ none) :
    Committing D xs ws ((y, some (w ++ backupEnd)) :: us) ((C.move y (w ++ backupEnd)).move w y) := by
  refine ⟨hC.undone.replaced hw hb hby hy (hC.backup_eq_none hb hnone) hsome, fun z hz hdest hbackup => ?_,
    fun v hv => ?_⟩
  · simp only [map_cons, mem_cons, not_or, Option.some.injEq] at hdest hbackup
    have hzw : z ≠ w := fun heq => hz (heq ▸ hw)
    rw [Contents.move_apply hsome, if_neg hdest.1, if_neg hzw, Contents.move_apply hy, if_neg hbackup.1,
      if_neg hdest.1, hC.kept z hz hdest.2 hbackup.2]
  · have hvw : v ≠ w := fun heq => hnew (heq ▸ hv)
    simpa [hvw] using hC.waiting v (.tail w hv)

end Committing

variable {files : List OutputFile} {f : OutputFile}

/-- A file that can be written: its destination is no directory. -/
structure Writable (D : Folder) (dir : String) (f : OutputFile) : Prop where
  flat : IsFlat f.name
  file : ∀ q, D.disk.find D.here (destination dir f) ≠ .ok (q, .directory)

theorem isEntry_destination (hdir : D.IsAt dir) (hflat : IsFlat f.name) :
    IsEntry D.here (destination dir f) D.place f.name := by
  obtain ⟨hfits, -, hplace, -⟩ := Disk.find_eq_directory.1 hdir
  rw [← hplace]
  exact Path.isEntry_join D.here hfits.ne_empty hflat

/-- A temporary file that can take the place of a destination. -/
structure Ready (D : Folder) (p : OutputFile × String) (w : String) : Prop where
  temporary : Temporary D p.2 w
  longer : p.1.name.length < w.length
  kept : ∀ q content, D.disk.find D.here (p.2 ++ backupEnd) ≠ .ok (q, .file content)

/-- After a replacement it can be undone with those before it, and after a failed one those can be undone. -/
theorem meets_replace {w : String} {p : OutputFile × String} (hdir : D.IsAt dir) (hfile : Writable D dir p.1)
    (hready : Ready D p w) (hw : w ∈ xs) (hnew : w ∉ ws) (hb : w ++ backupEnd ∉ xs) (hat : D.At C h)
    (hC : Committing D xs (w :: ws) us C) : (replace dir p.1 p.2).Meets h
      (fun r h' => ∃ u C', Undoes D r u ∧ D.At C' h' ∧ Committing D xs ws (u :: us) C')
      (fun h' => ∃ C', D.At C' h' ∧ Agrees xs (us.foldl Contents.undo C') D.contents) := by
  have hdest := isEntry_destination hdir hfile.flat
  have htemp := hready.temporary
  have hby : w ++ backupEnd ≠ p.1.name := by
    intro heq
    have hlength := congrArg String.length heq
    have hlonger := hready.longer
    rw [String.length_append] at hlength
    omega
  have hfind :
      h.find (destination dir p.1) = h.disk.find D.here (destination dir p.1) := by rw [Host.find, hat.here_eq]
  refine Work.meets_get_bind ?_
  split
  · -- an old file is there: it is moved aside, and back if the new one cannot take its place
    rename_i hexists
    obtain ⟨⟨q, e⟩, hfound⟩ : ∃ r, h.disk.find D.here (destination dir p.1) = .ok r := by
      rw [Host.exists_, hfind] at hexists
      cases hr : h.disk.find D.here (destination dir p.1) with
      | error errno => simp [hr, Except.toOption] at hexists
      | ok r => exact ⟨r, rfl⟩
    obtain ⟨t, ht, -⟩ := Disk.find_eq_ok.1 hfound
    have hleads := hat.shows.leads hdest ht
    have hyfree : D.IsFree p.1.name := fun hdirectory =>
      hfile.file _ ((D.shows_disk.find_iff hleads).2 ⟨rfl, hdirectory⟩)
    refine (((hat.rename hdest htemp.backup hyfree).during _).mono (fun _ _ h => h) fun h' hat' => ?_).bind ?_
    · exact ⟨C, hat', hC.undone.agrees⟩
    rintro _ h₁ ⟨-, hold, hbfree, hysome, hat₁⟩
    have hnone : D.contents (w ++ backupEnd) = none := by
      refine Option.eq_none_iff_forall_ne_some.2 fun e he => ?_
      cases e with
      | file content => exact hready.kept _ content ((D.shows_disk.find_iff hold).2 ⟨rfl, he⟩)
      | directory => exact hbfree he
    have hplace :=
      (hat₁.rename htemp.entry hdest htemp.isFree).during ("failed to move " ++ p.1.name ++ " into place")
    refine (hplace.tryCatch fun failure h₂ hat₂ => ?_).bind ?_
    · refine (hat₂.restore hold hleads hbfree hyfree).bind fun _ h₃ hat₃ => Work.meets_throw ⟨_, hat₃, ?_⟩
      exact hC.undone.moved_back hysome (hC.backup_eq_none hb hnone)
    · rintro _ h₂ ⟨-, -, -, hwsome, hat₂⟩
      exact Work.meets_pure ⟨_, _, .replaced hleads hyfree hold hbfree, hat₂,
        hC.replaced hw hnew hb hby hysome hnone hwsome⟩
  · -- nothing is there, so undoing is removing
    rename_i hexists
    refine (((hat.rename htemp.entry hdest htemp.isFree).during _).mono (fun _ _ h => h) fun h' hat' => ?_).bind ?_
    · exact ⟨C, hat', hC.undone.agrees⟩
    rintro _ h₁ ⟨-, hleads, hyfree, hwsome, hat₁⟩
    have hynone : C p.1.name = none := by
      refine Option.eq_none_iff_forall_ne_some.2 fun e he => hexists ?_
      rw [Host.exists_, hfind, (hat.shows.find_iff hleads).2 ⟨rfl, he⟩]
      rfl
    exact Work.meets_pure ⟨_, _, .placed hleads hyfree, hat₁, hC.placed hw hynone hwsome⟩

private theorem meets_commit {todo : List (OutputFile × String)} {done : List Replacement} (hdir : D.IsAt dir)
    (htemps : Temporaries D temps xs) (hfiles : ∀ p ∈ todo, Writable D dir p.1)
    (htodo : Forall₂ (Ready D) todo ws) (hws : ws.Sublist xs) (hdone : Forall₂ (Undoes D) done us)
    (hat : D.At C h) (hC : Committing D xs ws us C) :
    (commit dir temps done todo).Meets h (fun _ _ => True) (D.At D.contents) := by
  induction htodo generalizing done us C h with
  | nil => exact Work.meets_pure trivial
  | @cons p w todo ws hready htodo ih =>
    have hnew : w ∉ ws := (nodup_cons.1 (htemps.nodup.sublist hws)).1
    have hreplace := meets_replace hdir (hfiles p (.head _)) hready (hws.subset (.head _)) hnew
      (htemps.backup_not_mem w) hat hC
    refine (hreplace.tryCatch fun failure h' hfailed => ?_).bind ?_
    · obtain ⟨C', hat', hundone⟩ := hfailed
      exact (meets_rollBack htemps.each hdone hat' hundone).bind fun _ _ hC'' => Work.meets_throw hC''
    · rintro r h' ⟨u, C', hu, hat', hC'⟩
      exact ih (fun q hq => hfiles q (.tail p hq)) ((sublist_cons_self w ws).trans hws) (.cons hu hdone) hat' hC'

/-- The disk with the directory that files are written to, as far as it can be made. -/
def prepared (dir : String) (h : Host) : Disk := (Host.makeDirectories dir.length h.disk h.here dir).1

/-- The temporary files of a write that comes to replacing, by their paths. -/
def temporaries (dir : String) (files : List OutputFile) (h : Host) : List String :=
  ((Work.makeDirectories dir >>= fun _ => stage dir [] files).run.run h).1.toOption.getD []

private theorem temporaries_eq {h₁ h₂ : Host} (hmade : (Work.makeDirectories dir).run.run h = (.ok (), h₁))
    (hstage : (stage dir [] files).run.run h₁ = (.ok temps, h₂)) : temporaries dir files h = temps := by
  rw [temporaries, ExceptT.run_bind, StateT.run_bind, hmade]
  change ((stage dir [] files).run.run h₁).1.toOption.getD [] = temps
  rw [hstage]
  rfl

/-- Writing to a directory that is there. -/
def writeInto (dir : String) (files : List OutputFile) : Work (List String) := do
  let temps ← stage dir [] files
  let done ← commit dir temps [] (files.zip temps)
  (done.reverse.filterMap (·.backup)).forM Work.remove
  return files.map (destination dir)

theorem stages_nil (hC : D.At D.contents h) : Stages D dir [] [] [] D.contents h :=
  ⟨⟨.nil, .nil⟩, ⟨hC, fun _ _ => rfl, forall_mem_nil _⟩, rfl, .nil⟩

private theorem forall₂_zip {α β γ : Type} {R : α → γ → Prop} {S : β → γ → Prop} {as : List α} {bs : List β}
    {cs : List γ} (h : Forall₂ R as cs) (h' : Forall₂ S bs cs) :
    Forall₂ (fun p c => R p.1 c ∧ S p.2 c) (as.zip bs) cs := by
  induction h generalizing bs with
  | nil => exact .nil
  | cons hR _ ih =>
    obtain ⟨b, bs, hS, hbs, rfl⟩ := forall₂_cons_right_iff.1 h'
    exact .cons ⟨hR, hS⟩ (ih hbs)

private theorem Stages.ready (hC : Stages D dir temps xs files C h)
    (hkept : ∀ temp ∈ temps, ∀ q content, D.disk.find D.here (temp ++ backupEnd) ≠ .ok (q, .file content)) :
    Forall₂ (Ready D) (files.zip temps) xs := by
  have htemps := (forall₂_and_left temps xs).2 ⟨hkept, hC.temporaries.each⟩
  exact (forall₂_zip hC.filled htemps).imp fun p w h => ⟨h.2.2, h.1.2, h.2.1⟩

private theorem meets_writeInto (hdir : D.IsAt dir) (hfiles : ∀ f ∈ files, Writable D dir f) (hC : D.At D.contents h)
    (hkept : ∀ temps h', (stage dir [] files).run.run h = (.ok temps, h') → ∀ temp ∈ temps, ∀ q content,
      D.disk.find D.here (temp ++ backupEnd) ≠ .ok (q, .file content)) :
    (writeInto dir files).Meets h (fun _ _ => True) (D.At D.contents) := by
  refine (meets_stage hdir (fun f hf => (hfiles f hf).flat) (stages_nil hC)).with_run.bind ?_
  rintro temps h₁ ⟨⟨xs, C, hstages⟩, hrun⟩
  have htemps := hstages.temporaries
  have hbegin : Committing D xs xs [] C :=
    ⟨Contents.undone_nil hstages.holds.agrees, fun z hz _ _ => hstages.holds.agrees z hz, fun _ _ => not_mem_nil⟩
  refine (meets_commit hdir htemps (fun p hp => hfiles p.1 (of_mem_zip hp).1)
    (hstages.ready (hkept temps h₁ hrun)) (.refl xs) .nil hstages.holds.at_ hbegin).bind ?_
  intro done h₂ _
  have hremove : ∀ path h, (Work.remove path).Meets h (fun _ _ => True) (D.At D.contents) :=
    fun path h => Work.meets_modify trivial
  have hloop : ((done.reverse.filterMap (·.backup)).forM Work.remove).Meets h₂ (fun _ _ => True) (D.At D.contents) :=
    Work.meets_forM (P := fun _ _ => True) (fun path _ h _ => hremove path h) trivial
  exact hloop.bind fun _ _ _ => Work.meets_pure trivial

/-- The directory that is written to is there, or writing fails. -/
theorem meets_makeDirectories (dir : String) (h : Host) :
    (Work.makeDirectories dir).Meets h
      (fun _ h' => h' = { h with disk := prepared dir h } ∧
        ∃ p, (prepared dir h).find h.here dir = .ok (p, .directory))
      (fun h' => h' = { h with disk := prepared dir h }) := by
  have hfound : (Host.makeDirectories dir.length h.disk h.here dir).2 = none →
      ∃ p, (prepared dir h).find h.here dir = .ok (p, .directory) := (Disk.makeDirectories_eq rfl).2
  refine Work.meets_get_bind (Work.meets_set_bind ?_)
  cases hfault : (Host.makeDirectories dir.length h.disk h.here dir).2 with
  | none => exact Work.meets_pure ⟨rfl, hfound hfault⟩
  | some fault => exact Work.meets_throw rfl

/-- A directory that is found on a tree is a folder. -/
theorem exists_folder {p : Place} (htree : h.disk.IsTree)
    (hdir : (prepared dir h).find h.here dir = .ok (p, .directory)) :
    ∃ D : Folder, D.disk = prepared dir h ∧ D.here = h.here ∧ D.place = p :=
  ⟨⟨prepared dir h, h.here, p, (Disk.makeDirectories_eq rfl).1.isTree htree, (Disk.find_eq_directory.1 hdir).2.2.2⟩,
    rfl, rfl, rfl⟩

/-- What holds of writing to directories that are there holds of writing once the directory has been made. -/
theorem meets_writeFiles_of {P : List String → Host → Prop} (htree : h.disk.IsTree)
    (hmake : E { h with disk := prepared dir h })
    (hwrite : ∀ D : Folder, D.disk = prepared dir h → D.here = h.here → D.IsAt dir →
      D.At D.contents { h with disk := prepared dir h } →
      (∀ temps h', (stage dir [] files).run.run { h with disk := prepared dir h } = (.ok temps, h') →
        temporaries dir files h = temps) →
      (writeInto dir files).Meets { h with disk := prepared dir h } P E) : (writeFiles dir files).Meets h P E := by
  refine (((meets_makeDirectories dir h).with_run.mono (fun _ _ h => h) ?_).during _).bind ?_
  · rintro _ rfl
    exact hmake
  · rintro _ _ ⟨⟨rfl, p, hdir⟩, hmade⟩
    obtain ⟨D, hdisk, hhere, rfl⟩ := exists_folder htree hdir
    have htemps : ∀ temps h', (stage dir [] files).run.run { h with disk := prepared dir h } = (.ok temps, h') →
        temporaries dir files h = temps := fun _ _ => temporaries_eq hmade
    rw [← hdisk] at hdir hwrite htemps ⊢
    rw [← hhere] at hdir
    exact hwrite D rfl hhere hdir ⟨hhere.symm, D.shows_disk⟩ htemps

private theorem meets_writeFiles (htree : h.disk.IsTree) (hflat : ∀ f ∈ files, IsFlat f.name)
    (hfile : ∀ f ∈ files, ∀ q, (prepared dir h).find h.here (destination dir f) ≠ .ok (q, .directory))
    (hkept : ∀ temp ∈ temporaries dir files h, ∀ q content,
      (prepared dir h).find h.here (temp ++ backupEnd) ≠ .ok (q, .file content)) :
    (writeFiles dir files).Meets h (fun _ _ => True)
      (fun h' => h'.here = h.here ∧ ∀ q, h'.disk.at? q = (prepared dir h).at? q) := by
  refine meets_writeFiles_of htree ⟨rfl, fun q => rfl⟩ fun D hdisk hhere hdir hbegin htemps => ?_
  rw [← hdisk, ← hhere] at hfile hkept
  refine (meets_writeInto hdir (fun f hf => ⟨hflat f hf, hfile f hf⟩) hbegin fun temps h' hrun => ?_).mono
    (fun _ _ h => h) fun h' hC => ?_
  · exact htemps temps h' hrun ▸ hkept
  · exact ⟨hC.here_eq.trans hhere, fun q => hdisk ▸ hC.shows.at?_eq q⟩

/-- A write that fails leaves every file where it was with its content, and no other file: neither a destination nor a
temporary file nor one that was kept aside.  Only directories that were made for it stay.  Each destination has to be
absent or a file once these directories are there, and no file may have one of the names that old files are kept
under: the numbers in them are drawn, and nobody looks whether they are free. -/
theorem writeFiles_restores {files : List OutputFile} {h' : Host} {failure : Failure} (htree : h.disk.IsTree)
    (hflat : ∀ f ∈ files, IsFlat f.name)
    (hfile : ∀ f ∈ files, ∀ q, (prepared dir h).find h.here (destination dir f) ≠ .ok (q, .directory))
    (hkept : ∀ temp ∈ temporaries dir files h, ∀ q content,
      (prepared dir h).find h.here (temp ++ backupEnd) ≠ .ok (q, .file content))
    (hrun : (writeFiles dir files).run.run h = (.error failure, h')) :
    (∀ q content, h'.disk.at? q = some (.file content) ↔ h.disk.at? q = some (.file content)) ∧
      (∀ f ∈ files, ∀ q e, h'.find (destination dir f) = .ok (q, e) → h.disk.at? q = some e) ∧
      (∀ q, h'.disk.at? q = (prepared dir h).at? q) ∧
      (∀ p, h.find dir = .ok (p, .directory) → ∀ q, h'.disk.at? q = h.disk.at? q) := by
  obtain ⟨hhere, hat⟩ := (meets_writeFiles htree hflat hfile hkept).of_error hrun
  have hgrows : h.disk.Grows (prepared dir h) := (Disk.makeDirectories_eq rfl).1
  have hfiles : ∀ q content, h'.disk.at? q = some (.file content) ↔ h.disk.at? q = some (.file content) :=
    fun q content => hat q ▸ hgrows.file q content
  refine ⟨hfiles, fun f hf q e hfind => ?_, hat, fun p hp q => ?_⟩
  · obtain ⟨t, ht, rfl, he, hclosed⟩ := Disk.find_eq_ok.1 hfind
    cases e with
    | file content => exact (hfiles _ content).1 he
    | directory =>
      refine absurd (Disk.find_eq_ok.2 ⟨t, ?_, rfl, hat t.place ▸ he, hclosed⟩) (hfile f hf t.place)
      exact Disk.target_mono (fun q hq => hat q ▸ hq) (hhere ▸ ht)
  · have hprepared : prepared dir h = h.disk := by rw [prepared, Disk.makeDirectories_of_find _ hp]
    rw [hat q, hprepared]

/-- A host whose seventeenth operation fails.  Only sevens are drawn. -/
def shelf : Host :=
  { disk := ⟨[(["out"], .directory), (["out", "A.ts"], .file "old a"), (["out", "C.ts"], .file "old c")]⟩
    due := replicate 16 none ++ [some .denied]
    draws := fun _ => 7 }

def editions : List OutputFile :=
  [⟨"typescript", "A.ts", "a"⟩, ⟨"typescript", "B.ts", "b"⟩, ⟨"typescript", "C.ts", "c"⟩]

/-- The third file cannot be moved into place after its old one has been moved aside.  By then one file has been
replaced and one is new. -/
theorem writeFiles_restores_shelf :
    ∃ failure h', (writeFiles "out" editions).run.run shelf = (.error failure, h') ∧
      ∀ q, h'.disk.at? q = shelf.disk.at? q := by
  have hfails : ((writeFiles "out" editions).run.run shelf).1.toOption = none := by decide +kernel
  rcases hrun : (writeFiles "out" editions).run.run shelf with ⟨failure | paths, h'⟩
  · refine ⟨failure, h', rfl, ?_⟩
    have htree : shelf.disk.IsTree := by decide +kernel
    have hflat : ∀ f ∈ editions, IsFlat f.name := by decide +kernel
    have hfile : ∀ f ∈ editions, ∀ q,
        (prepared "out" shelf).find shelf.here (destination "out" f) ≠ .ok (q, .directory) := by
      have hentry : ∀ f ∈ editions,
          ((prepared "out" shelf).find shelf.here (destination "out" f)).toOption.map (·.2) ≠ some .directory := by
        decide +kernel
      intro f hf q hfind
      exact hentry f hf (by rw [hfind]; rfl)
    have hkept : ∀ temp ∈ temporaries "out" editions shelf, ∀ q content,
        (prepared "out" shelf).find shelf.here (temp ++ backupEnd) ≠ .ok (q, .file content) := by
      have hnone : ∀ temp ∈ temporaries "out" editions shelf,
          ((prepared "out" shelf).find shelf.here (temp ++ backupEnd)).toOption = none := by
        decide +kernel
      intro temp htemp q content hfind
      cases (hnone temp htemp).symm.trans (congrArg Except.toOption hfind)
    have hdir : shelf.find "out" = .ok (["out"], .directory) := by decide +kernel
    exact (writeFiles_restores htree hflat hfile hkept hrun).2.2.2 ["out"] hdir
  · rw [hrun] at hfails
    cases hfails

/-- A directory that has a file under the name that the old file is kept under once seven is drawn.  The sixth
operation fails. -/
def bundle : Host :=
  { disk := ⟨[(["out"], .directory), (["out", "A.ts"], .file "old a"), (["out", ".A.ts.7.tmp.bak"], .file "kept")]⟩
    due := replicate 5 none ++ [some .denied]
    draws := fun _ => 7 }

/-- An empty directory.  The first operation fails. -/
def crate : Host := { disk := ⟨[(["x"], .directory)]⟩, due := [some .denied], draws := fun _ => 7 }

/-- Writes that fail and do not leave all as it was.  In one the file that was there already is gone; in the other one
the destination was nothing and is a directory, since it is on the way to the directory that is written to. -/
theorem writeFiles_not_restored :
    (let end_ := (writeFiles "out" [⟨"typescript", "A.ts", "a"⟩]).run.run bundle
     end_.1.toOption = none ∧ end_.2.disk.at? ["out", "A.ts"] = some (.file "old a") ∧
      bundle.disk.at? ["out", ".A.ts.7.tmp.bak"] = some (.file "kept") ∧
      end_.2.disk.at? ["out", ".A.ts.7.tmp.bak"] = none) ∧
    (let end_ := (writeFiles "x/y/.." [⟨"typescript", "y", "a"⟩]).run.run crate
     end_.1.toOption = none ∧ destination "x/y/.." ⟨"typescript", "y", "a"⟩ = "x/y" ∧
      crate.disk.at? ["x", "y"] = none ∧ end_.2.disk.at? ["x", "y"] = some .directory) := by
  decide +kernel

end Output

end Covenant
