import Mathlib.Logic.Function.Basic
import Covenant.Proofs.Disk.Directories

/-!
# Work in one directory

Work on a host ends with a result or with a failure, and leaves a host behind either way (`Work.Meets`).  Work that
only touches the files of one directory is followed through what that directory holds: a map from names to entries
(`Folder.At`).
-/

namespace Covenant

open List

namespace Work

variable {α β : Type} {h : Host} {P Q : α → Host → Prop} {E F : Host → Prop} {t : Work α}

/-- From a host, the work leaves one with `P` if it succeeds and one with `E` if it fails. -/
def Meets (t : Work α) (h : Host) (P : α → Host → Prop) (E : Host → Prop) : Prop :=
  match (t.run.run h : Except Failure α × Host) with
  | (.ok a, h') => P a h'
  | (.error _, h') => E h'

theorem Meets.of_error {failure : Failure} {h' : Host} (ht : t.Meets h P E)
    (hrun : t.run.run h = (.error failure, h')) : E h' := by
  rw [Meets, hrun] at ht
  exact ht

theorem Meets.of_ok {a : α} {h' : Host} (ht : t.Meets h P E) (hrun : t.run.run h = (.ok a, h')) : P a h' := by
  rw [Meets, hrun] at ht
  exact ht

theorem meets_true (t : Work α) : t.Meets h (fun _ _ => True) fun _ => True := by
  unfold Meets
  split <;> trivial

theorem Meets.mono (ht : t.Meets h P E) (hP : ∀ a h', P a h' → Q a h') (hE : ∀ h', E h' → F h') : t.Meets h Q F := by
  unfold Meets at ht ⊢
  split <;> simp_all

/-- What holds of a result holds of the one that the work gives. -/
theorem Meets.with_run (ht : t.Meets h P E) : t.Meets h (fun a h' => P a h' ∧ t.run.run h = (.ok a, h')) E := by
  unfold Meets at ht ⊢
  split <;> simp_all

theorem meets_pure {a : α} (ha : P a h) : Meets (pure a) h P E := ha

theorem meets_throw {failure : Failure} (h' : E h) : Meets (throw failure) h P E := h'

/-- The rule for one piece of work after another. -/
theorem Meets.bind {P : β → Host → Prop} {f : α → Work β} (ht : t.Meets h Q E)
    (hf : ∀ a h', Q a h' → (f a).Meets h' P E) : (t >>= f).Meets h P E := by
  rw [Meets] at ht ⊢
  rw [ExceptT.run_bind, StateT.run_bind]
  rcases hrun : t.run.run h with ⟨failure | a, h'⟩
  · rw [hrun] at ht
    exact ht
  · rw [hrun] at ht
    exact hf a h' ht

/-- The rule for work that takes over after a failure. -/
theorem Meets.tryCatch {f : Failure → Work α} (ht : t.Meets h P F)
    (hf : ∀ failure h', F h' → (f failure).Meets h' P E) : Meets (tryCatch t f) h P E := by
  rw [Meets] at ht ⊢
  rw [ExceptT.run_tryCatch, StateT.run_bind]
  rcases hrun : t.run.run h with ⟨failure | a, h'⟩
  · rw [hrun] at ht
    exact hf failure h' ht
  · rw [hrun] at ht
    exact ht

theorem Meets.during (ht : t.Meets h P E) (activity : String) : (t.during activity).Meets h P E :=
  ht.tryCatch fun _ _ hE => meets_throw hE

theorem meets_get_bind {f : Host → Work α} (hf : (f h).Meets h P E) : Meets (get >>= f) h P E := hf

theorem meets_set_bind {h' : Host} {f : Unit → Work α} (hf : (f ()).Meets h' P E) : Meets (set h' >>= f) h P E := hf

theorem meets_modify {P : Unit → Host → Prop} {f : Host → Host} (hP : P () (f h)) : Meets (modify f) h P E := hP

theorem meets_attempt {P : Unit → Host → Prop} {f : Host → Except Errno Disk}
    (hP : P () { h with disk := (f h).toOption.getD h.disk }) : Meets (attempt f) h P E := by
  refine meets_modify ?_
  split <;> rename_i hrun <;> rw [hrun] at hP <;> exact hP

theorem meets_readFile {path : String} {P : String → Host → Prop} (hP : ∀ s, h.readFile path = .ok s → P s h)
    (hE : E h) : (readFile path).Meets h P E := by
  refine meets_get_bind ?_
  cases hread : h.readFile path with
  | ok s => exact meets_pure (hP s hread)
  | error fault => exact meets_throw hE

/-- The rule for a loop, one round at a time. -/
theorem meets_forIn_cons {b : β} {bs : List β} {f : β → PUnit → Work (ForInStep PUnit)} {P : PUnit → Host → Prop}
    {Q : Host → Prop} (hf : (f b PUnit.unit).Meets h (fun r h' => r = ForInStep.yield PUnit.unit ∧ Q h') E)
    (hbs : ∀ h', Q h' → (forIn bs PUnit.unit f).Meets h' P E) : (forIn (b :: bs) PUnit.unit f).Meets h P E := by
  rw [forIn_cons]
  refine hf.bind ?_
  rintro _ h' ⟨rfl, hQ⟩
  exact hbs h' hQ

/-- The rule for a loop with an invariant of what is left. -/
theorem meets_forM {P : List β → Host → Prop} {f : β → Work Unit} {bs : List β}
    (hf : ∀ b bs h, P (b :: bs) h → (f b).Meets h (fun _ => P bs) E) (h₀ : P bs h) :
    Meets (bs.forM f) h (fun _ => P []) E := by
  induction bs generalizing h with
  | nil => exact meets_pure h₀
  | cons b bs ih => exact (hf b bs h h₀).bind fun _ _ => ih

/-- Work that changes the disk leaves it as it was if it fails. -/
theorem meets_change {P : Unit → Host → Prop} {operation : String} {paths : List String}
    {f : Host → Except Errno Disk}
    (hfail : ∀ due, E { h with due }) (hdone : ∀ due disk, f { h with due } = .ok disk → P () { h with due, disk }) :
    Meets (change operation paths f) h P E := by
  have hdue : dueFault.Meets h (fun _ h' => ∃ due, h' = { h with due }) E :=
    meets_get_bind (meets_set_bind (meets_pure ⟨_, rfl⟩))
  refine hdue.bind ?_
  rintro fault? _ ⟨due, rfl⟩
  cases fault? with
  | some e => exact meets_throw (hfail due)
  | none =>
    refine meets_get_bind ?_
    cases hf : f { h with due } with
    | error e => exact meets_throw (hfail due)
    | ok disk => exact meets_modify (hdone due disk hf)

attribute [irreducible] Meets

end Work

namespace Host

variable {dir start stop : String}

theorem toDigits_injective {n m : Nat} (h : Nat.toDigits 10 n = Nat.toDigits 10 m) : n = m := by
  simpa [Nat.ofDigitChars_ten_toDigits] using congrArg (fun ds => Nat.ofDigitChars 10 ds 0) h

theorem isDigit_of_mem_toString {n : Nat} {c : Char} (hc : c ∈ (toString n).toList) : c.isDigit = true := by
  rw [Nat.toString_eq_ofList_toDigits, String.toList_ofList] at hc
  exact Nat.isDigit_of_mem_toDigits (by decide) (by decide) hc

/-- Numbered names are names of entries. -/
theorem isFlat_numbered (hstart : '/' ∉ start.toList) (hstop : '/' ∉ stop.toList) (n : Nat) :
    Path.IsFlat (numbered start stop n) := by
  obtain ⟨c, hc⟩ : ∃ c, c ∈ (toString n).toList := by
    rw [Nat.toString_eq_ofList_toDigits, String.toList_ofList]
    exact exists_mem_of_ne_nil _ Nat.toDigits_ne_nil
  have hmem : c ∈ (numbered start stop n).toList := by
    rw [numbered, String.toList_append, String.toList_append]
    exact mem_append_left _ (mem_append_right _ hc)
  -- a digit is among its characters
  have hne : ∀ s : String, (∀ c ∈ s.toList, c.isDigit = false) → numbered start stop n ≠ s := by
    rintro s hs rfl
    simpa [isDigit_of_mem_toString hc] using hs c hmem
  have hdots : ∀ {s : String}, (∀ c ∈ s.toList, c = '.') → numbered start stop n ≠ s :=
    fun hs => hne _ fun c hc => by rw [hs c hc]; rfl
  refine ⟨⟨hdots (by simp), ?_⟩, hdots (by simp), hdots (by simp)⟩
  rw [numbered, String.toList_append, String.toList_append, mem_append, mem_append]
  rintro ((hslash | hslash) | hslash)
  · exact hstart hslash
  · cases isDigit_of_mem_toString hslash
  · exact hstop hslash

theorem below_append (dir x e : String) : below dir x ++ e = below dir (x ++ e) := by
  unfold below
  split <;> simp [String.append_assoc]

private theorem exists_eq_false_of_firstFree {h : Host} {tries i j : Nat}
    (hj : h.firstFree dir start stop tries i = some j) :
    h.exists_ (below dir (numbered start stop (h.draws j))) = false := by
  induction tries generalizing i with
  | zero => cases hj
  | succ tries ih =>
    unfold firstFree at hj
    split at hj
    · exact ih hj
    · rename_i hfree
      rw [← Option.some.inj hj]
      simpa using hfree

end Host

/-- A drawn path leads to nothing.  Nothing else is known of its number. -/
theorem Work.meets_drawPath {h : Host} {E : Host → Prop} {P : String → Host → Prop} {dir start stop : String}
    (operation : String) (hfail : E h)
    (hdone : ∀ n draws, h.exists_ (Host.below dir (Host.numbered start stop n)) = false →
      P (Host.below dir (Host.numbered start stop n)) { h with draws }) :
    (drawPath operation dir start stop).Meets h P E := by
  refine meets_get_bind ?_
  cases hfree : h.firstFree dir start stop Host.mostDraws 0 with
  | none => exact meets_throw hfail
  | some i => exact meets_set_bind (meets_pure (hdone _ _ (Host.exists_eq_false_of_firstFree hfree)))

open Disk (Entry)
open Function (update)

/-- A directory on a disk that is a tree, as it is in the beginning. -/
structure Folder where
  disk : Disk
  here : Place
  place : Place
  isTree : disk.IsTree
  isDirectory : disk.at? place = some .directory

/-- What names stand for in a directory. -/
abbrev Contents := String → Option Entry

/-- A name takes what another one stood for. -/
def Contents.move (C : Contents) (x y : String) : Contents :=
  if C x = none then C else update (update C x none) y (C x)

namespace Folder

def contents (D : Folder) : Contents := fun x => D.disk.at? (D.place ++ [x])

/-- A path leads to a name in the directory. -/
def Leads (D : Folder) (path x : String) : Prop := D.disk.target D.here path = .ok ⟨D.place ++ [x], true, false⟩

abbrev IsAt (D : Folder) (path : String) : Prop := D.disk.find D.here path = .ok (D.place, .directory)

/-- The directory has come to hold other files, and all else is as in the beginning. -/
structure Shows (D : Folder) (C : Contents) (d : Disk) : Prop where
  entry : ∀ x, d.at? (D.place ++ [x]) = C x
  other : ∀ q, (∀ x, q ≠ D.place ++ [x]) → d.at? q = D.disk.at? q
  directory : ∀ x, C x = some .directory ↔ D.contents x = some .directory

variable {D : Folder} {C : Contents} {d d' : Disk} {path x y : String} {old new : String}

theorem shows_disk (D : Folder) : D.Shows D.contents D.disk := ⟨fun _ => rfl, fun _ _ => rfl, fun _ => Iff.rfl⟩

theorem Shows.at?_eq (h : D.Shows D.contents d) (q : Place) : d.at? q = D.disk.at? q := by
  by_cases hq : ∃ x, q = D.place ++ [x]
  · obtain ⟨x, rfl⟩ := hq
    exact h.entry x
  · exact h.other q fun x heq => hq ⟨x, heq⟩

/-- There is no directory of that name. -/
def IsFree (D : Folder) (x : String) : Prop := D.contents x ≠ some .directory

namespace Shows

variable (h : D.Shows C d)

include h

theorem directory_iff (q : Place) : d.at? q = some .directory ↔ D.disk.at? q = some .directory := by
  by_cases hq : ∃ x, q = D.place ++ [x]
  · obtain ⟨x, rfl⟩ := hq
    rw [h.entry x]
    exact h.directory x
  · rw [h.other q fun x heq => hq ⟨x, heq⟩]

private theorem isDirectory : d.at? D.place = some .directory := (h.directory_iff _).2 D.isDirectory

private theorem isTree : d.IsTree := by
  refine Disk.isTree_iff.2 fun q e he => ?_
  by_cases hq : ∃ x, q = D.place ++ [x]
  · obtain ⟨x, rfl⟩ := hq
    rw [dropLast_concat]
    exact h.isDirectory
  · rw [h.other q fun x heq => hq ⟨x, heq⟩] at he
    exact (h.directory_iff _).2 (Disk.isTree_iff.1 D.isTree q e he)

private theorem target_iff {t : Target} :
    d.target D.here path = .ok t ↔ D.disk.target D.here path = .ok t :=
  ⟨Disk.target_mono fun q => (h.directory_iff q).1, Disk.target_mono fun q => (h.directory_iff q).2⟩

theorem leads (hpath : Path.IsEntry D.here path D.place x) {t : Target}
    (ht : d.target D.here path = .ok t) : D.Leads path x := by
  have ht := h.target_iff.1 ht
  obtain ⟨-, -, rfl⟩ := Disk.target_eq_ok.1 ht
  rwa [hpath.target_eq] at ht

private theorem target_of_leads (hpath : D.Leads path x) :
    d.target D.here path = .ok ⟨D.place ++ [x], true, false⟩ :=
  h.target_iff.2 hpath

private theorem isFree_iff : D.IsFree x ↔ C x ≠ some .directory := not_congr (h.directory x).symm

/-- A path that leads to a name finds what the name stands for. -/
theorem find_iff (hpath : D.Leads path x) {q : Place} {e : Entry} :
    d.find D.here path = .ok (q, e) ↔ D.place ++ [x] = q ∧ C x = some e := by
  rw [Disk.find_iff_of_target (h.target_of_leads hpath), h.entry]

private theorem find_directory {q : Place} (hpath : D.disk.find D.here path = .ok (q, .directory)) :
    d.find D.here path = .ok (q, .directory) := by
  obtain ⟨t, ht, rfl, hat, hclosed⟩ := Disk.find_eq_ok.1 hpath
  exact Disk.find_eq_ok.2 ⟨t, h.target_iff.2 ht, rfl, (h.directory_iff _).2 hat, hclosed⟩

private theorem update {e : Option Entry} (hx : D.IsFree x) (he : e ≠ some .directory)
    (hd : ∀ q, d'.at? q = if q = D.place ++ [x] then e else d.at? q) : D.Shows (update C x e) d' where
  entry y := by
    rw [hd, h.entry, Function.update_apply]
    simp
  other q hq := by
    rw [hd, if_neg (hq x), h.other q hq]
  directory y := by
    rw [Function.update_apply]
    split
    · rename_i hy
      exact iff_of_false he (hy ▸ hx)
    · exact h.directory y

private theorem write (hpath : Path.IsEntry D.here path D.place x) {content : String}
    (hwrite : d.writeFile D.here path content = .ok d') :
    D.Leads path x ∧ D.IsFree x ∧ D.Shows (Function.update C x (some (.file content))) d' := by
  obtain ⟨t, ht, -, hfree, rfl⟩ := Disk.exists_of_writeFile hwrite
  have hleads := h.leads hpath ht
  rw [h.target_of_leads hleads] at ht
  cases ht
  rw [h.entry] at hfree
  have hx := h.isFree_iff.2 hfree
  exact ⟨hleads, hx, h.update hx (by simp) fun q => Disk.at?_set (by simp)⟩

private theorem remove (hpath : D.Leads path x) (hx : D.IsFree x) :
    D.Shows (Function.update C x none) ((d.remove D.here path).toOption.getD d) := by
  have hfree : d.at? (D.place ++ [x]) ≠ some .directory := h.entry x ▸ h.isFree_iff.1 hx
  rw [Disk.remove_file (h.target_of_leads hpath) hfree, h.entry]
  split
  · rename_i hnone
    rw [← hnone, Function.update_eq_self]
    exact h
  · exact h.update hx (by simp) fun q => Disk.at?_erase (by simp)

private theorem move (hx : D.IsFree x) (hy : D.IsFree y) (hsome : C x ≠ none) :
    D.Shows (C.move x y) (d.move (D.place ++ [x]) (D.place ++ [y])) := by
  have hfree : ∀ {z}, D.IsFree z → d.at? (D.place ++ [z]) ≠ some .directory :=
    fun hz => h.entry _ ▸ h.isFree_iff.1 hz
  obtain ⟨content, hcontent⟩ : ∃ content, C x = some (.file content) := by
    cases hc : C x with
    | none => exact absurd hc hsome
    | some e =>
      cases e with
      | file content => exact ⟨content, rfl⟩
      | directory => exact absurd hc (h.isFree_iff.1 hx)
  have hat : d.at? (D.place ++ [x]) = some (.file content) := (h.entry x).trans hcontent
  have hmove : ∀ q, (d.move (D.place ++ [x]) (D.place ++ [y])).at? q =
      if q = D.place ++ [y] then C x else ((d.erase (D.place ++ [x])).at? q) := by
    intro q
    rw [Disk.at?_move_file h.isTree hat (hfree hy), Disk.at?_erase (by simp), h.entry x]
  rw [Contents.move, if_neg hsome]
  have herase := h.update hx (by simp) fun q => Disk.at?_erase (d := d) (p := D.place ++ [x]) (q := q) (by simp)
  exact herase.update hy (h.isFree_iff.1 hx) hmove

private theorem rename_eq (hold : D.Leads old x) (hnew : D.Leads new y) (hx : D.IsFree x)
    (hy : D.IsFree y) : d.rename D.here old new =
      if C x = none then .error .notFound else .ok (d.move (D.place ++ [x]) (D.place ++ [y])) := by
  have hfree : ∀ {z}, D.IsFree z → d.at? (D.place ++ [z]) ≠ some .directory :=
    fun hz => h.entry _ ▸ h.isFree_iff.1 hz
  have habove : ∀ z : String, d.at? (D.place ++ [z]).dropLast = some .directory := by
    intro z
    rw [dropLast_concat]
    exact h.isDirectory
  rw [Disk.rename_file (h.target_of_leads hold) (h.target_of_leads hnew) (hfree hx) (hfree hy) (habove x) (habove y),
    h.entry]

private theorem rename (hold : Path.IsEntry D.here old D.place x)
    (hnew : Path.IsEntry D.here new D.place y) (hx : D.IsFree x) (hrename : d.rename D.here old new = .ok d') :
    D.Leads old x ∧ D.Leads new y ∧ D.IsFree y ∧ C x ≠ none ∧ D.Shows (C.move x y) d' := by
  obtain ⟨hfind, s, t, hs, ht, -⟩ := Disk.exists_of_rename hrename
  have holdLeads := h.leads hold hs
  have hnewLeads := h.leads hnew ht
  have hy : D.IsFree y := by
    rw [h.isFree_iff]
    exact fun hdirectory => hfind _ ((h.find_iff hnewLeads).2 ⟨rfl, hdirectory⟩)
  rw [h.rename_eq holdLeads hnewLeads hx hy] at hrename
  obtain ⟨hsome, hmove⟩ := Outcome.errorIf_eq_ok.1 hrename
  cases hmove
  exact ⟨holdLeads, hnewLeads, hy, hsome, h.move hx hy hsome⟩

private theorem restore (hold : D.Leads old x) (hnew : D.Leads new y) (hx : D.IsFree x)
    (hy : D.IsFree y) : D.Shows (C.move x y) ((d.rename D.here old new).toOption.getD d) := by
  rw [h.rename_eq hold hnew hx hy]
  split
  · rename_i hnone
    rw [Contents.move, if_pos hnone]
    exact h
  · exact h.move hx hy (by assumption)

end Shows

/-- The directory has come to hold other files on a host. -/
structure At (D : Folder) (C : Contents) (h : Host) : Prop where
  here_eq : h.here = D.here
  shows : D.Shows C h.disk

section Work

variable {h : Host} {E : Host → Prop}

theorem At.due (hC : D.At C h) (due : List (Option Errno)) : D.At C { h with due } := ⟨hC.here_eq, hC.shows⟩

theorem At.draws (hC : D.At C h) (draws : Nat → Nat) : D.At C { h with draws } := ⟨hC.here_eq, hC.shows⟩

theorem At.makeDirectories (hC : D.At C h) {q : Place} (hpath : D.disk.find D.here path = .ok (q, .directory)) :
    (Work.makeDirectories path).Meets h (fun _ h' => h' = h) E := by
  have hfind : h.disk.find h.here path = .ok (q, .directory) := hC.here_eq ▸ hC.shows.find_directory hpath
  refine Work.meets_get_bind ?_
  rw [Disk.makeDirectories_of_find _ hfind]
  exact Work.meets_set_bind (Work.meets_pure rfl)

private theorem At.attempt {f : Host → Except Errno Disk} {C' : Contents} (hC : D.At C h)
    (hf : D.Shows C' ((f h).toOption.getD h.disk)) : (Work.attempt f).Meets h (fun _ => D.At C') E :=
  Work.meets_attempt ⟨hC.here_eq, hf⟩

/-- A file that is removed is gone, and nothing else is. -/
theorem At.remove (hC : D.At C h) (hpath : D.Leads path x) (hx : D.IsFree x) :
    (Work.remove path).Meets h (fun _ => D.At (Function.update C x none)) E :=
  hC.attempt (hC.here_eq ▸ hC.shows.remove hpath hx)

/-- What was moved aside is moved back. -/
theorem At.restore (hC : D.At C h) {old new : String} (hold : D.Leads old x) (hnew : D.Leads new y) (hx : D.IsFree x)
    (hy : D.IsFree y) : (Work.attempt fun h => h.disk.rename h.here old new).Meets h (fun _ => D.At (C.move x y)) E :=
  hC.attempt (hC.here_eq ▸ hC.shows.restore hold hnew hx hy)

/-- A name takes what another one stood for. -/
theorem At.rename (hC : D.At C h) {old new : String} (hold : Path.IsEntry D.here old D.place x)
    (hnew : Path.IsEntry D.here new D.place y) (hx : D.IsFree x) :
    (Work.rename old new).Meets h (fun _ h' => D.Leads old x ∧ D.Leads new y ∧ D.IsFree y ∧ C x ≠ none ∧
      D.At (C.move x y) h') (D.At C) := by
  refine Work.meets_change hC.due fun due disk hdisk => ?_
  obtain ⟨holdLeads, hnewLeads, hy, hsome, hshows⟩ := hC.shows.rename hold hnew hx (hC.here_eq ▸ hdisk)
  exact ⟨holdLeads, hnewLeads, hy, hsome, hC.here_eq, hshows⟩

theorem At.write (hC : D.At C h) (hpath : Path.IsEntry D.here path D.place x) (operation content : String) :
    (Work.change operation [path] fun h => h.disk.writeFile h.here path content).Meets h
      (fun _ h' => D.Leads path x ∧ D.IsFree x ∧ D.At (Function.update C x (some (.file content))) h') (D.At C) := by
  refine Work.meets_change hC.due fun due disk hdisk => ?_
  obtain ⟨hleads, hx, hshows⟩ := hC.shows.write hpath (hC.here_eq ▸ hdisk)
  exact ⟨hleads, hx, hC.here_eq, hshows⟩

end Work

end Folder

/-- What is at the places from some place on. -/
abbrev Branch := Place → Option Entry

namespace Branch

def bare : Branch := fun _ => none

def file (content : String) : Branch := fun q => if q = [] then some (.file content) else none

/-- All but what is at the root lies in directories. -/
def IsTree (b : Branch) : Prop := ∀ q x e, b (q ++ [x]) = some e → b q = some .directory

/-- What removing leaves: directories stay if they hold anything. -/
noncomputable def cleared (b : Branch) : Branch :=
  open scoped Classical in if ∀ q, q ≠ [] → b q = none then bare else b

variable {b : Branch} {q : Place}

private theorem isTree_bare : bare.IsTree := fun _ _ _ h => by cases h

theorem IsTree.eq_none (h : b.IsTree) (hb : b [] ≠ some .directory) (hq : q ≠ []) : b q = none := by
  induction q using reverseRecOn with
  | nil => exact absurd rfl hq
  | append_singleton q x ih =>
    refine Option.eq_none_iff_forall_ne_some.2 fun e he => ?_
    have hdirectory := h q x e he
    by_cases hnil : q = []
    · exact hb (hnil ▸ hdirectory)
    · simp [ih hnil] at hdirectory

theorem IsTree.eq_bare (h : b.IsTree) (hb : b [] = none) : b = bare := by
  funext q
  by_cases hq : q = []
  · rw [hq, hb]
    rfl
  · exact h.eq_none (by simp [hb]) hq

theorem IsTree.eq_file (h : b.IsTree) {content : String} (hb : b [] = some (.file content)) : b = file content := by
  funext q
  by_cases hq : q = []
  · simp [hq, hb, file]
  · rw [h.eq_none (by simp [hb]) hq, file, if_neg hq]

end Branch

/-- The branches of a directory, by their names. -/
abbrev Branches := String → Branch

/-- A name takes over the branch of another one. -/
def Branches.move (B : Branches) (x y : String) : Branches := update (update B x .bare) y (B x)

namespace Folder

def branches (D : Folder) : Branches := fun x q => D.disk.at? (D.place ++ [x] ++ q)

/-- The directory has come to bear other branches, and all else is as in the beginning. -/
structure Bears (D : Folder) (B : Branches) (d : Disk) : Prop where
  branch : ∀ x q, d.at? (D.place ++ [x] ++ q) = B x q
  other : ∀ q, (∀ x t, q ≠ D.place ++ [x] ++ t) → d.at? q = D.disk.at? q
  isTree : ∀ x, (B x).IsTree

variable {D : Folder} {B B' : Branches} {C : Contents} {d d' : Disk} {path x y : String}

theorem isTree_branch (hd : d.IsTree) (p : Place) : Branch.IsTree fun q => d.at? (p ++ q) := by
  intro q x e he
  have habove := Disk.isTree_iff.1 hd _ e he
  rwa [← append_assoc, dropLast_concat] at habove

theorem Shows.bears (h : D.Shows C d) : D.Bears (fun x q => d.at? (D.place ++ [x] ++ q)) d where
  branch _ _ := rfl
  other q hq := h.other q fun x hx => hq x [] (by simpa using hx)
  isTree x := isTree_branch h.isTree _

private theorem Bears.update {b : Branch} (h : D.Bears B d) (hb : b.IsTree)
    (hbranch : ∀ q, d'.at? (D.place ++ [x] ++ q) = b q)
    (hother : ∀ q, (∀ t, q ≠ D.place ++ [x] ++ t) → d'.at? q = d.at? q) : D.Bears (update B x b) d' where
  branch y q := by
    by_cases hy : y = x
    · rw [hy, hbranch, Function.update_self]
    · rw [hother _ (by simp [hy]), h.branch, Function.update_of_ne hy]
  other q hq := by rw [hother q fun t => hq x t, h.other q hq]
  isTree y := by
    by_cases hy : y = x
    · rwa [hy, Function.update_self]
    · rw [Function.update_of_ne hy]
      exact h.isTree y

/-- A name takes over the branch of another one. -/
theorem Bears.rename (h : D.Bears B d) {old new : String} (hold : Path.IsEntry D.here old D.place x)
    (hnew : Path.IsEntry D.here new D.place y) (hrename : d.rename D.here old new = .ok d') :
    d.target D.here old = .ok ⟨D.place ++ [x], true, false⟩ ∧
      d.target D.here new = .ok ⟨D.place ++ [y], true, false⟩ ∧
      B x [] ≠ none ∧ B y [] ≠ some .directory ∧ D.Bears (B.move x y) d' := by
  obtain ⟨hfind, s, t, hs, ht, hsome, rfl⟩ := Disk.exists_of_rename hrename
  obtain rfl := ((Disk.target_entry hold).1 hs).2.2
  obtain rfl := ((Disk.target_entry hnew).1 ht).2.2
  have hroot : ∀ z, d.at? (D.place ++ [z]) = B z [] := fun z => by simpa using h.branch z []
  refine ⟨hs, ht, hroot x ▸ hsome, fun hdirectory => ?_, ?_⟩
  · exact hfind _ ((Disk.find_iff_of_target ht).2 ⟨rfl, (hroot y).trans hdirectory⟩)
  have hmove := fun q =>
    Disk.at?_move (d := d) (p := D.place ++ [x]) (q := D.place ++ [y]) (r := q) (by simp) (by simp)
  have hstarts : ∀ {u v : String} {q}, D.place ++ [u] <+: D.place ++ [v] ++ q ↔ u = v := by simp
  refine ⟨fun z q => ?_, fun q hq => ?_, fun z => ?_⟩
  · rw [hmove, Branches.move, Function.update_apply, Function.update_apply]
    by_cases hz : z = y
    · rw [if_pos (hstarts.2 hz.symm), if_pos hz, hz, drop_left, h.branch]
    · rw [if_neg (mt hstarts.1 (Ne.symm hz)), if_neg hz]
      by_cases hzx : z = x
      · rw [if_pos (hstarts.2 hzx.symm), if_pos hzx]
        rfl
      · rw [if_neg (mt hstarts.1 (Ne.symm hzx)), if_neg hzx, h.branch]
  · have hne : ∀ z, ¬D.place ++ [z] <+: q := fun z hz => hq z _ hz.choose_spec.symm
    rw [hmove, if_neg (hne y), if_neg (hne x), h.other q hq]
  · rw [Branches.move, Function.update_apply, Function.update_apply]
    split_ifs
    · exact h.isTree x
    · exact Branch.isTree_bare
    · exact h.isTree z

/-- A branch is removed unless there is anything in it. -/
theorem Bears.remove (h : D.Bears B d) (ht : d.target D.here path = .ok ⟨D.place ++ [x], true, false⟩) :
    D.Bears (Function.update B x (B x).cleared) ((d.remove D.here path).toOption.getD d) := by
  have hroot : d.at? (D.place ++ [x]) = B x [] := by simpa using h.branch x []
  have hbelow : d.placesBelow (D.place ++ [x]) = [] ↔ ∀ q, q ≠ [] → B x q = none := by
    rw [Disk.placesBelow_eq_nil]
    exact forall_congr' fun q => by rw [h.branch]
  have hfile : B x [] ≠ some .directory → ∀ q, q ≠ [] → B x q = none := fun hx q => (h.isTree x).eq_none hx
  rw [Disk.remove_eq ht, hroot]
  split_ifs with hnone hfull
  · have hbare : (B x).cleared = B x := by simp [(h.isTree x).eq_bare hnone, Branch.cleared]
    rw [hbare, Function.update_eq_self]
    exact h
  · rw [Branch.cleared, if_neg (mt hbelow.2 hfull.2), Function.update_eq_self]
    exact h
  · have hempty : ∀ q, q ≠ [] → B x q = none := by
      by_cases hx : B x [] = some .directory
      · exact hbelow.1 (by simpa [hx] using hfull)
      · exact hfile hx
    rw [Branch.cleared, if_pos hempty]
    refine h.update Branch.isTree_bare (fun q => ?_) fun q hq => ?_
    · by_cases hq : q = []
      · simp [Except.toOption, hq, Disk.at?_erase, Branch.bare]
      · have hnone : d.at? (D.place ++ [x] ++ q) = none := (h.branch x q).trans (hempty q hq)
        simpa [Except.toOption, hq, Disk.at?_erase, Branch.bare] using hnone
    · have hne : q ≠ D.place ++ [x] := by simpa using hq []
      simp [Except.toOption, hne, Disk.at?_erase]

end Folder

end Covenant
