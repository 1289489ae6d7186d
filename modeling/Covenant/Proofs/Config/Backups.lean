import Covenant.Config.Load
import Covenant.Proofs.Output.Restore

/-!
# Saving keeps the last three versions

The paths of a file and its backups lead to slots in one directory, or nowhere if a name is too long.  Saving moves
what the slots hold up by one, so after any number of saves they hold the latest versions in order.
-/

namespace Covenant.Config

open Disk (Entry)
open Covenant.Path (IsEntry IsFlat)
open Function (update)
open Work (Meets)
open List

/-- What the path of a file ends in for the file itself and for its backups. -/
def ending : Option Nat → String
  | none => ""
  | some n => ".back" ++ toString n

private theorem append_ending_injective (x : String) : Function.Injective fun k => x ++ ending k := by
  intro j k h
  have hlist := congrArg String.toList h
  simp only [String.toList_append] at hlist
  have hending := append_cancel_left hlist
  cases j <;> cases k <;> simp [ending] at hending
  · rfl
  · rw [Host.toDigits_injective hending]

private theorem not_mem_ending (k : Option Nat) : '/' ∉ (ending k).toList := by
  cases k with
  | none => simp [ending]
  | some n =>
    rw [ending, String.toList_append, mem_append]
    exact fun h => h.elim (by decide) fun h => by cases Host.isDigit_of_mem_toString h

private theorem isFlat_append_ending {x : String} (hx : IsFlat x) (k : Option Nat) : IsFlat (x ++ ending k) := by
  cases k with
  | none => simpa [ending] using hx
  | some n =>
    have hb : 'b' ∈ (x ++ ending (some n)).toList := by simp [ending]
    have hne : ∀ s : String, 'b' ∉ s.toList → x ++ ending (some n) ≠ s := fun s hs heq => hs (heq ▸ hb)
    refine ⟨⟨hne _ (by decide), ?_⟩, hne _ (by decide), hne _ (by decide)⟩
    rw [String.toList_append, mem_append]
    exact fun h => h.elim hx.segment.2 (not_mem_ending _)

variable {D : Folder} {path x : String} {h : Host} {V : Option Nat → Option Entry} {j k : Option Nat} {C : Contents}

/-- What the slots hold, as far as paths lead to them. -/
noncomputable def seen (D : Folder) (path x : String) (C : Contents) (k : Option Nat) : Option Entry :=
  open scoped Classical in if D.Leads (path ++ ending k) (x ++ ending k) then C (x ++ ending k) else none

private theorem seen_update (hk : D.Leads (path ++ ending k) (x ++ ending k)) (e : Option Entry) :
    seen D path x (update C (x ++ ending k) e) = update (seen D path x C) k e := by
  funext j
  by_cases hj : j = k
  · simp [seen, hj, hk]
  · have hne : x ++ ending j ≠ x ++ ending k := fun heq => hj (append_ending_injective x heq)
    rw [Function.update_of_ne hj, seen, seen, Function.update_of_ne hne]

/-- The slots of a file.  In the beginning no directory is where a path leads. -/
structure Slots (D : Folder) (path x : String) (V : Option Nat → Option Entry) (h : Host) : Prop where
  entry : ∀ k, IsEntry D.here (path ++ ending k) D.place (x ++ ending k)
  free : ∀ k, D.Leads (path ++ ending k) (x ++ ending k) → D.IsFree (x ++ ending k)
  holds : ∃ C, D.At C h ∧ seen D path x C = V

/-- The slots when what one holds has gone to another. -/
def raised (V : Option Nat → Option Entry) (j k : Option Nat) : Option Nat → Option Entry :=
  update (update V j none) k (V j)

section

variable (hV : Slots D path x V h)
include hV

private theorem Slots.congr {V' : Option Nat → Option Entry} (heq : ∀ k, V k = V' k) : Slots D path x V' h :=
  funext heq ▸ hV

private theorem Slots.leads {e : Entry} (hk : V k = some e) : D.Leads (path ++ ending k) (x ++ ending k) := by
  obtain ⟨C, -, rfl⟩ := hV.holds
  by_contra hleads
  rw [seen, if_neg hleads] at hk
  cases hk

private theorem Slots.find_iff {e : Entry} : (∃ q, h.find (path ++ ending k) = .ok (q, e)) ↔ V k = some e := by
  constructor
  · rintro ⟨q, hfind⟩
    obtain ⟨C, hC, rfl⟩ := hV.holds
    rw [Host.find, hC.here_eq] at hfind
    obtain ⟨t, ht, -⟩ := Disk.find_eq_ok.1 hfind
    have hleads := hC.shows.leads (hV.entry k) ht
    rw [seen, if_pos hleads]
    exact ((hC.shows.find_iff hleads).1 hfind).2
  · intro hk
    have hleads := hV.leads hk
    obtain ⟨C, hC, rfl⟩ := hV.holds
    rw [seen, if_pos hleads] at hk
    exact ⟨_, by rw [Host.find, hC.here_eq]; exact (hC.shows.find_iff hleads).2 ⟨rfl, hk⟩⟩

private theorem Slots.exists_eq_false : h.exists_ (path ++ ending k) = false ↔ V k = none := by
  rw [Option.eq_none_iff_forall_ne_some, Host.exists_]
  cases hfind : h.find (path ++ ending k) with
  | error e => simp [← hV.find_iff, hfind, Except.toOption]
  | ok r => simpa [Except.toOption] using ⟨r.2, hV.find_iff.1 ⟨r.1, hfind⟩⟩

private theorem Slots.readFile_iff {s : String} : h.readFile (path ++ ending k) = .ok s ↔ V k = some (.file s) := by
  rw [← hV.find_iff, Host.readFile]
  split <;> simp_all

private theorem Slots.write (k : Option Nat) (content : String) :
    (Work.writeFile (path ++ ending k) content).Meets h
      (fun _ => Slots D path x (update V k (some (.file content)))) (fun _ => True) := by
  obtain ⟨C, hC, rfl⟩ := hV.holds
  refine (hC.write (hV.entry k) "open" content).mono (fun _ h' hwritten => ?_) fun _ _ => trivial
  obtain ⟨hleads, -, hC'⟩ := hwritten
  exact ⟨hV.entry, hV.free, _, hC', seen_update hleads _⟩

private theorem Slots.remove (k : Option Nat) {E : Host → Prop} :
    (Work.remove (path ++ ending k)).Meets h (fun _ => Slots D path x (update V k none)) E := by
  obtain ⟨C, hC, rfl⟩ := hV.holds
  by_cases hleads : D.Leads (path ++ ending k) (x ++ ending k)
  · refine (hC.remove hleads (hV.free k hleads)).mono (fun _ h' hC' => ?_) fun _ h => h
    exact ⟨hV.entry, hV.free, _, hC', seen_update hleads _⟩
  · have hsame : update (seen D path x C) k none = seen D path x C := by
      rw [Function.update_eq_self_iff, seen, if_neg hleads]
    have hfails : (h.disk.remove h.here (path ++ ending k)).toOption.getD h.disk = h.disk := by
      rw [hC.here_eq, Disk.remove]
      cases ht : h.disk.target D.here (path ++ ending k) with
      | error e => rfl
      | ok t => exact absurd (hC.shows.leads (hV.entry k) ht) hleads
    refine Work.meets_attempt ?_
    rw [hsame, hfails]
    exact hV

private theorem Slots.move (hk : V k = none) (activity : String) :
    Meets (if h.exists_ (path ++ ending j) = true then do
        (Work.rename (path ++ ending j) (path ++ ending k)).during activity
        pure (ForInStep.yield PUnit.unit)
      else pure (ForInStep.yield PUnit.unit)) h
      (fun r h' => r = ForInStep.yield PUnit.unit ∧ Slots D path x (raised V j k) h')
      (fun _ => True) := by
  split
  · rename_i hexists
    obtain ⟨e, he⟩ : ∃ e, V j = some e :=
      Option.ne_none_iff_exists'.1 fun hnone => by simp [hV.exists_eq_false.2 hnone] at hexists
    have hleads := hV.leads he
    obtain ⟨C, hC, rfl⟩ := hV.holds
    have hrename := hC.rename (hV.entry j) (hV.entry k) (hV.free j hleads)
    refine ((hrename.mono (fun _ _ h => h) fun _ _ => trivial).during activity).bind ?_
    rintro _ h' ⟨-, hkleads, -, hsome, hC'⟩
    refine Work.meets_pure ⟨rfl, hV.entry, hV.free, _, hC', ?_⟩
    have hj : seen D path x C j = C (x ++ ending j) := by rw [seen, if_pos hleads]
    rw [raised, Contents.move, if_neg hsome, seen_update hkleads, seen_update hleads, hj]
  · rename_i hexists
    have hj : V j = none := hV.exists_eq_false.1 (by simpa using hexists)
    have hsame : raised V j k = V := by
      rw [raised, hj, (Function.update_eq_self_iff : update V j none = V ↔ _).2 hj.symm,
        Function.update_eq_self_iff, hk]
    exact Work.meets_pure ⟨rfl, hsame.symm ▸ hV⟩

end

/-- The slots after contents have been saved, the latest first. -/
def shown (past : List String) : Option Nat → Option Entry
  | none => past[0]?.map .file
  | some n => if 1 ≤ n ∧ n ≤ backupCount then past[n]?.map .file else none

/-- The slots when all have moved up by one. -/
def shifted (past : List String) : Option Nat → Option Entry
  | none => past[0]?.map .file
  | some n => if 1 ≤ n ∧ n ≤ backupCount then past[n - 1]?.map .file else none

variable {past : List String}

private theorem shown_of_lt {n : Nat} (hn : backupCount < n) : shown past (some n) = none := if_neg (by omega)

private theorem shifted_of_lt {n : Nat} (hn : backupCount < n) : shifted past (some n) = none := if_neg (by omega)

private theorem raised_shown (past : List String) :
    raised (raised (update (shown past) (some backupCount) none) (some 2) (some 3)) (some 1) (some 2) =
      update (shifted past) (some 1) none := by
  funext k
  cases k with
  | none => simp [raised, shown, shifted]
  | some n =>
    by_cases hn : backupCount < n
    · have hne : n ≠ 1 ∧ n ≠ 2 ∧ n ≠ 3 ∧ n ≠ backupCount := by simp only [backupCount] at *; omega
      simp [raised, shown_of_lt hn, shifted_of_lt hn, hne]
    · obtain rfl | rfl | rfl | rfl : n = 0 ∨ n = 1 ∨ n = 2 ∨ n = 3 := by simp only [backupCount] at hn; omega
      all_goals simp [raised, shown, shifted, backupCount]

private theorem append_ending_none (path : String) : path ++ ending none = path := by simp [ending]

private theorem backupPath_eq (path : String) (n : Nat) : backupPath path n = path ++ ending (some n) := by
  rw [backupPath, ending, String.append_assoc]

private theorem Slots.backUp (hV : Slots D path x (shown past) h) :
    (backUp path).Meets h (fun _ => Slots D path x (shifted past)) (fun _ => True) := by
  unfold Config.backUp
  simp only [backupPath_eq]
  refine Work.meets_get_bind ?_
  split
  · -- there is no file, so nothing has been saved yet
    rename_i hfind
    have hnone : shown past none = none := by
      refine hV.exists_eq_false.1 ?_
      rw [append_ending_none, Host.exists_, hfind]
      rfl
    obtain rfl : past = [] := by simpa [shown] using hnone
    exact Work.meets_pure (hV.congr fun k => by cases k <;> simp [shown, shifted])
  · -- the last backup goes, those before it move up beginning with the later one,
    -- and the first takes the file's content
    refine (hV.remove (some backupCount)).bind fun _ h₁ hV₁ => ?_
    refine Work.Meets.bind (Q := fun _ => Slots D path x (update (shifted past) (some 1) none)) ?_ fun _ h₂ hV₂ => ?_
    · refine Work.meets_forIn_cons (Work.meets_get_bind (hV₁.move (k := some 3) (by simp [backupCount]) _)) ?_
      intro h₂ hV₂
      refine Work.meets_forIn_cons (Work.meets_get_bind (hV₂.move (k := some 2) (by simp [raised]) _))
        fun h₃ hV₃ => ?_
      exact Work.meets_pure (raised_shown past ▸ hV₃)
    · have hread : ∀ s, h₂.readFile path = .ok s → past[0]? = some s := by
        intro s hs
        rw [← append_ending_none path, hV₂.readFile_iff] at hs
        simpa [shifted] using hs
      refine ((Work.meets_readFile (P := fun s h => past[0]? = some s ∧ h = h₂) (fun s hs => ⟨hread s hs, rfl⟩)
        trivial).during _).bind ?_
      rintro s _ ⟨hs, rfl⟩
      refine ((hV₂.write (some 1) s).during _).mono (fun _ h₃ hV₃ => ?_) fun _ h => h
      have hsame : update (shifted past) (some 1) (some (.file s)) = shifted past := by
        simp [Function.update_eq_self_iff, shifted, backupCount, hs]
      rwa [Function.update_idem, hsame] at hV₃

private theorem Slots.backUpAndWrite (hV : Slots D path x (shown past) h) (content first second : String) :
    Meets (do
      (Config.backUp path).during first
      (Work.writeFile path content).during second) h
      (fun _ => Slots D path x (shown (content :: past))) (fun _ => True) := by
  refine (hV.backUp.during _).bind fun _ h₁ hV₁ => ?_
  have hwrite := hV₁.write none content
  rw [append_ending_none] at hwrite
  refine (hwrite.during _).mono (fun _ h₂ hV₂ => hV₂.congr fun k => ?_) fun _ h => h
  rcases k with _ | _ | n <;> simp [shown, shifted]

private theorem Slots.save (hV : Slots D path x (shown past) h)
    (hparent : D.IsAt (Path.parent path)) (s : Settings) :
    (save path s).Meets h (fun _ => Slots D path x (shown (s.toToml :: past))) (fun _ => True) := by
  obtain ⟨C, hC, -⟩ := hV.holds
  refine ((hC.makeDirectories hparent).during _).bind ?_
  rintro _ _ rfl
  exact hV.backUpAndWrite s.toToml _ _

private theorem Slots.saveAll (hV : Slots D path x (shown past) h)
    (hparent : D.IsAt (Path.parent path)) (versions : List Settings) :
    (versions.forM (Config.save path)).Meets h
      (fun _ => Slots D path x (shown ((versions.map Settings.toToml).reverse ++ past))) (fun _ => True) := by
  induction versions generalizing past h with
  | nil => exact Work.meets_pure hV
  | cons s versions ih =>
    refine (hV.save hparent s).bind fun _ h' hV' => ?_
    simpa using ih hV'

private theorem exists_name_of_writeFile {d d' : Disk} {here : Place} {content : String}
    (hwrite : d.writeFile here path content = .ok d') :
    Text.hasSuffix "/" path = false ∧ ∃ xs x, Path.names path = xs ++ [x] ∧ IsFlat x := by
  obtain ⟨t, ht, ⟨hnamed, hopen⟩, -⟩ := Disk.exists_of_writeFile hwrite
  obtain rfl := (Disk.target_eq_ok.1 ht).2.2
  refine ⟨hopen, ?_⟩
  rcases eq_nil_or_concat (Path.names path) with hnil | ⟨xs, x, hxs⟩
  · simp [Path.target, hnil] at hnamed
  · rw [concat_eq_append] at hxs
    have hx : x ≠ "." ∧ x ≠ ".." := by simpa [Path.target, hxs] using hnamed
    exact ⟨xs, x, hxs, Path.isSegment_of_mem_names (p := path) (by simp [hxs]), hx.1, hx.2⟩

private theorem slots_prepared {xs : List String} (htree : h.disk.IsTree)
    (hhere : h.disk.at? h.here = some .directory)
    (habsent : ∀ k, h.exists_ (path ++ ending k) = false) (hD : D.disk = Output.prepared (Path.parent path) h)
    (hDhere : D.here = h.here) (hfind : D.IsAt (Path.parent path))
    (hpath : Text.hasSuffix "/" path = false) (hnames : Path.names path = xs ++ [x]) (hx : IsFlat x) :
    Slots D path x (shown []) { h with disk := D.disk } := by
  obtain ⟨hfits, -, hplace, -⟩ := Disk.find_eq_directory.1 hfind
  obtain ⟨r, hr⟩ : ∃ r, Path.parent path = Path.clean r := ⟨_, rfl⟩
  have hnone : ∀ k, D.Leads (path ++ ending k) (x ++ ending k) → D.contents (x ++ ending k) = none := by
    intro k hleads
    refine Option.eq_none_iff_forall_ne_some.2 fun e he => ?_
    -- what is there was there before, so its directory was found then and nothing has been made
    have hdisk : D.disk = h.disk := by
      have hold : D.disk.at? (D.place ++ [x ++ ending k]) = some e := he
      rw [← hplace, hr, Path.place_clean, hDhere, hD, Output.prepared, hr,
        Disk.at?_makeDirectories_clean htree hhere] at hold
      have hat := htree.directory_of_below (by simp) hold
      have hbefore := Disk.find_clean_of_at? htree hhere (hr ▸ hfits) hat
      rw [hD, Output.prepared, hr, Disk.makeDirectories_of_find _ hbefore]
    have hfound := (D.shows_disk.find_iff hleads).2 ⟨rfl, he⟩
    have hexists := habsent k
    rw [hdisk, hDhere] at hfound
    rw [Host.exists_, Host.find, hfound] at hexists
    cases hexists
  refine ⟨fun k => ?_, fun k hk => ?_, D.contents, ⟨hDhere.symm, D.shows_disk⟩, funext fun k => ?_⟩
  · rw [← hplace]
    exact (Path.isEntry_parent D.here hpath hnames hx).append (not_mem_ending k) (isFlat_append_ending hx k)
  · rw [Folder.IsFree, hnone k hk]
    simp
  · have hshown : shown [] k = none := by cases k <;> simp [shown]
    rw [hshown, seen]
    split
    · exact hnone k (by assumption)
    · rfl

private theorem meets_first_save (htree : h.disk.IsTree) (hhere : h.disk.at? h.here = some .directory)
    (habsent : ∀ k, h.exists_ (path ++ ending k) = false) (s : Settings) :
    (save path s).Meets h (fun _ h' => ∃ D x, D.IsAt (Path.parent path) ∧
      Slots D path x (shown [s.toToml]) h') (fun _ => True) := by
  refine (((Output.meets_makeDirectories _ h).mono (fun _ _ h => h) fun _ _ => trivial).during _).bind ?_
  rintro _ _ ⟨rfl, p, hdir⟩
  by_cases hpath : Text.hasSuffix "/" path = false ∧ ∃ xs x, Path.names path = xs ++ [x] ∧ IsFlat x
  · obtain ⟨hopen, xs, x, hnames, hx⟩ := hpath
    obtain ⟨D, hD, hDhere, rfl⟩ := Output.exists_folder htree hdir
    rw [← hD, ← hDhere] at hdir
    have hV := slots_prepared htree hhere habsent hD hDhere hdir hopen hnames hx
    rw [← hD]
    exact (hV.backUpAndWrite s.toToml _ _).mono (fun _ _ hV' => ⟨D, x, hdir, hV'⟩) fun _ h => h
  · refine (((Work.meets_true _).during _).bind fun _ h₁ _ => ?_)
    exact (Work.meets_change (fun _ => trivial) fun _ _ hwrite =>
      absurd (exists_name_of_writeFile hwrite) hpath).during _

private theorem exists_slot_eq_false (hfile : h.exists_ path = false)
    (hbackups : ∀ i, h.exists_ (backupPath path i) = false)
    (k : Option Nat) : h.exists_ (path ++ ending k) = false := by
  cases k with
  | none => rwa [append_ending_none]
  | some n => rw [← backupPath_eq, hbackups]

/-- After any number of saves the file holds the last version and its backups the three before, as far as there are
any; there is no other backup. -/
theorem saves_keep_versions {versions : List Settings} {h' : Host} (htree : h.disk.IsTree)
    (hhere : h.disk.at? h.here = some .directory) (hfile : h.exists_ path = false)
    (hbackups : ∀ i, h.exists_ (backupPath path i) = false)
    (hrun : (versions.forM (save path)).run.run h = (.ok (), h')) :
    (∀ k i s, versions[k]? = some s → k + 1 + i = versions.length →
      (i = 0 → h'.readFile path = .ok s.toToml) ∧
        (1 ≤ i → i ≤ 3 → h'.readFile (backupPath path i) = .ok s.toToml)) ∧
      ∀ i, i = 0 ∨ 3 < i ∨ versions.length ≤ i → h'.exists_ (backupPath path i) = false := by
  cases versions with
  | nil =>
    cases hrun
    exact ⟨by simp, fun i _ => hbackups i⟩
  | cons s versions =>
    -- the first save makes the file, and each later one moves all that is kept by one
    have hall : ((s :: versions).forM (save path)).Meets h (fun _ h' => ∃ D x,
        Slots D path x (shown ((s :: versions).map Settings.toToml).reverse) h') (fun _ => True) := by
      refine (meets_first_save htree hhere (exists_slot_eq_false hfile hbackups) s).bind ?_
      rintro _ h₁ ⟨D, x, hparent, hV⟩
      exact (hV.saveAll hparent versions).mono (fun _ h₂ hV' => ⟨D, x, by simpa using hV'⟩) fun _ h => h
    obtain ⟨D, x, hV⟩ := hall.of_ok hrun
    generalize s :: versions = versions at hV ⊢
    refine ⟨fun k i s hs hk => ?_, fun i hi => ?_⟩
    · have hpast : (versions.map Settings.toToml).reverse[i]? = some s.toToml := by
        rw [getElem?_reverse (by simp; omega), length_map, getElem?_map]
        have hki : versions.length - 1 - i = k := by omega
        rw [hki, hs]
        rfl
      refine ⟨fun hi => ?_, fun hi hi' => ?_⟩
      · subst hi
        rw [← append_ending_none path, hV.readFile_iff, shown, hpast]
        rfl
      · rw [backupPath_eq, hV.readFile_iff, shown, if_pos ⟨hi, hi'⟩, hpast]
        rfl
    · rw [backupPath_eq, hV.exists_eq_false, shown]
      split
      · have hlength : versions.length ≤ i := by simp only [backupCount] at *; omega
        simpa using hlength
      · rfl

def drafts : List Settings := ["a", "b", "c", "d", "e"].map fun name => { programName := name }

/-- Of five drafts, the file holds the last and the third backup the second. -/
theorem saves_keep_versions_drafts :
    ∃ h', (drafts.forM (save "cfg/app.toml")).run.run {} = (.ok (), h') ∧
      h'.readFile "cfg/app.toml" = .ok (Settings.toToml { programName := "e" }) ∧
      h'.readFile (backupPath "cfg/app.toml" 3) = .ok (Settings.toToml { programName := "b" }) ∧
      ∀ i, 3 < i → h'.exists_ (backupPath "cfg/app.toml" i) = false := by
  have hbackups : ∀ i, ({} : Host).exists_ (backupPath "cfg/app.toml" i) = false := by
    intro i
    have hnames : Path.names "cfg/app.toml" = ["cfg"] ++ ["app.toml"] := by decide +kernel
    have hflat : IsFlat "app.toml" := ⟨⟨by decide, by decide⟩, by decide, by decide⟩
    have hentry := (Path.isEntry_parent [] (by decide +kernel) hnames hflat).append (not_mem_ending (some i))
      (isFlat_append_ending hflat _)
    rw [backupPath_eq, Host.exists_]
    rcases hfind : ({} : Host).find ("cfg/app.toml" ++ ending (some i)) with errno | ⟨q, e⟩
    · rfl
    · obtain ⟨t, ht, rfl, hat, -⟩ := Disk.find_eq_ok.1 hfind
      obtain rfl := (Disk.target_eq_ok.1 ht).2.2
      rw [Path.target, hentry.place_eq, Disk.at?, if_neg (by simp)] at hat
      cases hat
  have hsucceeds : ((drafts.forM (save "cfg/app.toml")).run.run {}).1.toOption ≠ none := by decide +kernel
  rcases hrun : (drafts.forM (save "cfg/app.toml")).run.run {} with ⟨failure | _, h'⟩
  · exact absurd (by rw [hrun]; rfl) hsucceeds
  · obtain ⟨hversions, hothers⟩ := saves_keep_versions (by decide) rfl (by decide +kernel) hbackups hrun
    exact ⟨h', rfl, (hversions 4 0 _ rfl rfl).1 rfl, (hversions 1 3 _ rfl rfl).2 (by decide) (by decide),
      fun i hi => hothers i (.inr (.inl hi))⟩

end Covenant.Config
