import Covenant.Proofs.Output.Success

/-!
# Comparing with what was written

A comparison that finds no fault reports each file by how it stands: it is there with its content, it differs, or it
is missing.  Files written to an empty directory are all that is found below it then, so comparing it with another
directory is comparing the files with that directory.
-/

namespace Covenant.Output

open Emit (OutputFile)
open Covenant.Path (IsFlat)
open Outcome
open List
open Text

variable {h h' : Host} {dir : String} {files : List OutputFile} {f g : OutputFile} {c : Comparison}

private theorem standing_iff :
    (standing h dir f = .ok .same ↔ h.readFile (destination dir f) = .ok f.content) ∧
    (standing h dir f = .ok .differs ↔ ∃ content, h.readFile (destination dir f) = .ok content ∧
      content ≠ f.content) := by
  unfold standing destination
  split
  · rename_i content hread
    by_cases heq : content = f.content <;> simp [hread, heq]
  · rename_i fault hread
    by_cases hnone : fault.errno = .notFound <;> simp [hread, hnone]

private theorem eq_missing_iff {s : Standing} (hs : standing h dir f = .ok s) :
    s = .missing ↔ h.exists_ (destination dir f) = false := by
  unfold standing Host.readFile at hs
  unfold Host.exists_ destination
  cases hfind : h.find (Path.join [dir, f.name]) with
  | error e =>
    rw [hfind] at hs
    by_cases hnone : e = .notFound
    · simpa [hnone, Except.toOption, eq_comm] using hs
    · simp [hnone] at hs
  | ok r =>
    obtain ⟨q, content | _⟩ := r
    · by_cases heq : content = f.content <;> simp [hfind, heq] at hs <;> simp [← hs, Except.toOption]
    · simp [hfind] at hs

def these (h : Host) (dir : String) (files : List OutputFile) (s : Standing) : List OutputFile :=
  files.filter fun f => (standing h dir f).toOption == some s

private theorem mem_these {s : Standing} : f ∈ these h dir files s ↔ f ∈ files ∧ standing h dir f = .ok s := by
  rw [these, mem_filter, beq_iff_eq]
  cases standing h dir f <;> simp [Except.toOption]

private theorem filter_standings {standings : List (OutputFile × Standing)}
    (hstandings : (files.mapM fun f => do return (f, ← standing h dir f)) = .ok standings) (s : Standing) :
    (standings.filter (·.2 == s)).map (·.1) = these h dir files s := by
  rw [mapM_eq_ok] at hstandings
  unfold these
  induction hstandings with
  | nil => rfl
  | @cons f p files standings hf _ ih =>
    obtain ⟨s', hs', hp⟩ := bind_eq_ok.1 hf
    obtain rfl := pure_eq_ok.1 hp
    rw [filter_cons, filter_cons, ← ih, hs']
    by_cases hss : s' = s <;> simp [hss, Except.toOption]

private theorem compareFiles_eq_ok : compareFiles h dir files = .ok c ↔ (∀ f ∈ files, ∃ s, standing h dir f = .ok s) ∧
    { differences := (sortedSet ((these h dir files .differs).map (·.language))).map fun l =>
        (l, sorted (((these h dir files .differs).filter (·.language == l)).map (·.name)))
      missing := sorted ((these h dir files .missing).map (·.name)) } = c := by
  have hall : (∃ standings, (files.mapM fun f => do return (f, ← standing h dir f)) = .ok standings) ↔
      ∀ f ∈ files, ∃ s, standing h dir f = .ok s := by
    rw [exists_mapM_eq_ok]
    refine forall₂_congr fun f _ => ?_
    cases standing h dir f <;> simp
  unfold compareFiles
  rw [bind_eq_ok, ← hall, ← exists_and_right]
  refine exists_congr fun standings => and_congr_right fun hstandings => ?_
  simp only [filter_standings hstandings, pure_eq_ok]

/-- What a comparison says: the missing files in order, and those that differ in order by language, each once. -/
structure Comparison.Reports (c : Comparison) (h : Host) (dir : String) (files : List OutputFile) : Prop where
  isUpToDate : c.isUpToDate = true ↔ ∀ f ∈ files, h.readFile (destination dir f) = .ok f.content
  missing_sorted : c.missing.Pairwise (· < ·)
  missing : ∀ x, x ∈ c.missing ↔ ∃ f ∈ files, f.name = x ∧ h.exists_ (destination dir f) = false
  languages_sorted : (c.differences.map (·.1)).Pairwise (· < ·)
  differences_sorted : ∀ d ∈ c.differences, d.2 ≠ [] ∧ d.2.Pairwise (· < ·)
  differences : ∀ l x, (∃ xs, (l, xs) ∈ c.differences ∧ x ∈ xs) ↔ ∃ f ∈ files, f.language = l ∧ f.name = x ∧
    ∃ content, h.readFile (destination dir f) = .ok content ∧ content ≠ f.content

private theorem mem_sorted {l : List String} {x : String} : x ∈ sorted l ↔ x ∈ l := mem_sortBy

private theorem isUpToDate_iff (hc : compareFiles h dir files = .ok c) :
    c.isUpToDate = true ↔ ∀ f ∈ files, standing h dir f = .ok .same := by
  obtain ⟨hall, rfl⟩ := compareFiles_eq_ok.1 hc
  have hempty : ∀ s, these h dir files s = [] ↔ ∀ f ∈ files, standing h dir f ≠ .ok s := by
    simp [eq_nil_iff_forall_not_mem, mem_these]
  have hlists : (these h dir files .differs = [] ∧ these h dir files .missing = []) ↔
      ∀ f ∈ files, standing h dir f = .ok .same := by
    rw [hempty, hempty, ← forall₂_and]
    refine forall₂_congr fun f hf => ?_
    obtain ⟨_ | _ | _, hs⟩ := hall f hf <;> simp [hs]
  have hsorted : ∀ l, sorted l = [] ↔ l = [] := by simp [eq_nil_iff_forall_not_mem, mem_sorted]
  have hset : ∀ l, sortedSet l = [] ↔ l = [] := by simp [eq_nil_iff_forall_not_mem, mem_sortedSet]
  simp [← hlists, Comparison.isUpToDate, hsorted, hset]

private theorem reports_of_compareFiles (hnodup : (files.map (·.name)).Nodup)
    (hc : compareFiles h dir files = .ok c) :
    c.Reports h dir files := by
  have hupToDate := (isUpToDate_iff hc).trans (forall₂_congr fun f _ => standing_iff.1)
  obtain ⟨hall, rfl⟩ := compareFiles_eq_ok.1 hc
  have hsorted : ∀ fs : List OutputFile, fs.Sublist files → (sorted (fs.map (·.name))).Pairwise (· < ·) := by
    intro fs hfs
    exact pairwise_lt_sortBy_key id (by simpa using hnodup.sublist (hfs.map _))
  refine ⟨hupToDate, hsorted _ filter_sublist, fun x => ?_, ?_, fun d hd => ?_, fun l x => ?_⟩
  · rw [mem_sorted, mem_map]
    constructor
    · rintro ⟨f, hf, rfl⟩
      obtain ⟨hf, hs⟩ := mem_these.1 hf
      exact ⟨f, hf, rfl, (eq_missing_iff hs).1 rfl⟩
    · rintro ⟨f, hf, rfl, hnone⟩
      obtain ⟨s, hs⟩ := hall f hf
      obtain rfl := (eq_missing_iff hs).2 hnone
      exact ⟨f, mem_these.2 ⟨hf, hs⟩, rfl⟩
  · simpa [Function.comp_def] using pairwise_lt_sortedSet _
  · obtain ⟨l, hl, rfl⟩ := mem_map.1 hd
    obtain ⟨f, hf, rfl⟩ := mem_map.1 (mem_sortedSet.1 hl)
    refine ⟨ne_nil_of_mem (mem_sorted.2 (mem_map_of_mem (mem_filter.2 ⟨hf, by simp⟩))), ?_⟩
    exact hsorted _ (filter_sublist.trans filter_sublist)
  · constructor
    · rintro ⟨xs, hxs, hx⟩
      obtain ⟨l, -, heq⟩ := mem_map.1 hxs
      cases heq
      obtain ⟨f, hf, rfl⟩ := mem_map.1 (mem_sorted.1 hx)
      obtain ⟨hf, hlanguage⟩ := mem_filter.1 hf
      obtain ⟨hf, hs⟩ := mem_these.1 hf
      exact ⟨f, hf, by simpa using hlanguage, rfl, standing_iff.2.1 hs⟩
    · rintro ⟨f, hf, rfl, rfl, hdiffers⟩
      have hf := mem_these.2 ⟨hf, standing_iff.2.2 hdiffers⟩
      refine ⟨_, mem_map.2 ⟨f.language, mem_sortedSet.2 (mem_map_of_mem hf), rfl⟩, ?_⟩
      exact mem_sorted.2 (mem_map_of_mem (mem_filter.2 ⟨hf, by simp⟩))

private theorem exists_isUpToDate_eq {b : Bool} : (∃ c, compareFiles h dir files = .ok c ∧ c.isUpToDate = b) ↔
    (∀ f ∈ files, ∃ s, standing h dir f = .ok s) ∧ (b = true ↔ ∀ f ∈ files, standing h dir f = .ok .same) := by
  constructor
  · rintro ⟨c, hc, rfl⟩
    exact ⟨(compareFiles_eq_ok.1 hc).1, isUpToDate_iff hc⟩
  · rintro ⟨hall, hb⟩
    have hc := compareFiles_eq_ok.2 ⟨hall, rfl⟩
    exact ⟨_, hc, Bool.eq_iff_iff.2 ((isUpToDate_iff hc).trans hb.symm)⟩

private theorem upToDate_congr {gs : List OutputFile}
    (hgs : ∀ g ∈ gs, ∃ f ∈ files, g.name = f.name ∧ g.content = f.content)
    (hfiles : ∀ f ∈ files, ∃ g ∈ gs, g.name = f.name ∧ g.content = f.content) :
    (compareFiles h dir gs).toOption.map (·.isUpToDate) = (compareFiles h dir files).toOption.map (·.isUpToDate) := by
  have hstanding : ∀ {f g : OutputFile}, g.name = f.name ∧ g.content = f.content →
      standing h dir g = standing h dir f := by
    rintro f g ⟨hname, hcontent⟩
    rw [standing, standing, hname, hcontent]
  -- the two lists stand alike, though not in one order
  have hall : ∀ P : Except Failure Standing → Prop,
      (∀ g ∈ gs, P (standing h dir g)) ↔ ∀ f ∈ files, P (standing h dir f) := by
    refine fun P => ⟨fun h f hf => ?_, fun h g hg => ?_⟩
    · obtain ⟨g, hg, hfg⟩ := hfiles f hf
      exact hstanding hfg ▸ h g hg
    · obtain ⟨f, hf, hfg⟩ := hgs g hg
      exact hstanding hfg ▸ h f hf
  ext b
  rw [toOption_map_eq_some, toOption_map_eq_some, exists_isUpToDate_eq, exists_isUpToDate_eq,
    hall fun x => ∃ s, x = .ok s, hall (· = .ok .same)]

private theorem exists_filesIn {p : Place} (hdir : h.find dir = .ok (p, .directory)) :
    ∃ gs, filesIn h dir = .ok gs ∧ ∀ g, g ∈ gs ↔ ∃ t content, t ≠ [] ∧ h.disk.at? (p ++ t) = some (.file content) ∧
      g = ⟨"files", Text.join "/" t, content⟩ := by
  unfold filesIn
  rw [hdir]
  refine ⟨_, rfl, fun g => ?_⟩
  rw [mem_filterMap]
  constructor
  · rintro ⟨q, hq, hg⟩
    obtain ⟨t, e, ht, rfl, -⟩ := Disk.mem_placesBelow.1 (mem_sortBy.1 hq)
    split at hg
    · rename_i content hat
      exact ⟨t, content, ht, hat, by simpa using hg.symm⟩
    · cases hg
  · rintro ⟨t, content, ht, hat, rfl⟩
    exact ⟨p ++ t, mem_sortBy.2 (Disk.mem_placesBelow.2 ⟨t, _, ht, rfl, hat⟩), by simp [hat]⟩

private theorem exists_filesIn_of_writeFiles {p : Place} {paths : List String} (htree : h.disk.IsTree)
    (hdir : h.find dir = .ok (p, .directory)) (hempty : h.disk.placesBelow p = [])
    (hflat : ∀ f ∈ files, IsFlat f.name) (hnodup : (files.map (·.name)).Nodup)
    (hapart : Apart (temporaryNames dir files h) files) (hrun : (writeFiles dir files).run.run h = (.ok paths, h')) :
    ∃ gs, filesIn h' dir = .ok gs ∧ (∀ g ∈ gs, ∃ f ∈ files, g.name = f.name ∧ g.content = f.content) ∧
      ∀ f ∈ files, ∃ g ∈ gs, g.name = f.name ∧ g.content = f.content := by
  obtain ⟨D, B, hdisk, rfl, hfind, hB⟩ := exists_written_of_find htree hdir hflat hnodup hapart hrun
  have hbare : ∀ x, D.branches x = .bare := by
    intro x
    funext t
    rw [Folder.branches, hdisk, append_assoc]
    exact Disk.placesBelow_eq_nil.1 hempty _ (by simp)
  have hother : ∀ x, (∀ f ∈ files, x ≠ f.name) → B x = .bare := by
    intro x hx
    rw [hB.other hx, hbare]
    intro p hp hsome
    exact absurd (by rw [contents_eq, hbare, Branch.bare]) hsome
  -- the path leads to the directory as before, since no directory has gone
  have hmono : ∀ q, D.disk.at? q = some .directory → h'.disk.at? q = some .directory := by
    intro q hq
    rw [hB.placing.bears.other q, hq]
    rintro x t rfl
    have hnone : D.branches x t = none := congrFun (hbare x) t
    rw [Folder.branches, hq] at hnone
    cases hnone
  have hfind' : h'.find dir = .ok (D.place, .directory) := by
    obtain ⟨t, ht, hplace, hat, hclosed⟩ := Disk.find_eq_ok.1 hfind
    rw [Host.find, hB.placing.here_eq]
    exact Disk.find_eq_ok.2 ⟨t, Disk.target_mono hmono ht, hplace, hmono _ hat, hclosed⟩
  obtain ⟨gs, hgs, hmem⟩ := exists_filesIn hfind'
  refine ⟨gs, hgs, fun g hg => ?_, fun f hf => ?_⟩
  · obtain ⟨_ | ⟨x, t⟩, content, ht, hat, rfl⟩ := (hmem g).1 hg
    · exact absurd rfl ht
    rw [append_cons, hB.placing.bears.branch] at hat
    by_cases hx : ∃ f ∈ files, x = f.name
    · obtain ⟨f, hf, rfl⟩ := hx
      rw [(hB.placed hf).1, Branch.file] at hat
      obtain ⟨rfl, hcontent⟩ := Option.ite_none_right_eq_some.1 hat
      cases hcontent
      exact ⟨f, hf, by simp [Text.join], rfl⟩
    · rw [hother x fun f hf heq => hx ⟨f, hf, heq⟩] at hat
      cases hat
  · exact ⟨_, (hmem _).2 ⟨[f.name], f.content, by simp, (hB.placed hf).2, rfl⟩, by simp [Text.join], rfl⟩

/-- A comparison reports how the files stand.  Right after files have been written to a directory, it is up to date,
provided that no temporary file was named like a destination.  After they have been written to an empty one, comparing
it with another directory fails or finds that one up to date just as comparing the files with it does. -/
theorem comparison_agrees (hflat : ∀ f ∈ files, IsFlat f.name) (hnodup : (files.map (·.name)).Nodup) :
    (∀ h dir c, compareFiles h dir files = .ok c → c.Reports h dir files) ∧
      (∀ h h' dir paths, h.disk.IsTree → Apart (temporaryNames dir files h) files →
        (writeFiles dir files).run.run h = (.ok paths, h') →
          ∃ c, compareFiles h' dir files = .ok c ∧ c.isUpToDate = true) ∧
      ∀ h h' dir p paths, h.disk.IsTree → h.find dir = .ok (p, .directory) → h.disk.placesBelow p = [] →
        Apart (temporaryNames dir files h) files → (writeFiles dir files).run.run h = (.ok paths, h') → ∀ other,
          (compareDirectories h' dir other).toOption.map (·.isUpToDate) =
            (compareFiles h' other files).toOption.map (·.isUpToDate) := by
  refine ⟨fun h dir c => reports_of_compareFiles hnodup, fun h h' dir paths htree hapart hrun => ?_,
    fun h h' dir p paths htree hdir hempty hapart hrun other => ?_⟩
  · obtain ⟨-, D, B, -, -, hfind, hB⟩ := exists_written htree hflat hnodup hapart hrun
    have hsame := fun f hf => standing_iff.1.2 (hB.readFile hfind hflat f hf)
    exact exists_isUpToDate_eq.2 ⟨fun f hf => ⟨_, hsame f hf⟩, iff_of_true rfl hsame⟩
  · obtain ⟨gs, hgs, hnew, hold⟩ := exists_filesIn_of_writeFiles htree hdir hempty hflat hnodup hapart hrun
    rw [compareDirectories, hgs]
    exact upToDate_congr hnew hold

/-- An empty directory beside one with a file that is up to date and one that differs.  Only sevens are drawn. -/
def tray : Host :=
  { disk := ⟨[(["out"], .directory), (["old"], .directory), (["old", "A.ts"], .file "a"),
    (["old", "B.ts"], .file "x")]⟩
    draws := fun _ => 7 }

/-- One directory of the tray is reported on.  The other one is written, and is then up to date. -/
theorem comparison_agrees_tray :
    (∃ c, compareFiles tray "old" editions = .ok c ∧ c.Reports tray "old" editions) ∧
      ∃ paths h', (writeFiles "out" editions).run.run tray = (.ok paths, h') ∧
        (∃ c, compareFiles h' "out" editions = .ok c ∧ c.isUpToDate = true) ∧
        ∀ other, (compareDirectories h' "out" other).toOption.map (·.isUpToDate) =
          (compareFiles h' other editions).toOption.map (·.isUpToDate) := by
  obtain ⟨hreports, hwritten, hdirectories⟩ := @comparison_agrees editions (by decide +kernel) (by decide +kernel)
  have hcompared : (compareFiles tray "old" editions).toOption ≠ none := by decide +kernel
  have hsucceeds : ((writeFiles "out" editions).run.run tray).1.toOption ≠ none := by decide +kernel
  have htree : tray.disk.IsTree := by decide +kernel
  have hapart : Apart (temporaryNames "out" editions tray) editions := by
    unfold Apart
    decide +kernel
  constructor
  · rcases hc : compareFiles tray "old" editions with failure | c
    · exact absurd (by rw [hc]; rfl) hcompared
    · exact ⟨c, rfl, hreports _ _ c hc⟩
  · rcases hrun : (writeFiles "out" editions).run.run tray with ⟨failure | paths, h'⟩
    · exact absurd (by rw [hrun]; rfl) hsucceeds
    · have hdir : tray.find "out" = .ok (["out"], .directory) := by decide +kernel
      exact ⟨paths, h', rfl, hwritten _ _ _ _ htree hapart hrun,
        hdirectories _ _ _ _ _ htree hdir (by decide +kernel) hapart hrun⟩

/-- Two files with flat, distinct names.  Once seven is drawn, the temporary file of the second is named like the
first. -/
def pair : List OutputFile := [⟨"typescript", ".A.ts.7.tmp", "first"⟩, ⟨"typescript", "A.ts", "second"⟩]

/-- The write succeeds, but the directory is not up to date: the first file has gone to the place of the second.  And
a directory that was written by a way through one of its files cannot be compared, though that file is up to date. -/
theorem comparison_disagrees :
    (let end_ := (writeFiles "out" pair).run.run tray
     end_.1.toOption = some ["out/.A.ts.7.tmp", "out/A.ts"] ∧
      end_.2.disk.at? ["out", "A.ts"] = some (.file "first") ∧
      (compareFiles end_.2 "out" pair).toOption = some ⟨[("typescript", ["A.ts"])], [".A.ts.7.tmp"]⟩) ∧
    (let end_ := (writeFiles "out/A.ts/.." [⟨"typescript", "A.ts", "a"⟩]).run.run tray
     end_.1.toOption = some ["out/A.ts"] ∧ (compareDirectories end_.2 "out/A.ts/.." "old").toOption = none ∧
      (compareFiles end_.2 "old" [⟨"typescript", "A.ts", "a"⟩]).toOption = some ⟨[], []⟩) := by
  decide +kernel

end Covenant.Output
