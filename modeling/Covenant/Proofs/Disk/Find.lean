import Mathlib.Data.List.Induction
import Covenant.Proofs.Disk.Path
import Covenant.Proofs.Outcome
import Covenant.Proofs.Text.Order

/-!
# Entries of a disk and how they are found

What is at each place after an entry has been put, removed or moved, and when a path is found: if it can be looked up
at all and leads through directories.  A clean path leads through less directories than the path itself.
-/

namespace Covenant

open List
open Text

namespace Disk

/-- Every entry lies in a directory. -/
def IsTree (d : Disk) : Prop := ∀ x ∈ d.entries, d.at? x.1.dropLast = some .directory

instance (d : Disk) : Decidable d.IsTree := inferInstanceAs (Decidable (∀ x ∈ d.entries, _))

variable {d : Disk} {p q r : Place} {e : Entry}

@[simp] theorem at?_nil (d : Disk) : d.at? [] = some .directory := rfl

private theorem at?_of_ne_nil (d : Disk) (hp : p ≠ []) : d.at? p = d.entries.lookup p := if_neg hp

private theorem mem_of_at? (hp : p ≠ []) (h : d.at? p = some e) : (p, e) ∈ d.entries := by
  rw [at?_of_ne_nil d hp] at h
  obtain ⟨before, after, hentries, -⟩ := List.lookup_eq_some_iff.1 h
  rw [hentries]
  simp

private theorem exists_at?_of_mem (h : (p, e) ∈ d.entries) : ∃ e, d.at? p = some e := by
  by_cases hp : p = []
  · exact ⟨.directory, hp ▸ rfl⟩
  · rw [at?_of_ne_nil d hp]
    refine Option.ne_none_iff_exists'.1 fun hnone => Text.lookup_eq_none_iff.1 hnone ?_
    exact mem_map_of_mem h

/-- On a tree, all that is at a place lies in a directory. -/
theorem isTree_iff : d.IsTree ↔ ∀ p e, d.at? p = some e → d.at? p.dropLast = some .directory := by
  refine ⟨fun h p e hp => ?_, fun h x hx => ?_⟩
  · by_cases hnil : p = []
    · rw [hnil]
      rfl
    · exact h (p, e) (mem_of_at? hnil hp)
  · obtain ⟨e, he⟩ := exists_at?_of_mem hx
    exact h x.1 e he

theorem IsTree.directory_of_below (h : d.IsTree) {t : Place} (ht : t ≠ []) (he : d.at? (p ++ t) = some e) :
    d.at? p = some .directory := by
  induction t using reverseRecOn generalizing e with
  | nil => exact absurd rfl ht
  | append_singleton t x ih =>
    have habove := isTree_iff.1 h _ e he
    rw [← append_assoc, dropLast_concat] at habove
    by_cases ht : t = []
    · simpa [ht] using habove
    · exact ih ht habove

private theorem IsTree.at?_eq_none (h : d.IsTree) (hp : d.at? p ≠ some .directory) (hpq : p <+: q) (hne : q ≠ p) :
    d.at? q = none := by
  obtain ⟨t, rfl⟩ := hpq
  refine Option.eq_none_iff_forall_ne_some.2 fun e he => hp (h.directory_of_below ?_ he)
  rintro rfl
  exact hne (append_nil p)

/-- Removing an entry changes its place only. -/
theorem at?_erase (hp : p ≠ []) : (d.erase p).at? q = if q = p then none else d.at? q := by
  by_cases hq : q = []
  · simp [hq, Ne.symm hp]
  · rw [at?_of_ne_nil _ hq, at?_of_ne_nil _ hq, erase, lookup_filter_key fun r => decide (r ≠ p)]
    by_cases hqp : q = p <;> simp [hqp]

/-- Putting an entry changes its place only. -/
theorem at?_set (hp : p ≠ []) : (d.set p e).at? q = if q = p then some e else d.at? q := by
  by_cases hq : q = []
  · simp [hq, Ne.symm hp]
  · have herase := at?_erase (d := d) (q := q) hp
    rw [at?_of_ne_nil _ hq] at herase ⊢
    rw [set, lookup_append, herase]
    by_cases hqp : q = p
    · simp [hqp]
    · simp [hqp, lookup_cons, beq_eq_false_iff_ne.2 hqp]

private theorem at?_prune (hp : p ≠ []) : (d.prune p).at? q = if p.isPrefixOf q then none else d.at? q := by
  by_cases hq : q = []
  · simp [hq, hp]
  · rw [at?_of_ne_nil _ hq, at?_of_ne_nil _ hq, prune, lookup_filter_key fun r => !p.isPrefixOf r]
    cases p.isPrefixOf q <;> simp

private theorem lookup_moved (l : List (Place × Entry)) :
    ((l.filter fun x => p.isPrefixOf x.1).map fun x => (q ++ x.1.drop p.length, x.2)).lookup r =
      if q <+: r then l.lookup (p ++ r.drop q.length) else none := by
  induction l with
  | nil => simp
  | cons x l ih =>
    obtain ⟨key, e⟩ := x
    by_cases hp : p <+: key
    · obtain ⟨t, rfl⟩ := hp
      rw [filter_cons_of_pos (by simp), map_cons, lookup_cons, ih, drop_left]
      by_cases hr : r = q ++ t
      · simp [hr]
      · rw [beq_eq_false_iff_ne.2 hr]
        refine if_ctx_congr Iff.rfl (fun hq => ?_) fun _ => rfl
        obtain ⟨u, rfl⟩ := hq
        have hu : p ++ u ≠ p ++ t := fun h => hr (by rw [append_cancel_left h])
        rw [drop_left, lookup_cons, beq_eq_false_iff_ne.2 hu]
    · have hne : ∀ u, p ++ u ≠ key := fun u h => hp ⟨u, h⟩
      have hstarts : ¬p.isPrefixOf key = true := mt isPrefixOf_iff_prefix.1 hp
      rw [filter_cons_of_neg (by simpa using hstarts), ih, lookup_cons, beq_eq_false_iff_ne.2 (hne _)]

/-- Moving an entry moves all below it. -/
theorem at?_move (hp : p ≠ []) (hq : q ≠ []) : (d.move p q).at? r =
    if q <+: r then d.at? (p ++ r.drop q.length) else if p <+: r then none else d.at? r := by
  by_cases hr : r = []
  · simp [hr, hp, hq]
  · have hbelow : p ++ r.drop q.length ≠ [] := by simp [hp]
    have hrest := at?_prune (d := d.prune p) (q := r) hq
    rw [at?_prune hp, at?_of_ne_nil _ hr] at hrest
    rw [at?_of_ne_nil _ hr, move, lookup_append, hrest, lookup_moved, ← at?_of_ne_nil d hbelow]
    simp only [ isPrefixOf_iff_prefix]
    by_cases hqr : q <+: r
    · simp [hqr]
    · simp [hqr]

/-- Moving a file moves nothing else. -/
theorem at?_move_file (h : d.IsTree) {content : String} (hp : d.at? p = some (.file content))
    (hq : d.at? q ≠ some .directory) :
    (d.move p q).at? r = if r = q then d.at? p else if r = p then none else d.at? r := by
  have hpfile : d.at? p ≠ some .directory := by simp [hp]
  have hpnil : p ≠ [] := fun hnil => hpfile (hnil ▸ rfl)
  have hqnil : q ≠ [] := fun hnil => hq (hnil ▸ rfl)
  rw [at?_move hpnil hqnil]
  by_cases hqr : q <+: r
  · obtain ⟨t, rfl⟩ := hqr
    rw [if_pos (prefix_append q t), drop_left]
    by_cases ht : t = []
    · simp [ht]
    · -- nothing was below the file, and nothing at the place where it goes
      have hpt : d.at? (p ++ t) = none := h.at?_eq_none hpfile (prefix_append p t) (by simpa using ht)
      have hqt : d.at? (q ++ t) = none := h.at?_eq_none hq (prefix_append q t) (by simpa using ht)
      simp [ht, hpt, hqt]
  · have hne : r ≠ q := fun heq => hqr (heq ▸ prefix_refl q)
    rw [if_neg hqr, if_neg hne]
    by_cases hr : r = p
    · simp [hr]
    · rw [if_neg hr]
      split
      · exact (h.at?_eq_none hpfile (by assumption) hr).symm
      · rfl

/-- The places below one at which there is something. -/
theorem mem_placesBelow : q ∈ d.placesBelow p ↔ ∃ t e, t ≠ [] ∧ q = p ++ t ∧ d.at? q = some e := by
  rw [placesBelow, mem_filter]
  simp only [Bool.and_eq_true, decide_eq_true_eq, isPrefixOf_iff_prefix]
  constructor
  · rintro ⟨hq, ⟨t, rfl⟩, hne⟩
    obtain ⟨x, hx, heq⟩ := mem_map.1 hq
    obtain ⟨e, he⟩ := exists_at?_of_mem (p := x.1) (e := x.2) hx
    exact ⟨t, e, by simpa using hne, rfl, heq ▸ he⟩
  · rintro ⟨t, e, ht, rfl, he⟩
    exact ⟨mem_map.2 ⟨_, mem_of_at? (by simp [ht]) he, rfl⟩, prefix_append p t, by simpa using ht⟩

theorem placesBelow_eq_nil : d.placesBelow p = [] ↔ ∀ t, t ≠ [] → d.at? (p ++ t) = none := by
  rw [eq_nil_iff_forall_not_mem]
  constructor
  · intro h t ht
    exact Option.eq_none_iff_forall_ne_some.2 fun e he => h (p ++ t) (mem_placesBelow.2 ⟨t, e, ht, rfl, he⟩)
  · intro h q hq
    obtain ⟨t, e, ht, rfl, he⟩ := mem_placesBelow.1 hq
    rw [h t ht] at he
    cases he

end Disk

/-- A path that a disk looks up. -/
structure Path.Fits (path : String) : Prop where
  not_null : '\x00' ∉ path.toList
  ne_empty : path ≠ ""
  length_le : byteLength path ≤ Disk.longestPath
  name_le : ∀ x ∈ Path.names path, byteLength x ≤ Disk.longestName

private theorem Path.Fits.over {path : String} (h : Path.Fits path) : Over (· != '\x00') path :=
  fun _ hc => bne_iff_ne.2 fun hnull => h.not_null (hnull ▸ hc)

private theorem Path.Fits.clean {p q : String} (hq : Path.Fits q) (habs : Path.isAbsolute p = Path.isAbsolute q)
    (hnames : (Path.names p).Sublist (Path.names q)) (hp : Over (· != '\x00') p) : Path.Fits (Path.clean p) := by
  refine ⟨fun hc => ?_, Path.clean_ne_empty p, ?_, fun x hx => ?_⟩
  · simpa using Path.over_clean hp rfl rfl _ hc
  · exact Nat.le_trans (Path.byteLength_clean_le hq.ne_empty habs hnames) hq.length_le
  · rcases Path.names_clean p with ⟨hdot, -⟩ | hsteps
    · rw [hdot, mem_singleton] at hx
      subst hx
      decide
    · rw [hsteps] at hx
      exact hq.name_le x (hnames.subset ((Path.reduce_sublist _ _).subset hx))

/-- Where a path leads, without a look at the disk. -/
def Path.target (here : Place) (path : String) : Target :=
  ⟨Path.place here path, (Path.names path).getLast?.any fun x => x != "." && x != "..", hasSuffix "/" path⟩

theorem Path.IsEntry.target_eq {here dir : Place} {path x : String} (h : Path.IsEntry here path dir x) :
    Path.target here path = ⟨dir ++ [x], true, false⟩ := by
  obtain ⟨xs, hnames, -⟩ := h.names_eq
  simp [Path.target, h.place_eq, h.not_closed, hnames, h.flat.ne_here, h.flat.ne_up]

namespace Disk

open Outcome

variable {d d' : Disk} {here p q : Place} {path : String} {e : Entry}

/-- Names lead through directories. -/
def Passes (d : Disk) : Place → List String → Prop
  | _, [] => True
  | p, x :: xs => d.at? (Path.walk p [x]) = some .directory ∧ d.Passes (Path.walk p [x]) xs

private theorem passes_append {xs ys : List String} :
    d.Passes p (xs ++ ys) ↔ d.Passes p xs ∧ d.Passes (Path.walk p xs) ys := by
  induction xs generalizing p with
  | nil => simp [Passes]
  | cons x xs ih => simp only [cons_append, Passes, ih, and_assoc]; rfl

variable {t : Target} {xs : List String}

private theorem Passes.mono (h : ∀ q, d.at? q = some .directory → d'.at? q = some .directory)
    (hpass : d.Passes p xs) : d'.Passes p xs := by
  induction xs generalizing p with
  | nil => trivial
  | cons x xs ih => exact ⟨h _ hpass.1, ih hpass.2⟩

private theorem Passes.reduce {rooted : Bool} (hp : rooted = true → p = []) {xs : List String} (h : d.Passes p xs) :
    d.Passes p (Path.reduce rooted [] xs) := by
  refine Path.reduce_induct (P := d.Passes p) ?_ ?_ ?_ (forall_mem_nil _) h
  · intro ys zs h
    obtain ⟨hys, -, hzs⟩ := passes_append.1 h
    exact passes_append.2 ⟨hys, hzs⟩
  · intro ys y zs hy hup h
    obtain ⟨hys, -, -, hzs⟩ := passes_append.1 h
    refine passes_append.2 ⟨hys, ?_⟩
    simpa [Path.walk, hy, hup] using hzs
  · intro hrooted ys h
    rw [hp hrooted] at h ⊢
    exact h.2

private theorem follow_eq_ok {t : Place × Bool} :
    d.follow p xs = .ok t ↔ (∀ x ∈ xs, byteLength x ≤ longestName) ∧ d.Passes p xs.dropLast ∧
      t = (Path.walk p xs, xs.getLast?.any fun x => x != "." && x != "..") := by
  induction xs generalizing p with
  | nil => simp [follow, Passes, eq_comm]
  | cons x xs ih =>
    -- a dot or two dots are never too long
    have hlong : ¬((x != "." && x != "..") && decide (byteLength x > longestName)) = true ↔
        byteLength x ≤ longestName := by
      by_cases hx : x = "." ∨ x = ".."
      · rcases hx with rfl | rfl <;> decide
      · simp_all
    have hnext : (if (x == ".") = true then p else if (x == "..") = true then p.dropLast else p ++ [x]) =
        Path.walk p [x] := rfl
    simp only [follow, hnext, forall_mem_cons]
    by_cases hx : byteLength x ≤ longestName
    · rw [if_neg (hlong.2 hx), and_iff_right hx]
      cases xs with
      | nil => simp [Passes, eq_comm]
      | cons y ys =>
        rw [if_neg (by simp), dropLast_cons_cons, Passes, getLast?_cons_cons]
        cases hat : d.at? (Path.walk p [x]) with
        | none => simp
        | some e =>
          cases e with
          | file content => simp
          | directory =>
            simp only [ih, true_and]
            rfl
    · rw [if_pos (not_not.1 (mt hlong.1 hx))]
      simp [hx]

/-- A path has a target if its length and its directories allow it. -/
theorem target_eq_ok : d.target here path = .ok t ↔
      Path.Fits path ∧ d.Passes (Path.start here path) (Path.names path).dropLast ∧ t = Path.target here path := by
  have hfits : Path.Fits path ↔ ¬path.toList.contains '\x00' = true ∧ ¬path.isEmpty = true ∧
      ¬byteLength path > longestPath ∧ ∀ x ∈ Path.names path, byteLength x ≤ longestName := by
    refine ⟨fun h => ⟨by simpa using h.not_null, by simpa using h.ne_empty, Nat.not_lt.2 h.length_le, h.name_le⟩,
      fun ⟨hnull, hne, hlength, hname⟩ => ⟨by simpa using hnull, by simpa using hne, Nat.not_lt.1 hlength, hname⟩⟩
  simp only [target, error_bind, errorIf_eq_ok, bind_eq_ok, pure_eq_ok, follow_eq_ok, hfits, and_assoc]
  refine and_congr_right fun _ => and_congr_right fun _ => and_congr_right fun _ => ?_
  constructor
  · rintro ⟨_, hname, hpass, rfl, rfl⟩
    exact ⟨hname, hpass, rfl⟩
  · rintro ⟨hname, hpass, rfl⟩
    exact ⟨_, hname, hpass, rfl, rfl⟩

/-- More directories do not change a target. -/
theorem target_mono (h : ∀ q, d.at? q = some .directory → d'.at? q = some .directory)
    (ht : d.target here path = .ok t) : d'.target here path = .ok t := by
  obtain ⟨hfits, hpass, rfl⟩ := target_eq_ok.1 ht
  exact target_eq_ok.2 ⟨hfits, hpass.mono h, rfl⟩

/-- All directories on the way of a path are there. -/
def Opens (d : Disk) (here : Place) (path : String) : Prop := d.Passes (Path.way here path).1 (Path.way here path).2

theorem target_entry {x : String} (h : Path.IsEntry here path p x) :
    d.target here path = .ok t ↔ Path.Fits path ∧ d.Opens here path ∧ t = ⟨p ++ [x], true, false⟩ := by
  rw [target_eq_ok, h.target_eq]
  rfl

theorem Opens.keep {d₀ : Disk} (h₀ : d₀.Opens here path) (h : d.Opens here path)
    (hkeep : ∀ q, d₀.at? q = some .directory → d.at? q = some .directory → d'.at? q = some .directory) :
    d'.Opens here path := by
  unfold Opens at h₀ h ⊢
  generalize (Path.way here path).1 = p at h₀ h ⊢
  generalize (Path.way here path).2 = xs at h₀ h ⊢
  induction xs generalizing p with
  | nil => trivial
  | cons x xs ih => exact ⟨hkeep _ h₀.1 h.1, ih _ h₀.2 h.2⟩

theorem opens_congr {path' : String} (h : Path.way here path = Path.way here path') :
    d.Opens here path ↔ d.Opens here path' := by
  rw [Opens, Opens, h]

/-- A target depends on the directories on its way only. -/
theorem target_of_opens {d₀ : Disk} (h₀ : d₀.target here path = .ok t) (h : d.Opens here path) :
    d.target here path = .ok t := by
  obtain ⟨hfits, -, ht⟩ := target_eq_ok.1 h₀
  exact target_eq_ok.2 ⟨hfits, h, ht⟩

theorem find_eq_ok : d.find here path = .ok (q, e) ↔
    ∃ t, d.target here path = .ok t ∧ t.place = q ∧ d.at? q = some e ∧
      (t.isDirectoryOnly = true → e = .directory) := by
  simp only [find, bind_eq_ok]
  refine exists_congr fun t => and_congr_right fun _ => ⟨fun h => ?_, ?_⟩
  · split at h
    · cases h
    · obtain ⟨rfl, rfl⟩ := Prod.mk.inj (pure_eq_ok.1 h)
      exact ⟨rfl, by assumption, fun _ => rfl⟩
    · obtain ⟨hopen, h⟩ := errorIf_eq_ok.1 h
      obtain ⟨rfl, rfl⟩ := Prod.mk.inj (pure_eq_ok.1 h)
      exact ⟨rfl, by assumption, fun hclosed => absurd hclosed hopen⟩
  · rintro ⟨rfl, he, hclosed⟩
    rw [he]
    cases e with
    | directory => rfl
    | file content =>
      have hopen : ¬t.isDirectoryOnly = true := fun h => Entry.noConfusion (hclosed h)
      exact errorIf_eq_ok.2 ⟨hopen, rfl⟩

theorem find_iff_of_target (ht : d.target here path = .ok ⟨p, true, false⟩) :
    d.find here path = .ok (q, e) ↔ p = q ∧ d.at? p = some e := by
  rw [find_eq_ok]
  constructor
  · rintro ⟨t, ht', rfl, he, -⟩
    rw [ht] at ht'
    cases ht'
    exact ⟨rfl, he⟩
  · rintro ⟨rfl, he⟩
    exact ⟨_, ht, rfl, he, fun hclosed => by cases hclosed⟩

private theorem passes_iff_dropLast :
    d.Passes p xs ↔ d.Passes p xs.dropLast ∧ (xs ≠ [] → d.at? (Path.walk p xs) = some .directory) := by
  rcases eq_nil_or_concat xs with rfl | ⟨ys, y, rfl⟩
  · simp [Passes]
  · simp [passes_append, Path.walk_append, Passes]

/-- A path finds a directory if all its names lead through directories. -/
theorem find_eq_directory : d.find here path = .ok (q, .directory) ↔
    Path.Fits path ∧ d.Passes (Path.start here path) (Path.names path) ∧ Path.place here path = q ∧
      d.at? q = some .directory := by
  rw [find_eq_ok, passes_iff_dropLast]
  constructor
  · rintro ⟨t, ht, rfl, hat, -⟩
    obtain ⟨hfits, hpass, rfl⟩ := target_eq_ok.1 ht
    exact ⟨hfits, ⟨hpass, fun _ => hat⟩, rfl, hat⟩
  · rintro ⟨hfits, ⟨hpass, -⟩, rfl, hat⟩
    exact ⟨_, target_eq_ok.2 ⟨hfits, hpass, rfl⟩, rfl, hat, fun _ => rfl⟩

/-- The way to an entry of a directory that is found is open. -/
theorem opens_below {dir x : String} (h : d.find here dir = .ok (q, .directory)) (hx : Path.IsFlat x) :
    d.Opens here (Host.below dir x) := by
  obtain ⟨hfits, hpass, -⟩ := find_eq_directory.1 h
  rwa [Opens, Path.way_below here hfits.ne_empty hx]

theorem opens_join {dir x : String} (h : d.find here dir = .ok (q, .directory)) (hx : Path.IsFlat x) :
    d.Opens here (Path.join [dir, x]) := by
  obtain ⟨hfits, hpass, -⟩ := find_eq_directory.1 h
  rw [Opens, Path.way_join here hfits.ne_empty hx]
  exact hpass.reduce fun h => by simp [Path.start, h]

attribute [irreducible] Opens

private theorem find_clean (hfits : Path.Fits (Path.clean path))
    (hpass : d.Passes (Path.start here path) (Path.names path))
    (hat : d.at? (Path.place here path) = some .directory) :
    d.find here (Path.clean path) = .ok (Path.place here path, .directory) := by
  refine find_eq_directory.2 ⟨hfits, ?_, Path.place_clean here path, hat⟩
  rw [Path.start, Path.isAbsolute_clean, ← Path.start]
  rcases Path.names_clean path with ⟨hdot, hnil⟩ | hsteps
  · rw [← Path.walk_steps, hnil] at hat
    rw [hdot]
    exact ⟨hat, trivial⟩
  · rw [hsteps]
    exact hpass.reduce fun h => by simp [Path.start, h]

theorem find_trunk {dir : String} (h : d.find here dir = .ok (q, .directory)) :
    d.find here (Path.trunk dir) = .ok (q, .directory) := by
  obtain ⟨hfits, hpass, rfl, hat⟩ := find_eq_directory.1 h
  have hsublist : (Path.steps dir).Sublist (Path.names dir) := Path.reduce_sublist _ _
  have hnames := Path.names_lead (Path.isAbsolute dir) (Path.segments_steps dir)
  have hover := Path.over_lead (P := (· != '\x00')) (Path.isAbsolute dir) rfl fun y => Path.over_steps hfits.over
  have habs : Path.isAbsolute (Path.lead (Path.isAbsolute dir) (Path.steps dir)) = Path.isAbsolute dir := by
    simpa using Path.isAbsolute_lead_append _ (Path.segments_steps dir) (t := "") rfl
  rw [Path.trunk]
  generalize Path.lead (Path.isAbsolute dir) (Path.steps dir) = above at hnames hover habs ⊢
  have hstart : Path.start here above = Path.start here dir := by rw [Path.start, habs, ← Path.start]
  have hplace : Path.place here above = Path.place here dir := by
    rw [Path.place, hstart, hnames, Path.walk_steps]
  rw [← hplace] at hat ⊢
  refine find_clean (hfits.clean habs (hnames ▸ hsublist) hover) ?_ hat
  rw [hstart, hnames]
  exact hpass.reduce fun h => by simp [Path.start, h]

theorem parentCheck_eq_ok {u : Unit} : d.parentCheck p = .ok u ↔ d.at? p.dropLast = some .directory := by
  unfold parentCheck
  split <;> simp_all

/-- A file is written at a target that is no directory. -/
theorem exists_of_writeFile {content : String} (h : d.writeFile here path content = .ok d') :
    ∃ t, d.target here path = .ok t ∧ (t.isNamed = true ∧ t.isDirectoryOnly = false) ∧
      d.at? t.place ≠ some .directory ∧ d.set t.place (.file content) = d' := by
  simp only [writeFile, error_bind, errorIf_eq_ok, bind_eq_ok] at h
  obtain ⟨t, ht, hname, h⟩ := h
  refine ⟨t, ht, by simpa using hname, ?_⟩
  split at h
  · cases h
  · exact ⟨by simp_all, pure_eq_ok.1 h⟩
  · obtain ⟨_, -, h⟩ := bind_eq_ok.1 h
    exact ⟨by simp_all, pure_eq_ok.1 h⟩

theorem remove_file (ht : d.target here path = .ok ⟨p, true, false⟩) (hp : d.at? p ≠ some .directory) :
    d.remove here path = if d.at? p = none then .error .notFound else .ok (d.erase p) := by
  rw [remove, ht, ok_bind]
  cases hat : d.at? p with
  | none => rfl
  | some e =>
    cases e with
    | file content => rfl
    | directory => exact absurd hat hp

/-- An entry is removed unless it is a directory that holds something. -/
theorem remove_eq (ht : d.target here path = .ok ⟨p, true, false⟩) :
    d.remove here path =
      if d.at? p = none then .error .notFound
      else if d.at? p = some .directory ∧ d.placesBelow p ≠ [] then .error .notEmpty else .ok (d.erase p) := by
  rw [remove, ht, ok_bind]
  cases hat : d.at? p with
  | none => rfl
  | some e =>
    cases e with
    | file content => rfl
    | directory => cases d.placesBelow p <;> simp [pure, Except.pure]

/-- An entry that is renamed goes to a place where no directory is. -/
theorem exists_of_rename {old new : String} (h : d.rename here old new = .ok d') :
    (∀ q, d.find here new ≠ .ok (q, .directory)) ∧ ∃ s t, d.target here old = .ok s ∧ d.target here new = .ok t ∧
      d.at? s.place ≠ none ∧ d.move s.place t.place = d' := by
  unfold rename at h
  split at h
  · obtain ⟨_, -, h⟩ := bind_eq_ok.1 h
    cases h
  · rename_i hfind
    obtain ⟨s, hs, h⟩ := bind_eq_ok.1 h
    obtain ⟨t, ht, h⟩ := bind_eq_ok.1 h
    refine ⟨fun q hq => hfind q hq, s, t, hs, ht, ?_⟩
    simp only [error_bind, errorIf_eq_ok, bind_eq_ok] at h
    obtain ⟨-, -, -, -, -, h⟩ := h
    split at h
    · cases h
    · exact ⟨by simp_all, pure_eq_ok.1 (errorIf_eq_ok.1 h).2⟩
    · obtain ⟨-, h⟩ := errorIf_eq_ok.1 h
      split at h
      · cases h
      · exact ⟨by simp_all, pure_eq_ok.1 h⟩

/-- A file in a directory can take the place of another one. -/
theorem rename_file {old new : String} (hold : d.target here old = .ok ⟨p, true, false⟩)
    (hnew : d.target here new = .ok ⟨q, true, false⟩) (hp : d.at? p ≠ some .directory)
    (hq : d.at? q ≠ some .directory) (hpabove : d.at? p.dropLast = some .directory)
    (hqabove : d.at? q.dropLast = some .directory) :
    d.rename here old new = if d.at? p = none then .error .notFound else .ok (d.move p q) := by
  unfold rename
  split
  · rename_i hfind
    obtain ⟨t, ht, rfl, hat, -⟩ := find_eq_ok.1 hfind
    rw [hnew] at ht
    cases ht
    exact absurd hat hq
  · rw [hold, ok_bind, hnew, ok_bind, (parentCheck_eq_ok (u := ())).2 hpabove,
      (parentCheck_eq_ok (u := ())).2 hqabove]
    cases hat : d.at? p with
    | none => rfl
    | some e =>
      cases e with
      | file content => rfl
      | directory => exact absurd hat hp

end Disk

end Covenant
