import Covenant.Proofs.Disk.Find

/-!
# Making directories

Making a directory with all above it makes directories on the way of the path only.  The way of a clean path goes up
from where it starts and then on to where it leads, so nothing is made inside that directory.
-/

namespace Covenant

open List

namespace Path

/-- Steps up come first, and no name leads nowhere. -/
structure IsStraight (xs : List String) : Prop where
  ne_here : ∀ x ∈ xs, x ≠ "."
  pairwise : xs.Pairwise fun a b => b = ".." → a = ".."

private theorem isStraight_reduce (rooted : Bool) (xs : List String) : IsStraight (reduce rooted [] xs) := by
  have hstack : ∀ done : List String, (∀ x ∈ done, x ≠ ".") → (done.Pairwise fun a b => a = ".." → b = "..") →
      IsStraight (reduce rooted done xs) := by
    intro done
    fun_induction reduce rooted done xs with
    | case1 done => exact fun hne hpair => ⟨by simpa using hne, pairwise_reverse.2 hpair⟩
    | case2 done x xs hx ih => exact ih
    | case3 x xs hx hup last before hlast ih =>
      intro hne hpair
      obtain ⟨hbelow, -⟩ := pairwise_cons.1 hpair
      refine ih (forall_mem_cons.2 ⟨by simpa using hx, hne⟩) (pairwise_cons.2 ⟨fun a ha _ => ?_, hpair⟩)
      exact (mem_cons.1 ha).elim (· ▸ eq_of_beq hlast) fun ha => hbelow a ha (eq_of_beq hlast)
    | case4 x xs hx hup last before hlast ih =>
      exact fun hne hpair => ih (forall_mem_cons.1 hne).2 (pairwise_cons.1 hpair).2
    | case5 x xs hx hup ih =>
      exact fun _ _ => ih (by cases rooted <;> simp_all) (by cases rooted <;> simp)
    | case6 done x xs hx hup ih => exact fun hne hpair => ih (by simp_all) (by simp_all)
  exact hstack [] (forall_mem_nil _) .nil

private theorem walk_flats {xs : List String} (h : ∀ x ∈ xs, x ≠ "." ∧ x ≠ "..") (p : Place) :
    walk p xs = p ++ xs := by
  induction xs generalizing p with
  | nil => simp
  | cons x xs ih =>
    obtain ⟨hx, hxs⟩ := forall_mem_cons.1 h
    rw [walk, ih hxs]
    simp [hx]

private theorem IsStraight.walk_initial {xs ys : List String} (h : IsStraight xs) (hys : ys <+: xs) (p : Place) :
    walk p ys <+: p ∨ walk p ys <+: walk p xs := by
  obtain ⟨hne, hpair⟩ := h
  induction xs generalizing p ys with
  | nil => exact .inl (by simp [prefix_nil.1 hys])
  | cons x xs ih =>
    rcases prefix_cons_iff.1 hys with rfl | ⟨ys, rfl, htail⟩
    · exact .inl (prefix_refl p)
    obtain ⟨hx, hpair⟩ := pairwise_cons.1 hpair
    obtain ⟨hxne, hne⟩ := forall_mem_cons.1 hne
    by_cases hup : x = ".."
    · have hwalk : ∀ zs, walk p (x :: zs) = walk p.dropLast zs := fun zs => by simp [walk, hup]
      rw [hwalk, hwalk]
      exact (ih htail p.dropLast hne hpair).imp_left fun hpre => hpre.trans ( dropLast_prefix p)
    · -- a step that does not go up is followed by none that does
      have hflat : ∀ y ∈ x :: xs, y ≠ "." ∧ y ≠ ".." :=
        forall_mem_cons.2 ⟨⟨hxne, hup⟩, fun y hy => ⟨hne y hy, fun heq => hup (hx y hy heq)⟩⟩
      rw [walk_flats hflat, walk_flats fun y hy => hflat y (hys.subset hy)]
      exact .inr ((prefix_append_right_inj p).2 hys)

private theorem clean_initial (here : Place) (p : String) {ys : List String} (hys : ys <+: names (clean p)) :
    walk (start here p) ys <+: start here p ∨ walk (start here p) ys <+: place here p := by
  rcases names_clean p with ⟨hdot, -⟩ | hsteps
  · rw [hdot, prefix_cons_iff] at hys
    rcases hys with rfl | ⟨zs, rfl, hzs⟩
    · exact .inl (prefix_refl _)
    · exact .inl (by simp [prefix_nil.1 hzs, walk])
  · rw [hsteps] at hys
    rw [← walk_steps]
    exact (isStraight_reduce _ _).walk_initial hys _

private theorem exists_parentText (p : String) : ∃ t, p = Host.parentText p ++ t ∧
    (Host.parentText p = "" ∨ ∃ r, Host.parentText p = r ++ "/") := by
  have hinitial : ∀ (P : Char → Bool) (cs : List Char), Text.trimRightChars P cs <+: cs := by
    intro P cs
    simpa [Text.trimRightChars] using reverse_prefix.2 (dropWhile_suffix P (l := cs.reverse))
  obtain ⟨rest, hrest⟩ := (hinitial (· != '/') _).trans (hinitial (· == '/') p.toList)
  refine ⟨String.ofList rest, String.toList_inj.1 ?_, ?_⟩
  · simpa [Host.parentText] using hrest.symm
  · rw [Host.parentText]
    generalize Text.trimRightChars (· == '/') p.toList = cs
    rw [Text.trimRightChars]
    rcases hcs : cs.reverse.dropWhile (· != '/') with _ | ⟨c, before⟩
    · exact .inl rfl
    · have hc := head_dropWhile_not (· != '/') (l := cs.reverse) (by simp [hcs])
      simp only [hcs, head_cons, bne_eq_false_iff_eq] at hc
      exact .inr ⟨String.ofList before.reverse, String.toList_inj.1 (by simp [hc])⟩

private theorem names_parentText (p : String) : names (Host.parentText p) <+: names p := by
  obtain ⟨t, hp, hempty | ⟨r, hr⟩⟩ := exists_parentText p
  · simp [hempty]
  · have hnames : names (r ++ "/") = names r := by simpa using names_append r ""
    rw [hr, hnames]
    rw [hr] at hp
    rw [hp, names_append]
    exact prefix_append _ _

private theorem start_parentText (here : Place) {p : String} (hp : Host.parentText p ≠ "") :
    start here (Host.parentText p) = start here p := by
  obtain ⟨t, heq, -⟩ := exists_parentText p
  have habs := isAbsolute_append hp t
  rw [← heq] at habs
  rw [start, start, habs]

end Path

namespace Disk

open Outcome

variable {d d' : Disk} {here p q : Place} {path : String}

private theorem makeDirectory_eq_ok : d.makeDirectory here path = .ok d' ↔
    ∃ t, d.target here path = .ok t ∧ d.at? t.place = none ∧ d.at? t.place.dropLast = some .directory ∧
      d.set t.place .directory = d' := by
  simp only [makeDirectory, error_bind, errorIf_eq_ok, bind_eq_ok, parentCheck_eq_ok, pure_eq_ok, exists_const,
    Bool.not_eq_true, Option.isSome_eq_false_iff, Option.isNone_iff_eq_none]

/-- A disk has the files of another one and may have more directories. -/
structure Grows (d d' : Disk) : Prop where
  directory : ∀ q, d.at? q = some .directory → d'.at? q = some .directory
  file : ∀ q content, d'.at? q = some (.file content) ↔ d.at? q = some (.file content)
  isTree : d.IsTree → d'.IsTree

private theorem Grows.refl (d : Disk) : d.Grows d := ⟨fun _ h => h, fun _ _ => Iff.rfl, fun h => h⟩

private theorem Grows.trans {d'' : Disk} (h : d.Grows d') (h' : d'.Grows d'') : d.Grows d'' where
  directory q hq := h'.directory q (h.directory q hq)
  file q content := (h'.file q content).trans (h.file q content)
  isTree ht := h'.isTree (h.isTree ht)

private theorem grows_set (hp : d.at? p = none) (habove : d.at? p.dropLast = some .directory) :
    d.Grows (d.set p .directory) := by
  have hnil : p ≠ [] := fun hnil => by simp [hnil] at hp
  have hdirectory : ∀ q, d.at? q = some .directory → (d.set p .directory).at? q = some .directory := by
    intro q hq
    rw [at?_set hnil]
    split
    · rfl
    · exact hq
  refine ⟨hdirectory, fun q content => ?_, fun htree => isTree_iff.2 fun q e he => ?_⟩
  · rw [at?_set hnil]
    by_cases hq : q = p <;> simp [hq, hp]
  · apply hdirectory
    rw [at?_set hnil] at he
    by_cases hq : q = p
    · exact hq ▸ habove
    · rw [if_neg hq] at he
      exact isTree_iff.1 htree q e he

private theorem makeMissing_eq {made : Disk × Option DiskFault} (h : Host.makeMissing d here path = made) :
    d.Grows made.1 ∧ (made.2 = none → ∃ q, made.1.find here path = .ok (q, .directory)) := by
  subst h
  unfold Host.makeMissing
  split
  · rename_i d' hmake
    obtain ⟨t, ht, hnone, habove, rfl⟩ := makeDirectory_eq_ok.1 hmake
    have hgrows := grows_set hnone habove
    have hnil : t.place ≠ [] := fun hnil => by simp [hnil] at hnone
    refine ⟨hgrows, fun _ => ⟨t.place, find_eq_ok.2 ⟨t, target_mono hgrows.directory ht, rfl, ?_, fun _ => rfl⟩⟩⟩
    simp [at?_set hnil]
  · split
    · exact ⟨.refl d, fun _ => ⟨_, by assumption⟩⟩
    · exact ⟨.refl d, fun h => by cases h⟩

private theorem makeAfter_eq {above made : Disk × Option DiskFault} (habove : d.Grows above.1)
    (h : Host.makeAfter above d here path = made) :
    d.Grows made.1 ∧ (made.2 = none → ∃ q, made.1.find here path = .ok (q, .directory)) := by
  unfold Host.makeAfter at h
  split at h
  · exact h ▸ ⟨.refl d, fun _ => ⟨_, by assumption⟩⟩
  · exact h ▸ ⟨.refl d, fun h => by cases h⟩
  · split at h
    · exact h ▸ ⟨habove, fun h => by cases h⟩
    · obtain ⟨hgrows, hfound⟩ := makeMissing_eq h
      exact ⟨habove.trans hgrows, hfound⟩

/-- Making a directory adds directories only, and it is there without a fault. -/
theorem makeDirectories_eq {depth : Nat} {made : Disk × Option DiskFault}
    (h : Host.makeDirectories depth d here path = made) :
    d.Grows made.1 ∧ (made.2 = none → ∃ q, made.1.find here path = .ok (q, .directory)) := by
  induction depth generalizing path made with
  | zero => exact makeAfter_eq (.refl d) h
  | succ depth ih =>
    rw [Host.makeDirectories] at h
    refine makeAfter_eq ?_ h
    split
    · exact .refl d
    · exact (ih rfl).1

/-- A directory that is there is not made again. -/
theorem makeDirectories_of_find (depth : Nat) (h : d.find here path = .ok (q, .directory)) :
    Host.makeDirectories depth d here path = (d, none) := by
  cases depth <;> simp [Host.makeDirectories, Host.makeAfter, h]

private theorem IsTree.directory_of_initial (h : d.IsTree) (hq : d.at? q = some .directory) (hpq : p <+: q) :
    d.at? p = some .directory := by
  obtain ⟨t, rfl⟩ := hpq
  by_cases ht : t = []
  · simpa [ht] using hq
  · exact h.directory_of_below ht hq

private theorem passes_of_initial {xs : List String}
    (h : ∀ ys, ys <+: xs → d.at? (Path.walk p ys) = some .directory) :
    d.Passes p xs := by
  induction xs generalizing p with
  | nil => trivial
  | cons x xs ih =>
    exact ⟨h [x] (by simp), ih fun ys hys => h (x :: ys) (cons_prefix_cons.2 ⟨rfl, hys⟩)⟩

private theorem start_clean (here : Place) (path : String) :
    Path.start here (Path.clean path) = Path.start here path := by
  rw [Path.start, Path.isAbsolute_clean, ← Path.start]

private theorem IsTree.directory_start (htree : d.IsTree) (hhere : d.at? here = some .directory)
    (hq : q <+: Path.start here path) : d.at? q = some .directory := by
  refine htree.directory_of_initial ?_ hq
  unfold Path.start
  split
  · rfl
  · exact hhere

theorem find_clean_of_at? (htree : d.IsTree) (hhere : d.at? here = some .directory)
    (hfits : Path.Fits (Path.clean path)) (hat : d.at? (Path.place here path) = some .directory) :
    d.find here (Path.clean path) = .ok (Path.place here path, .directory) := by
  refine find_eq_directory.2 ⟨hfits, passes_of_initial fun ys hys => ?_, Path.place_clean here path, hat⟩
  rw [start_clean]
  exact (Path.clean_initial here path hys).elim (htree.directory_start hhere) (htree.directory_of_initial hat)

/-- Some of the names of a path lead to a place where nothing is. -/
def Lacks (d : Disk) (here : Place) (path : String) (q : Place) : Prop :=
  (∃ ys, ys <+: Path.names path ∧ Path.walk (Path.start here path) ys = q) ∧ d.at? q = none

private theorem makeAfter_new {above : Disk × Option DiskFault}
    (habove : ∀ q, above.1.at? q ≠ d.at? q → d.Lacks here path q)
    (h : (Host.makeAfter above d here path).1.at? q ≠ d.at? q) : d.Lacks here path q := by
  unfold Host.makeAfter at h
  split at h
  · exact absurd rfl h
  · exact absurd rfl h
  · split at h
    · exact habove q h
    · rename_i d₁
      unfold Host.makeMissing at h
      split at h
      · rename_i hmake
        obtain ⟨t, ht, hnone, -, rfl⟩ := makeDirectory_eq_ok.1 hmake
        obtain rfl := (target_eq_ok.1 ht).2.2
        rw [at?_set (by rintro hnil; simp [hnil] at hnone)] at h
        by_cases hq : q = Path.place here path
        · subst hq
          by_cases hsame : d₁.at? (Path.place here path) = d.at? (Path.place here path)
          · exact ⟨⟨_, prefix_refl _, rfl⟩, hsame ▸ hnone⟩
          · exact habove _ hsame
        · exact habove q (by simpa [Path.target, hq] using h)
      · split at h <;> exact habove q h

private theorem makeDirectories_new {depth : Nat} (h : (Host.makeDirectories depth d here path).1.at? q ≠ d.at? q) :
    d.Lacks here path q := by
  induction depth generalizing path q with
  | zero => exact makeAfter_new (fun _ h => absurd rfl h) h
  | succ depth ih =>
    rw [Host.makeDirectories] at h
    refine makeAfter_new (fun q hq => ?_) h
    split at hq
    · exact absurd rfl hq
    · rename_i hne
      obtain ⟨⟨ys, hys, hwalk⟩, hnone⟩ := ih hq
      rw [Path.start_parentText here (by simpa using hne)] at hwalk
      exact ⟨⟨ys, hys.trans (Path.names_parentText path), hwalk⟩, hnone⟩

/-- Nothing is made inside the directory that a clean path leads to. -/
theorem at?_makeDirectories_clean (htree : d.IsTree) (hhere : d.at? here = some .directory) (depth : Nat)
    (y : String) :
    (Host.makeDirectories depth d here (Path.clean path)).1.at? (Path.place here path ++ [y]) =
      d.at? (Path.place here path ++ [y]) := by
  by_contra hne
  obtain ⟨⟨ys, hys, hwalk⟩, hnone⟩ := makeDirectories_new hne
  have hinitial := Path.clean_initial here path hys
  rw [start_clean] at hwalk
  rw [hwalk] at hinitial
  rcases hinitial with hstart | hplace
  · rw [htree.directory_start hhere hstart] at hnone
    cases hnone
  · simpa using hplace.length_le

end Disk

end Covenant
