import Covenant.Disk.Host
import Covenant.Proofs.Text.Charset

/-!
# Where paths lead

A path is a list of names, and without a look at the disk it leads from the place where it starts to another one.
Cleaning a path takes out names and keeps where it leads.
-/

namespace Covenant.Path

open Text
open List

def IsSegment (x : String) : Prop := x ≠ "" ∧ '/' ∉ x.toList

/-- A name that stands for an entry of the directory where it is looked up. -/
structure IsFlat (x : String) : Prop where
  segment : IsSegment x
  ne_here : x ≠ "."
  ne_up : x ≠ ".."

instance (x : String) : Decidable (IsFlat x) :=
  decidable_of_iff ((x ≠ "" ∧ '/' ∉ x.toList) ∧ x ≠ "." ∧ x ≠ "..")
    ⟨fun h => ⟨h.1, h.2.1, h.2.2⟩, fun h => ⟨h.segment, h.ne_here, h.ne_up⟩⟩

variable {dir x : String}

theorem names_append (s t : String) : names (s ++ "/" ++ t) = names s ++ names t := by
  have hslash : "/" = String.singleton '/' := rfl
  rw [names, hslash, split_append, filter_append, names, names]

private theorem names_of_segment {x : String} (h : IsSegment x) : names x = [x] := by
  simp [names, split_of_not_mem h.2, h.1]

@[simp] theorem names_empty : names "" = [] := rfl

private theorem mem_of_mem_names {x p : String} {c : Char} (h : x ∈ names p) (hc : c ∈ x.toList) :
    c ∈ p.toList ∧ c ≠ '/' :=
  mem_of_mem_split (mem_filter.1 h).1 hc

theorem isSegment_of_mem_names {x p : String} (h : x ∈ names p) : IsSegment x :=
  ⟨by simpa using (mem_filter.1 h).2, fun hc => (mem_of_mem_names h hc).2 rfl⟩

variable (rooted : Bool) (xs : List String)

/-- The text of names, each with a slash behind it. -/
def lead : String := (if rooted then "/" else "") ++ String.join (xs.map (· ++ "/"))

private theorem lead_cons (x : String) (xs : List String) :
    lead rooted (x :: xs) = lead rooted [] ++ x ++ "/" ++ lead false xs := by
  simp [lead, String.append_assoc, String.join_cons]

private theorem lead_concat (x : String) : lead rooted (xs ++ [x]) = lead rooted xs ++ x ++ "/" := by
  simp [lead, String.append_assoc]

private theorem names_lead_append {xs : List String} (h : ∀ x ∈ xs, IsSegment x) (t : String) :
    names (lead rooted xs ++ t) = xs ++ names t := by
  have hrooted : ∀ rooted s, names (lead rooted [] ++ s) = names s := by
    intro rooted s
    cases rooted with
    | false => simp [lead]
    | true => simpa [lead] using names_append "" s
  induction xs generalizing rooted with
  | nil => exact hrooted rooted t
  | cons x xs ih =>
    have hxs := ih false fun y hy => h y (.tail x hy)
    rw [lead_cons, String.append_assoc, names_append, hrooted, names_of_segment (h x mem_cons_self), hxs]
    rfl

theorem names_lead {xs : List String} (h : ∀ x ∈ xs, IsSegment x) : names (lead rooted xs) = xs := by
  simpa using names_lead_append rooted h ""

private theorem join_concat (x : String) : Text.join "/" (xs ++ [x]) = lead false xs ++ x := by
  induction xs with
  | nil => simp [Text.join, lead]
  | cons y ys ih =>
    rw [cons_append, join_cons y (by simp), ih, lead_cons]
    simp [lead, String.append_assoc]

private theorem names_join {xs : List String} (h : ∀ x ∈ xs, IsSegment x) : names (Text.join "/" xs) = xs := by
  rcases eq_nil_or_concat xs with rfl | ⟨ys, x, rfl⟩
  · rfl
  · rw [concat_eq_append] at h ⊢
    rw [join_concat, names_lead_append false fun y hy => h y (mem_append_left _ hy),
      names_of_segment (h x (by simp))]

theorem isAbsolute_append {s : String} (hs : s ≠ "") (t : String) : isAbsolute (s ++ t) = isAbsolute s := by
  obtain ⟨c, cs, hcs⟩ := exists_cons_of_ne_nil (mt String.toList_eq_nil_iff.1 hs)
  simp [isAbsolute, hasPrefix, hcs, isPrefixOf]

private theorem isAbsolute_of_segment {x : String} (h : IsSegment x) : isAbsolute x = false := by
  obtain ⟨c, cs, hcs⟩ := exists_cons_of_ne_nil (mt String.toList_eq_nil_iff.1 h.1)
  have hc : '/' ≠ c := fun heq => h.2 (hcs ▸ heq ▸ mem_cons_self)
  simp [isAbsolute, hasPrefix, hcs, hc, isPrefixOf]

theorem isAbsolute_lead_append {xs : List String} (h : ∀ x ∈ xs, IsSegment x) {t : String}
    (ht : isAbsolute t = false) :
    isAbsolute (lead rooted xs ++ t) = rooted := by
  cases rooted with
  | true => simp [isAbsolute, hasPrefix, lead, isPrefixOf]
  | false =>
    cases xs with
    | nil => simpa [lead] using ht
    | cons x xs =>
      have hx := h x (.head _)
      rw [lead_cons, String.append_assoc, String.append_assoc]
      simp only [lead, map_nil, String.join_nil, String.append_empty, String.empty_append,
        if_neg Bool.false_ne_true]
      rw [isAbsolute_append hx.1, isAbsolute_of_segment hx]

/-- What the steps of a reduction keep holds of what they reduce. -/
theorem reduce_induct {P : List String → Prop} {rooted : Bool} (here : ∀ xs ys, P (xs ++ "." :: ys) → P (xs ++ ys))
    (back : ∀ xs x ys, x ≠ "." → x ≠ ".." → P (xs ++ x :: ".." :: ys) → P (xs ++ ys))
    (root : rooted = true → ∀ ys, P (".." :: ys) → P ys) {xs done : List String} (hdone : ∀ x ∈ done, x ≠ ".")
    (h : P (done.reverse ++ xs)) : P (reduce rooted done xs) := by
  fun_induction reduce rooted done xs with
  | case1 done => simpa using h
  | case2 done x xs hx ih => exact ih hdone (here _ _ (eq_of_beq hx ▸ h))
  | case3 x xs hx hup last before hlast ih => exact ih (by simp_all) (by simpa using h)
  | case4 x xs hx hup last before hlast ih =>
    obtain ⟨hne, hbefore⟩ := forall_mem_cons.1 hdone
    exact ih hbefore (back _ last _ hne (by simpa using hlast) (by simpa [eq_of_beq hup] using h))
  | case5 x xs hx hup ih =>
    cases rooted with
    | true => exact ih (forall_mem_nil _) (root rfl xs (by simpa [eq_of_beq hup] using h))
    | false => exact ih (by simpa using hx) (by simpa using h)
  | case6 done x xs hx hup ih => exact ih (by simp_all) (by simpa using h)

theorem reduce_sublist : (reduce rooted [] xs).Sublist xs := by
  refine reduce_induct (P := (Sublist · xs)) ?_ ?_ ?_ (forall_mem_nil _) (Sublist.refl xs)
  · exact fun ys zs h => (Sublist.append_left (sublist_cons_self _ _) ys).trans h
  · exact fun ys y zs _ _ h =>
      (Sublist.append_left ((sublist_cons_self _ _).trans (sublist_cons_self _ _)) ys).trans h
  · exact fun _ ys h => (sublist_cons_self _ _).trans h

private theorem reduce_concat {x : String} (h : IsFlat x) (done : List String) :
    reduce rooted done (xs ++ [x]) = reduce rooted done xs ++ [x] := by
  fun_induction reduce rooted done xs with
  | case1 done => simp [reduce, h.ne_here, h.ne_up]
  | _ => simp_all [reduce]

/-- The names of a path that are left when it is cleaned. -/
def steps (p : String) : List String := reduce (isAbsolute p) [] (names p)

theorem segments_steps (p : String) : ∀ x ∈ steps p, IsSegment x :=
  fun _ h => isSegment_of_mem_names ((reduce_sublist _ _).subset h)

def walk : Place → List String → Place
  | p, [] => p
  | p, x :: xs => walk (if x == "." then p else if x == ".." then p.dropLast else p ++ [x]) xs

@[simp] theorem walk_nil (p : Place) : walk p [] = p := rfl

theorem walk_append (p : Place) (xs ys : List String) : walk p (xs ++ ys) = walk (walk p xs) ys := by
  induction xs generalizing p with
  | nil => rfl
  | cons x xs ih => exact ih _

private theorem walk_here (p : Place) (xs : List String) : walk p ("." :: xs) = walk p xs := rfl

private theorem walk_flat {x : String} (h : IsFlat x) (p : Place) : walk p [x] = p ++ [x] := by
  simp [walk, h.ne_here, h.ne_up]

private theorem walk_back {x : String} (hx : x ≠ ".") (hup : x ≠ "..") (p : Place) (xs : List String) :
    walk p (x :: ".." :: xs) = walk p xs := by
  simp [walk, hx, hup]

def start (here : Place) (p : String) : Place := if isAbsolute p then [] else here

def place (here : Place) (p : String) : Place := walk (start here p) (names p)

private theorem walk_reduce {rooted : Bool} {p : Place} (hp : rooted = true → p = []) (xs : List String) :
    walk p (reduce rooted [] xs) = walk p xs := by
  refine reduce_induct (P := fun ys => walk p ys = walk p xs) ?_ ?_ ?_ (forall_mem_nil _) rfl
  · intro ys zs h
    rwa [walk_append, walk_here, ← walk_append] at h
  · intro ys y zs hy hup h
    rwa [walk_append, walk_back hy hup, ← walk_append] at h
  · intro hrooted ys h
    rwa [hp hrooted] at h ⊢

/-- The names that are left lead to the same place. -/
theorem walk_steps (here : Place) (p : String) : walk (start here p) (steps p) = place here p :=
  walk_reduce (fun h => by simp [start, h]) _

private theorem join_eq_empty {xs : List String} (h : ∀ x ∈ xs, IsSegment x) : Text.join "/" xs = "" ↔ xs = [] := by
  refine ⟨fun heq => ?_, fun heq => heq ▸ rfl⟩
  rw [← names_join h, heq, names_empty]

private theorem isAbsolute_join {xs : List String} (h : ∀ x ∈ xs, IsSegment x) :
    isAbsolute (Text.join "/" xs) = false := by
  rcases eq_nil_or_concat xs with rfl | ⟨ys, x, rfl⟩
  · rfl
  · rw [concat_eq_append] at h ⊢
    rw [join_concat]
    have hx := isAbsolute_of_segment (h x (by simp))
    exact isAbsolute_lead_append false (fun y hy => h y (mem_append_left _ hy)) hx

private theorem lead_nil_append (s : String) : lead rooted [] ++ s = if rooted then "/" ++ s else s := by
  cases rooted <;> simp [lead]

private theorem clean_cases (p : String) :
    isAbsolute p = false ∧ steps p = [] ∧ clean p = "." ∨
      ¬(isAbsolute p = false ∧ steps p = []) ∧ clean p = lead (isAbsolute p) [] ++ Text.join "/" (steps p) := by
  have hclean : clean p = if isAbsolute p then "/" ++ Text.join "/" (steps p) else
      if (Text.join "/" (steps p)).isEmpty then "." else Text.join "/" (steps p) := rfl
  have hempty := join_eq_empty (segments_steps p)
  rw [lead_nil_append, hclean]
  by_cases hs : isAbsolute p = false ∧ steps p = []
  · exact .inl ⟨hs.1, hs.2, by simp [hs.1, hempty.2 hs.2]⟩
  · refine .inr ⟨hs, ?_⟩
    cases hp : isAbsolute p with
    | true => simp
    | false =>
      have hne : Text.join "/" (steps p) ≠ "" := fun h => hs ⟨hp, hempty.1 h⟩
      simp [hne]

theorem isAbsolute_clean (p : String) : isAbsolute (clean p) = isAbsolute p := by
  rcases clean_cases p with ⟨hp, -, hclean⟩ | ⟨-, hclean⟩
  · rw [hclean, hp]
    rfl
  · rw [hclean]
    exact isAbsolute_lead_append _ (forall_mem_nil _) (isAbsolute_join (segments_steps p))

/-- The names of a clean path are those that are left, or one point. -/
theorem names_clean (p : String) : names (clean p) = ["."] ∧ steps p = [] ∨ names (clean p) = steps p := by
  rcases clean_cases p with ⟨-, hs, hclean⟩ | ⟨-, hclean⟩
  · exact .inl ⟨by rw [hclean]; rfl, hs⟩
  · refine .inr ?_
    rw [hclean, names_lead_append _ (forall_mem_nil _), names_join (segments_steps p)]
    rfl

/-- A clean path leads to the same place. -/
theorem place_clean (here : Place) (p : String) : place here (clean p) = place here p := by
  rw [place, start, isAbsolute_clean, ← start, ← walk_steps]
  rcases names_clean p with ⟨hnames, hs⟩ | hnames
  · rw [hnames, hs]
    rfl
  · rw [hnames]

theorem clean_ne_empty (p : String) : clean p ≠ "" := by
  rcases clean_cases p with ⟨-, -, hclean⟩ | ⟨hne, hclean⟩
  · simp [hclean]
  · intro h
    rw [hclean, lead_nil_append] at h
    cases hp : isAbsolute p with
    | true => simp [hp] at h
    | false =>
      rw [hp, if_neg Bool.false_ne_true] at h
      exact hne ⟨hp, (join_eq_empty (segments_steps p)).1 h⟩

private theorem byteLength_join_names (p : String) : byteLength (Text.join "/" (names p)) ≤ byteLength p := by
  have hsplit := join_split '/' p
  calc byteLength (Text.join "/" (names p))
    _ ≤ byteLength (Text.join "/" (split '/' p)) := byteLength_join_le filter_sublist
    _ = byteLength p := congrArg byteLength hsplit

private theorem isAbsolute_eq_true {p : String} : isAbsolute p = true ↔ ∃ q, p = "/" ++ q := by
  refine ⟨fun h => ?_, ?_⟩
  · obtain ⟨cs, hcs⟩ := isPrefixOf_iff_prefix.1 h
    refine ⟨String.ofList cs, String.toList_inj.1 ?_⟩
    simpa using hcs.symm
  · rintro ⟨q, rfl⟩
    simp [isAbsolute, hasPrefix, isPrefixOf]

/-- A clean path is no longer than one that has its names. -/
theorem byteLength_clean_le {p q : String} (hq : q ≠ "") (habs : isAbsolute p = isAbsolute q)
    (hnames : (names p).Sublist (names q)) : byteLength (clean p) ≤ byteLength q := by
  have hsteps : ∀ {r}, names q = names r → byteLength (Text.join "/" (steps p)) ≤ byteLength r := by
    intro r hr
    have hsublist : (steps p).Sublist (names q) := (reduce_sublist _ _).trans hnames
    exact Nat.le_trans (byteLength_join_le hsublist) (hr ▸ byteLength_join_names r)
  rcases clean_cases p with ⟨-, -, hclean⟩ | ⟨-, hclean⟩
  · have hpos : byteLength q ≠ 0 := fun h => hq (String.utf8ByteSize_eq_zero_iff.1 h)
    have hdot : byteLength "." = 1 := rfl
    rw [hclean]
    omega
  · rw [hclean, lead_nil_append, habs]
    cases habsq : isAbsolute q with
    | false => simpa using hsteps rfl
    | true =>
      obtain ⟨r, rfl⟩ := isAbsolute_eq_true.1 habsq
      have hr : names ("/" ++ r) = names r := by simpa using names_append "" r
      have hle := hsteps hr
      simpa [byteLength_append] using hle

section Over

variable {P : Char → Bool}

private theorem over_slash (h : P '/' = true) : Over P "/" := by
  intro c hc
  obtain rfl : c = '/' := by simpa using hc
  exact h

theorem over_steps {p x : String} (hp : Over P p) (hx : x ∈ steps p) : Over P x :=
  fun c hc => hp c (mem_of_mem_names ((reduce_sublist _ _).subset hx) hc).1

theorem over_lead (rooted : Bool) {xs : List String} (hslash : P '/' = true) (h : ∀ x ∈ xs, Over P x) :
    Over P (lead rooted xs) := by
  refine .append ?_ (.join ?_)
  · cases rooted with
    | true => simpa using over_slash hslash
    | false => exact fun c hc => absurd hc not_mem_nil
  · intro s hs
    obtain ⟨x, hx, rfl⟩ := mem_map.1 hs
    exact (h x hx).append (over_slash hslash)

theorem over_clean {p : String} (hp : Over P p) (hdot : P '.' = true) (hslash : P '/' = true) : Over P (clean p) := by
  rcases clean_cases p with ⟨-, -, hclean⟩ | ⟨-, hclean⟩
  · rw [hclean]
    intro c hc
    obtain rfl : c = '.' := by simpa using hc
    exact hdot
  · rw [hclean]
    exact (over_lead _ hslash (forall_mem_nil _)).append
      (.separated (over_slash hslash) fun x hx => over_steps hp hx)

end Over

private theorem hasSuffix_append {s x : String} (h : IsSegment x) : hasSuffix "/" (s ++ x) = false := by
  rw [Bool.eq_false_iff]
  intro hsuffix
  obtain ⟨cs, hcs⟩ := isSuffixOf_iff_suffix.1 hsuffix
  rcases eq_nil_or_concat x.toList with hx | ⟨ds, d, hx⟩
  · exact h.1 (String.toList_eq_nil_iff.1 hx)
  · rw [String.toList_append, hx, concat_eq_append, ← append_assoc] at hcs
    have hd : ['/'] = [d] := (append_inj' hcs rfl).2
    have hmem : '/' ∈ ds ++ [d] := mem_append_right ds (hd ▸ mem_singleton_self '/')
    exact h.2 (by rwa [hx, concat_eq_append])

/-- The path is that of an entry of the directory at a place. -/
structure IsEntry (here : Place) (p : String) (dir : Place) (x : String) : Prop where
  flat : IsFlat x
  names_eq : ∃ xs, names p = xs ++ [x] ∧ walk (start here p) xs = dir
  not_closed : hasSuffix "/" p = false

theorem IsEntry.place_eq {here dir : Place} {p x : String} (h : IsEntry here p dir x) :
    place here p = dir ++ [x] := by
  obtain ⟨xs, hnames, hdir⟩ := h.names_eq
  rw [place, hnames, walk_append, hdir, walk_flat h.flat]

theorem IsEntry.base_eq {here dir : Place} {p x : String} (h : IsEntry here p dir x) : base p = x := by
  obtain ⟨xs, hnames, -⟩ := h.names_eq
  have hne : p ≠ "" := fun h => by simp [h] at hnames
  simp [base, hne, hnames]

private theorem names_below (hx : IsFlat x) : names (Host.below dir x) = names dir ++ [x] := by
  rw [Host.below]
  split
  · rename_i hslash
    obtain ⟨cs, hcs⟩ := isSuffixOf_iff_suffix.1 hslash
    have hs : dir = String.ofList cs ++ "/" := String.toList_inj.1 (by simpa using hcs.symm)
    have hdirNames : names dir = names (String.ofList cs) := by simpa [hs] using names_append (String.ofList cs) ""
    rw [hdirNames, hs, names_append, names_of_segment hx.segment]
  · rw [names_append, names_of_segment hx.segment]

private theorem isAbsolute_below {dir : String} (hdir : dir ≠ "") (x : String) :
    isAbsolute (Host.below dir x) = isAbsolute dir := by
  rw [Host.below]
  split
  · exact isAbsolute_append hdir x
  · rw [String.append_assoc, isAbsolute_append hdir]

/-- Where a path starts, and the names on its way to the last one. -/
def way (here : Place) (p : String) : Place × List String := (start here p, (names p).dropLast)

/-- A directory as it is written for the parent of its entries. -/
def trunk (dir : String) : String := clean (lead (isAbsolute dir) (steps dir))

private theorem trimRight_lead :
    trimRightChars (· != '/') (lead rooted xs).toList = (lead rooted xs).toList := by
  rcases eq_nil_or_concat xs with rfl | ⟨ys, y, rfl⟩
  · cases rooted <;> rfl
  · rw [concat_eq_append, lead_concat, String.toList_append]
    simp [trimRightChars]

section

variable (here : Place) (hdir : dir ≠ "") (hx : IsFlat x)
include hdir hx

/-- The path of an entry, as temporary files are named. -/
theorem isEntry_below : IsEntry here (Host.below dir x) (place here dir) x := by
  refine ⟨hx, ⟨names dir, names_below hx, ?_⟩, ?_⟩
  · rw [start, isAbsolute_below hdir]
    rfl
  · rw [Host.below]
    split <;> exact hasSuffix_append hx.segment

private theorem join_flat : join [dir, x] = lead (isAbsolute dir) (steps dir) ++ x := by
  have habs : isAbsolute (dir ++ "/" ++ x) = isAbsolute dir := by
    rw [String.append_assoc, isAbsolute_append hdir]
  have hsteps : steps (dir ++ "/" ++ x) = steps dir ++ [x] := by
    rw [steps, habs, names_append, names_of_segment hx.segment, reduce_concat _ _ hx]
    rfl
  have hjoin : join [dir, x] = clean (dir ++ "/" ++ x) := by
    simp [join, hdir, hx.segment.1, Text.join, String.append_assoc]
  rcases clean_cases (dir ++ "/" ++ x) with ⟨-, hnil, -⟩ | ⟨-, hclean⟩
  · simp [hsteps] at hnil
  · rw [hjoin, hclean, habs, hsteps, join_concat, ← String.append_assoc]
    simp [lead]

/-- The path of an entry, as destinations are named. -/
theorem isEntry_join : IsEntry here (join [dir, x]) (place here dir) x := by
  rw [join_flat hdir hx]
  refine ⟨hx, ⟨steps dir, ?_, ?_⟩, hasSuffix_append hx.segment⟩
  · rw [names_lead_append _ (segments_steps dir), names_of_segment hx.segment]
  · rw [start, isAbsolute_lead_append _ (segments_steps dir) (isAbsolute_of_segment hx.segment)]
    exact walk_steps here dir

theorem way_below : way here (Host.below dir x) = (start here dir, names dir) := by
  rw [way, start, isAbsolute_below hdir, names_below hx, dropLast_concat]
  rfl

theorem way_join : way here (join [dir, x]) = (start here dir, steps dir) := by
  rw [way, start, join_flat hdir hx, names_lead_append _ (segments_steps dir), names_of_segment hx.segment,
    dropLast_concat, isAbsolute_lead_append _ (segments_steps dir) (isAbsolute_of_segment hx.segment)]
  rfl

theorem base_join : base (join [dir, x]) = x := (isEntry_join [] hdir hx).base_eq

theorem parent_join : parent (join [dir, x]) = trunk dir := by
  have hname : ∀ c ∈ x.toList.reverse, (c != '/') = true := by
    intro c hc
    rw [mem_reverse] at hc
    exact bne_iff_ne.2 fun h => hx.segment.2 (h ▸ hc)
  have htrim := trimRight_lead (isAbsolute dir) (steps dir)
  rw [trimRightChars] at htrim
  rw [join_flat hdir hx, parent, String.toList_append, trimRightChars, reverse_append,
    dropWhile_append_of_pos hname, htrim, String.ofList_toList, trunk]

end

attribute [irreducible] trunk

private theorem exists_cut (p : String) : ∃ s t, p = s ++ t ∧ '/' ∉ t.toList ∧ (s = "" ∨ ∃ r, s = r ++ "/") := by
  by_cases hp : '/' ∈ p.toList
  · obtain ⟨after, before, hcut, hafter⟩ := eq_append_cons_of_mem (mem_reverse.2 hp)
    have hcs : p.toList = before.reverse ++ ['/'] ++ after.reverse := by
      rw [← reverse_reverse p.toList, hcut]
      simp
    refine ⟨String.ofList before.reverse ++ "/", String.ofList after.reverse, String.toList_inj.1 ?_, ?_,
      .inr ⟨_, rfl⟩⟩
    · simpa using hcs
    · simpa using hafter
  · exact ⟨"", p, by simp, hp, .inl rfl⟩

private theorem exists_last {p x : String} {xs : List String} (hp : hasSuffix "/" p = false)
    (hnames : names p = xs ++ [x]) : ∃ s, p = s ++ x ∧ names s = xs ∧ (s = "" ∨ ∃ r, s = r ++ "/") := by
  obtain ⟨s, t, rfl, ht, hs⟩ := exists_cut p
  have hne : t ≠ "" := by
    rintro rfl
    rcases hs with rfl | ⟨r, rfl⟩
    · simp at hnames
    · have hsuffix : hasSuffix "/" (r ++ "/") = true := by
        rw [hasSuffix, String.toList_append, isSuffixOf_iff_suffix]
        exact suffix_append _ _
      rw [String.append_empty, hsuffix] at hp
      cases hp
  have hst : names (s ++ t) = names s ++ [t] := by
    rcases hs with rfl | ⟨r, rfl⟩
    · simpa using names_of_segment ⟨hne, ht⟩
    · have hr : names (r ++ "/") = names r := by simpa using names_append r ""
      rw [names_append, hr, names_of_segment ⟨hne, ht⟩]
  rw [hst] at hnames
  obtain ⟨hxs, hx⟩ := append_inj' hnames rfl
  obtain rfl : t = x := by simpa using hx
  exact ⟨s, rfl, hxs, hs⟩

private theorem names_append_end {p x e : String} {xs : List String} (hp : hasSuffix "/" p = false)
    (hnames : names p = xs ++ [x]) (he : '/' ∉ e.toList) : names (p ++ e) = xs ++ [x ++ e] := by
  have hx : IsSegment x := isSegment_of_mem_names (p := p) (by simp [hnames])
  have hxe : IsSegment (x ++ e) := ⟨by simp [hx.1], by simpa using ⟨hx.2, he⟩⟩
  obtain ⟨s, rfl, rfl, hs⟩ := exists_last hp hnames
  rw [String.append_assoc]
  rcases hs with rfl | ⟨r, rfl⟩
  · simpa using names_of_segment hxe
  · have hr : names (r ++ "/") = names r := by simpa using names_append r ""
    rw [names_append, hr, names_of_segment hxe]

namespace IsEntry

variable {here dir : Place} {p x e : String}

private theorem ne_empty (h : IsEntry here p dir x) : p ≠ "" := by
  obtain ⟨xs, hnames, -⟩ := h.names_eq
  rintro rfl
  simp at hnames

theorem append (h : IsEntry here p dir x) (he : '/' ∉ e.toList) (hflat : IsFlat (x ++ e)) :
    IsEntry here (p ++ e) dir (x ++ e) := by
  obtain ⟨xs, hnames, hdir⟩ := h.names_eq
  obtain ⟨s, rfl, -, -⟩ := exists_last h.not_closed hnames
  refine ⟨hflat, ⟨xs, names_append_end h.not_closed hnames he, ?_⟩, ?_⟩
  · rw [start, isAbsolute_append h.ne_empty]
    exact hdir
  · rw [String.append_assoc]
    exact hasSuffix_append hflat.segment

end IsEntry

private theorem trimRight_append {s t : String} (ht : '/' ∉ t.toList) (hs : s = "" ∨ ∃ r, s = r ++ "/") :
    String.ofList (trimRightChars (· != '/') (s ++ t).toList) = s := by
  have hname : ∀ c ∈ t.toList.reverse, (c != '/') = true := by
    intro c hc
    rw [mem_reverse] at hc
    exact bne_iff_ne.2 fun h => ht (h ▸ hc)
  rw [String.toList_append, trimRightChars, reverse_append, dropWhile_append_of_pos hname]
  rcases hs with rfl | ⟨r, rfl⟩ <;> simp

theorem isEntry_parent (here : Place) {p x : String} {xs : List String} (hp : hasSuffix "/" p = false)
    (hnames : names p = xs ++ [x]) (hx : IsFlat x) : IsEntry here p (place here (parent p)) x := by
  obtain ⟨s, rfl, rfl, hs⟩ := exists_last hp hnames
  have habs : isAbsolute (s ++ x) = isAbsolute s := by
    rcases hs with rfl | ⟨r, rfl⟩
    · rw [String.empty_append]
      exact isAbsolute_of_segment hx.segment
    · exact isAbsolute_append (by simp) x
  refine ⟨hx, ⟨names s, hnames, ?_⟩, hp⟩
  rw [parent, trimRight_append hx.segment.2 hs, place_clean, place, start, habs]
  rfl

end Covenant.Path
