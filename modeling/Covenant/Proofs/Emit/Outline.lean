import Mathlib.Data.List.Induction
import Covenant.Proofs.Text.Charset

/-!
# The outline of an emitted text

What an emitted file declares is read off its text, line by line and without the emitter: a line that starts in the
first column introduces a type, a function or a constant, or imports names, and a line indented by the members of a
type introduces a member if it has a parameter list.
-/

namespace Covenant.Emit

open Text
open List

inductive Item where
  /-- A class or an interface. -/
  | type (name : String)
  /-- A function or a constant. -/
  | value (name : String)
  | imported (name : String)
  /-- A constructor or method of the type before it. -/
  | member (name : String)
  deriving DecidableEq, Repr

/-- Where the reader is in a line, with the name it is about to finish. -/
inductive Mode where
  | start
  /-- In a word in front of the name. -/
  | word (read : List Char)
  | type (read : List Char)
  | value (read : List Char)
  /-- Among the names between the braces of an import. -/
  | names (read : List Char)
  | indent (columns : Nat)
  /-- In front of the parameter list of a member. -/
  | member (read : List Char)
  /-- Nothing more to read on this line. -/
  | rest
  deriving DecidableEq, Repr

/-- What the reader has to know about a language. -/
structure Grammar where
  types : List (List Char)
  values : List (List Char)
  statements : List (List Char)
  memberColumn : Nat

/-- The item that is finished with the line. -/
def Mode.pending : Mode → List Item
  | .type read => [.type (String.ofList read)]
  | .value read => [.value (String.ofList read)]
  | _ => []

def Mode.idle : Mode → Bool
  | .start | .indent _ | .rest => true
  | .member read => read.isEmpty
  | _ => false

namespace Grammar

/-- After a word in front of a name. -/
def afterWord (g : Grammar) (word : List Char) : Mode :=
  if g.types.contains word then .type []
  else if g.values.contains word then .value []
  else if word = ['i', 'm', 'p', 'o', 'r', 't'] then .names []
  else .word []

/-- Reads a character in front of a parameter list; a statement, a value or a type annotation has none. -/
def stepMember (g : Grammar) (read : List Char) (c : Char) : Mode × List Item :=
  if isIdentifierChar c then (.member (read ++ [c]), [])
  else if c = '(' then (.rest, if read.isEmpty then [] else [.member (String.ofList read)])
  else if c = '=' ∨ c = ':' then (.rest, [])
  else if g.statements.contains read then (.rest, [])
  else (.member [], [])

def step (g : Grammar) (m : Mode) (c : Char) : Mode × List Item :=
  if c = '\n' then (.start, m.pending)
  else match m with
    | .start => if c = ' ' then (.indent 1, []) else if isIdentifierChar c then (.word [c], []) else (.rest, [])
    | .word read =>
      if isIdentifierChar c then (.word (read ++ [c]), [])
      else if c = ' ' then (g.afterWord read, []) else (.rest, [])
    | .type read => if isIdentifierChar c then (.type (read ++ [c]), []) else (.rest, m.pending)
    | .value read => if isIdentifierChar c then (.value (read ++ [c]), []) else (.rest, m.pending)
    | .names read =>
      if isIdentifierChar c then (.names (read ++ [c]), [])
      else if c = ',' then (.names [], [.imported (String.ofList read)])
      else if c = '}' then (.rest, [.imported (String.ofList read)])
      else (.names read, [])
    | .indent n =>
      if c = ' ' then (if n < g.memberColumn then .indent (n + 1) else .rest, [])
      else if n = g.memberColumn then g.stepMember [] c
      else (.rest, [])
    | .member read => g.stepMember read c
    | .rest => (.rest, [])

/-- Reads characters from a mode on; gives the mode after them and the items that they finish. -/
def read (g : Grammar) : Mode → List Char → Mode × List Item
  | m, [] => (m, [])
  | m, c :: cs =>
    match g.step m c with
    | (m', items) =>
      match g.read m' cs with
      | (m'', rest) => (m'', items ++ rest)

def outline (g : Grammar) (text : String) : List Item :=
  (g.read .start text.toList).2 ++ (g.read .start text.toList).1.pending

/-- Reading goes on where it stopped. -/
theorem read_append (g : Grammar) (m : Mode) (cs ds : List Char) :
    g.read m (cs ++ ds) =
      ((g.read (g.read m cs).1 ds).1, (g.read m cs).2 ++ (g.read (g.read m cs).1 ds).2) := by
  induction cs generalizing m with
  | nil => simp [read]
  | cons c cs ih => simp [read, ih]

theorem step_break (g : Grammar) (m : Mode) : g.step m '\n' = (.start, m.pending) := by simp [step]

theorem outline_break (g : Grammar) (s t : String) :
    g.outline (s ++ "\n" ++ t) = g.outline s ++ g.outline t := by
  have hbreak : "\n".toList = ['\n'] := by simp
  simp [outline, read_append, read, step_break, hbreak]

theorem outline_empty (g : Grammar) : g.outline "" = [] := by simp [outline, read, Mode.pending]

private theorem outline_emptyLine (g : Grammar) (s t : String) :
    g.outline (s ++ "\n\n" ++ t) = g.outline s ++ g.outline t := by
  have hbreaks : "\n\n".toList = ['\n', '\n'] := by simp
  simp [outline, read_append, read, step_break, hbreaks, Mode.pending]

private theorem outline_trimRight (g : Grammar) (s : String) :
    g.outline (trimRight (· == '\n') s) = g.outline s := by
  have hbreaks : ∀ (cs ds : List Char), (∀ c ∈ ds, c = '\n') →
      g.outline (String.ofList (cs ++ ds)) = g.outline (String.ofList cs) := by
    intro cs ds hds
    induction ds using reverseRecOn with
    | nil => rw [append_nil]
    | append_singleton ds d ih =>
      obtain rfl := hds d (by simp)
      rw [← ih fun c hc => hds c (by simp [hc])]
      simp [outline, read_append, read, step_break, Mode.pending]
  have hsplit := takeWhile_append_dropWhile (p := fun c : Char => c == '\n') (l := s.toList.reverse)
  rw [trimRight, trimRightChars, ← hbreaks _ (s.toList.reverse.takeWhile (· == '\n')).reverse,
    ← reverse_append, hsplit, reverse_reverse, String.ofList_toList]
  intro c hc
  simpa using mem_takeWhile_imp (mem_reverse.1 hc)

private theorem step_blank (g : Grammar) {m : Mode} {c : Char} (hm : m.idle = true) (hc : Text.isBlank c = true) :
    (g.step m c).1.idle = true ∧ (g.step m c).2 = [] := by
  obtain ⟨hident, hopen, hequals, hcolon⟩ := isBlank_eq_true hc
  have hmember : (g.stepMember [] c).1.idle = true ∧ (g.stepMember [] c).2 = [] := by
    rw [stepMember, if_neg (by simp [hident]), if_neg hopen, if_neg (by simp [hequals, hcolon])]
    split <;> exact ⟨rfl, rfl⟩
  by_cases hbreak : c = '\n'
  · rw [hbreak, step_break]
    cases m <;> simp_all [Mode.idle, Mode.pending]
  · unfold step
    rw [if_neg hbreak]
    cases m with
    | start =>
      simp only [hident, Bool.false_eq_true, ↓reduceIte]
      split <;> exact ⟨rfl, rfl⟩
    | rest => exact ⟨rfl, rfl⟩
    | indent n =>
      simp only
      split
      · split <;> exact ⟨rfl, rfl⟩
      · split
        · exact hmember
        · exact ⟨rfl, rfl⟩
    | member read =>
      obtain rfl : read = [] := by simpa [Mode.idle] using hm
      exact hmember
    | _ => cases hm

private theorem outline_blank (g : Grammar) {s : String} (h : (trim s).isEmpty = true) : g.outline s = [] := by
  have hread : ∀ (cs : List Char) (m : Mode), m.idle = true → (∀ c ∈ cs, Text.isBlank c = true) →
      (g.read m cs).1.idle = true ∧ (g.read m cs).2 = [] := by
    intro cs
    induction cs with
    | nil => exact fun m hm _ => ⟨hm, rfl⟩
    | cons c cs ih =>
      intro m hm hcs
      obtain ⟨hm', hitems⟩ := g.step_blank hm (hcs c (.head _))
      obtain ⟨hm'', hrest⟩ := ih _ hm' fun d hd => hcs d (.tail _ hd)
      simp [read, hitems, hm'', hrest]
  obtain ⟨hm, hitems⟩ := hread s.toList .start rfl (isBlank_of_trim h)
  rw [outline, hitems, nil_append]
  cases hmode : (g.read .start s.toList).1 <;> simp_all [Mode.idle, Mode.pending]

/-- Blocks introduce what each of them does. -/
theorem outline_joinBlocks (g : Grammar) (blocks : List String) :
    g.outline (Text.joinBlocks blocks) = blocks.flatMap g.outline := by
  have hjoin : ∀ parts : List String, g.outline (Text.join "\n\n" parts) = parts.flatMap g.outline := by
    intro parts
    induction parts with
    | nil => exact g.outline_empty
    | cons part parts ih =>
      cases parts with
      | nil => simp [Text.join]
      | cons next rest =>
        rw [Text.join, String.intercalate_cons_of_ne_nil (by simp), outline_emptyLine, flatMap_cons, ← ih,
          Text.join]
  rw [Text.joinBlocks, hjoin, flatMap_map]
  simp only [outline_trimRight]
  induction blocks with
  | nil => rfl
  | cons block blocks ih =>
    rw [filter_cons]
    split
    · rw [flatMap_cons, flatMap_cons, ih]
    · rename_i hblank
      rw [flatMap_cons, outline_blank g (by simpa using hblank), nil_append, ih]

end Grammar

/-- The name that an item introduces at the top level. -/
def Item.topLevel? : Item → Option String
  | type name | value name | imported name => some name
  | member _ => none

def Grammar.topLevel (g : Grammar) (text : String) : List String := (g.outline text).filterMap Item.topLevel?

/-- The name of a type that an item introduces. -/
def Item.type? : Item → Option String
  | type name => some name
  | _ => none

def Grammar.typeNames (g : Grammar) (text : String) : List String := (g.outline text).filterMap Item.type?

/-- A mode without what it knows about members. -/
def Mode.flat : Mode → Mode
  | indent _ | member _ => .rest
  | m => m

private theorem Mode.flat_of_ne {m : Mode} (h : m.flat ≠ .rest) : m.flat = m := by
  cases m with
  | indent | member => exact absurd rfl h
  | _ => rfl

private theorem Mode.pending_flat (m : Mode) : m.flat.pending = m.pending := by cases m <;> rfl

namespace Grammar

variable {g g' : Grammar}

private theorem step_flat_rest {m : Mode} (h : m.flat = .rest) (c : Char) :
    (g.step m c).1.flat = (if c = '\n' then .start else .rest) ∧ (g.step m c).2.filterMap Item.topLevel? = [] := by
  have hmember : ∀ read, (g.stepMember read c).1.flat = .rest ∧
      (g.stepMember read c).2.filterMap Item.topLevel? = [] := by
    intro read
    unfold stepMember
    repeat' split
    all_goals exact ⟨rfl, rfl⟩
  by_cases hbreak : c = '\n'
  · rw [hbreak, step_break, if_pos rfl, ← m.pending_flat, h]
    exact ⟨rfl, rfl⟩
  · unfold step
    rw [if_neg hbreak, if_neg hbreak]
    cases m with
    | indent n =>
      dsimp only
      split
      · split <;> exact ⟨rfl, rfl⟩
      · split
        · exact hmember []
        · exact ⟨rfl, rfl⟩
    | member read => exact hmember read
    | rest => exact ⟨rfl, rfl⟩
    | _ => cases h

private theorem step_congr (htypes : g.types = g'.types) (hvalues : g.values = g'.values) {m : Mode}
    (h : m.flat ≠ .rest) (c : Char) : g.step m c = g'.step m c := by
  unfold step
  cases m with
  | word read => simp only [afterWord, htypes, hvalues]
  | indent | member | rest => exact absurd rfl h
  | _ => rfl

theorem topLevel_congr (htypes : g.types = g'.types) (hvalues : g.values = g'.values) (text : String) :
    g.topLevel text = g'.topLevel text := by
  have hread : ∀ (cs : List Char) (m m' : Mode), m.flat = m'.flat → (g.read m cs).1.flat = (g'.read m' cs).1.flat ∧
      (g.read m cs).2.filterMap Item.topLevel? = (g'.read m' cs).2.filterMap Item.topLevel? := by
    intro cs
    induction cs with
    | nil => exact fun m m' h => ⟨h, rfl⟩
    | cons c cs ih =>
      intro m m' h
      have hstep : (g.step m c).1.flat = (g'.step m' c).1.flat ∧
          (g.step m c).2.filterMap Item.topLevel? = (g'.step m' c).2.filterMap Item.topLevel? := by
        by_cases hrest : m.flat = .rest
        · obtain ⟨hmode, hitems⟩ := step_flat_rest (g := g) hrest c
          obtain ⟨hmode', hitems'⟩ := step_flat_rest (g := g') (h ▸ hrest) c
          exact ⟨hmode.trans hmode'.symm, hitems.trans hitems'.symm⟩
        · obtain rfl : m = m' := by rw [← Mode.flat_of_ne hrest, h, Mode.flat_of_ne (h ▸ hrest)]
          rw [step_congr htypes hvalues hrest]
          exact ⟨rfl, rfl⟩
      obtain ⟨hmode, hitems⟩ := ih _ _ hstep.1
      exact ⟨hmode, by simp only [read, filterMap_append, hstep.2, hitems]⟩
  obtain ⟨hmode, hitems⟩ := hread text.toList .start .start rfl
  rw [topLevel, topLevel, outline, outline, filterMap_append, filterMap_append, hitems,
    ← Mode.pending_flat, hmode, Mode.pending_flat]

end Grammar

end Covenant.Emit
