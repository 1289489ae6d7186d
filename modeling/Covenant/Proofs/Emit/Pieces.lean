import Covenant.Proofs.Emit.Outline

/-!
# Reading a text piece by piece

An emitted text is read with the names in it left open: it is cut into pieces (`Spelled`), each of which the reader
can pass in some modes whatever the piece is (`Grammar.readPiece`).
-/

namespace Covenant.Emit

open Text (IsWord Over isIdentifierChar isInline)
open List

/-- What can stand in front of the name of a member: no line break, parameter list, value or type annotation. -/
def isPlain (c : Char) : Bool := c != '\n' && c != '(' && c != '=' && c != ':'

/-- Whole lines that introduce nothing. -/
abbrev Grammar.Silent (g : Grammar) (s : String) : Prop := g.read .start s.toList = (.start, [])

inductive Piece where
  | text (chars : List Char)
  | word (s : String)
  /-- A type in front of the name of a member. -/
  | phrase (s : String)
  /-- What may follow the name of a type or function. -/
  | tail (s : String)
  /-- Anything on one line. -/
  | inline (s : String)
  /-- Whole lines that introduce nothing. -/
  | silent (s : String)

namespace Piece

def chars : Piece → List Char
  | text cs => cs
  | word s | phrase s | tail s | inline s | silent s => s.toList

/-- What the reader relies on. -/
def Valid (g : Grammar) : Piece → Prop
  | text _ => True
  | word s => IsWord s
  | phrase s => (∃ c cs, s.toList = c :: cs ∧ isIdentifierChar c = true) ∧ Over isPlain s
  | tail s => (∀ c cs, s.toList = c :: cs → isIdentifierChar c = false) ∧ Over isInline s
  | inline s => Over isInline s
  | silent s => g.Silent s

end Piece

/-- The text consists of the pieces.  They are found by the way it is put together; a literal is a piece by itself. -/
class Spelled (g : Grammar) (s : String) (ps : outParam (List Piece)) : Prop where
  chars : s.toList = ps.flatMap Piece.chars
  valid : ∀ p ∈ ps, p.Valid g

namespace Spelled

variable {g : Grammar} {s : String}

private theorem ofPiece {p : Piece} (hchars : s.toList = p.chars) (hp : p.Valid g) : Spelled g s [p] :=
  ⟨by simp [hchars], by simpa using hp⟩

instance (priority := low) text (s : String) : Spelled g s [.text s.toList] := ofPiece rfl trivial

instance word {s : String} [h : IsWord s] : Spelled g s [.word s] := ofPiece rfl h

theorem phrase (h : (Piece.phrase s).Valid g) : Spelled g s [.phrase s] := ofPiece rfl h

theorem tail (h : (Piece.tail s).Valid g) : Spelled g s [.tail s] := ofPiece rfl h

theorem inline (h : Over isInline s) : Spelled g s [.inline s] := ofPiece rfl h

instance int (n : Int) : Spelled g (toString n) [.inline (toString n)] := inline (Text.over_toString_int n)

theorem silent (h : g.Silent s) : Spelled g s [.silent s] := ofPiece rfl h

instance append {s t : String} {ps qs : List Piece} [hs : Spelled g s ps] [ht : Spelled g t qs] :
    Spelled g (s ++ t) (ps ++ qs) := by
  refine ⟨by rw [String.toList_append, hs.chars, ht.chars, flatMap_append], fun p hp => ?_⟩
  exact (mem_append.1 hp).elim (hs.valid p) (ht.valid p)

end Spelled

namespace Grammar

def lastWord (read : List Char) : List Char → List Char
  | [] => read
  | c :: cs => lastWord (if isIdentifierChar c then read ++ [c] else []) cs

/-- The mode after a piece and the items that the piece finishes, in the modes in which these are certain. -/
def readPiece (g : Grammar) : Mode → Piece → Option (Mode × List Item)
  | m, .text cs => some (g.read m cs)
  | .type read, .word s => some (.type (read ++ s.toList), [])
  | .value read, .word s => some (.value (read ++ s.toList), [])
  | .names read, .word s => some (.names (read ++ s.toList), [])
  | .member read, .word s => some (.member (read ++ s.toList), [])
  | .indent n, .word s => if n = g.memberColumn then some (.member s.toList, []) else none
  | .indent n, .phrase s =>
    if n = g.memberColumn ∧ g.statements = [] then some (.member (lastWord [] s.toList), []) else none
  | .member read, .phrase s => if g.statements = [] then some (.member (lastWord read s.toList), []) else none
  | .rest, .word _ | .rest, .inline _ => some (.rest, [])
  | .start, .silent _ => some (.start, [])
  | _, _ => none

/-- Whether pieces start with a character that cannot be part of a name. -/
def endsName : List Piece → Bool
  | .tail _ :: ps => endsName ps
  | .text (c :: _) :: _ => !isIdentifierChar c
  | _ => false

def inName : Mode → Bool
  | .type _ | .value _ => true
  | _ => false

/-- Reads pieces.  What follows a name ends it, and whether it is there or not makes no difference. -/
def readPieces (g : Grammar) : Mode → List Piece → Option (Mode × List Item)
  | m, [] => some (m, [])
  | m, .tail _ :: ps => if inName m && endsName ps then g.readPieces m ps else none
  | m, p :: ps =>
    match g.readPiece m p with
    | none => none
    | some (m', items) =>
      match g.readPieces m' ps with
      | none => none
      | some (m'', rest) => some (m'', items ++ rest)

variable {g : Grammar}

variable {c : Char} {cs : List Char}

theorem read_rest (h : ∀ c ∈ cs, isInline c = true) : g.read .rest cs = (.rest, []) := by
  induction cs with
  | nil => rfl
  | cons c cs ih =>
    have hc : c ≠ '\n' := by simpa [isInline] using h c (.head _)
    simp [read, step, hc, ih fun d hd => h d (mem_cons_of_mem c hd)]

private theorem read_name {f : List Char → Mode} (hf : ∀ read c, isIdentifierChar c = true →
      g.step (f read) c = (f (read ++ [c]), [])) (h : ∀ c ∈ cs, isIdentifierChar c = true) (read : List Char) :
    g.read (f read) cs = (f (read ++ cs), []) := by
  induction cs generalizing read with
  | nil => simp [Grammar.read]
  | cons c cs ih =>
    simp [Grammar.read, hf read c (h c mem_cons_self), ih fun d hd => h d (mem_cons_of_mem c hd)]

private theorem ne_break (h : isIdentifierChar c = true) : c ≠ '\n' := by
  rintro rfl
  cases h

private theorem ne_blank (h : isIdentifierChar c = true) : c ≠ ' ' := by
  rintro rfl
  cases h

private theorem step_indent (h : isIdentifierChar c = true) :
    g.step (.indent g.memberColumn) c = (.member [c], []) := by
  simp [step, stepMember, ne_break h, ne_blank h, h]

private theorem read_phrase (hg : g.statements = []) (h : ∀ c ∈ cs, isPlain c = true) (read : List Char) :
    g.read (.member read) cs = (.member (lastWord read cs), []) := by
  induction cs generalizing read with
  | nil => rfl
  | cons c cs ih =>
    have hc : c ≠ '\n' ∧ c ≠ '(' ∧ c ≠ '=' ∧ c ≠ ':' := by
      simpa [isPlain, and_assoc] using h c (.head _)
    have ih := ih fun d hd => h d (.tail c hd)
    by_cases hident : isIdentifierChar c = true
    · simp [Grammar.read, step, stepMember, hc.1, hident, ih, lastWord]
    · simp [Grammar.read, step, stepMember, hc, hident, hg, ih, lastWord]

private theorem read_of_readPiece {m m' : Mode} {p : Piece} {items : List Item} (hp : p.Valid g)
    (h : g.readPiece m p = some (m', items)) : g.read m p.chars = (m', items) := by
  unfold readPiece at h
  split at h
  case h_1 => exact Option.some.inj h
  case h_2 | h_3 | h_4 | h_5 =>
    rw [← Option.some.inj h]
    refine read_name (fun read c hc => ?_) hp.chars _
    simp [step, stepMember, ne_break hc, hc]
  case h_6 n s =>
    split at h
    · subst n
      rw [← Option.some.inj h]
      obtain ⟨c, cs, hs⟩ := exists_cons_of_ne_nil hp.ne_nil
      have hover : ∀ d ∈ c :: cs, isIdentifierChar d = true := hs ▸ hp.chars
      have hrest : g.read (.member [c]) cs = (.member ([c] ++ cs), []) := by
        refine read_name (fun read c hc => ?_) (fun d hd => hover d (.tail c hd)) _
        simp [step, stepMember, ne_break hc, hc]
      simp [Piece.chars, hs, Grammar.read, step_indent (hover c mem_cons_self), hrest]
    · cases h
  case h_7 n s =>
    split at h
    · rename_i hn
      rw [← Option.some.inj h]
      obtain ⟨⟨c, cs, hs, hc⟩, hover⟩ := hp
      have hplain : ∀ d ∈ c :: cs, isPlain d = true := hs ▸ hover
      have hrest := read_phrase hn.2 (fun d hd => hplain d (.tail c hd)) [c]
      simp [Piece.chars, hs, hn.1, Grammar.read, step_indent hc, hrest, lastWord, hc]
    · cases h
  case h_8 =>
    split at h
    · rename_i hg
      rw [← Option.some.inj h]
      exact read_phrase hg hp.2 _
    · cases h
  case h_9 =>
    rw [← Option.some.inj h]
    exact read_rest hp.inline
  case h_10 =>
    rw [← Option.some.inj h]
    exact read_rest hp
  case h_11 =>
    rw [← Option.some.inj h]
    exact hp
  case h_12 => cases h

private theorem step_inName {m : Mode} (hm : inName m = true) (hc : isIdentifierChar c = false) :
    g.step m c = ((g.step .rest c).1, m.pending) ∧ (g.step .rest c).2 = [] := by
  cases m <;> simp_all [inName, step, Mode.pending] <;> split <;> simp_all

private theorem exists_of_endsName {ps : List Piece} (h : endsName ps = true) (hps : ∀ p ∈ ps, p.Valid g) :
    ∃ c cs, ps.flatMap Piece.chars = c :: cs ∧ isIdentifierChar c = false := by
  fun_induction endsName ps with
  | case1 s ps ih =>
    obtain ⟨c, cs, hcs, hc⟩ := ih h fun p hp => hps p (.tail _ hp)
    rw [flatMap_cons, hcs]
    rcases hs : s.toList with _ | ⟨d, ds⟩
    · exact ⟨c, cs, by simp [Piece.chars, hs], hc⟩
    · refine ⟨d, ds ++ c :: cs, by simp [Piece.chars, hs], ?_⟩
      exact (hps _ (.head _)).1 d ds hs
  | case2 c cs ps => exact ⟨c, cs ++ ps.flatMap Piece.chars, rfl, by simpa using h⟩
  | case3 => cases h

/-- What follows a name makes no difference to what is read if a character comes after it that ends the name too. -/
private theorem read_tail {m : Mode} (hm : inName m = true) {s : String} (hs : (Piece.tail s).Valid g)
    (hc : isIdentifierChar c = false) (cs : List Char) : g.read m (s.toList ++ c :: cs) = g.read m (c :: cs) := by
  obtain ⟨hfirst, hover⟩ := hs
  rcases hlist : s.toList with _ | ⟨d, ds⟩
  · rfl
  · have hover : ∀ x ∈ d :: ds, isInline x = true := hlist ▸ hover
    have hd : (g.step .rest d).1 = .rest := by
      have hbreak : d ≠ '\n' := by simpa [isInline] using hover d (.head _)
      simp [step, hbreak]
    have hrest : g.read .rest ds = (.rest, []) := read_rest fun x hx => hover x (.tail d hx)
    obtain ⟨hstepd, _⟩ := step_inName (g := g) hm (hfirst d ds hlist)
    obtain ⟨hstepc, hitems⟩ := step_inName (g := g) hm hc
    simp [read, read_append, hstepd, hstepc, hd, hrest, hitems]

private theorem read_of_readPieces {ps : List Piece} (hps : ∀ p ∈ ps, p.Valid g) {m m' : Mode} {items : List Item}
    (h : g.readPieces m ps = some (m', items)) : g.read m (ps.flatMap Piece.chars) = (m', items) := by
  fun_induction readPieces g m ps generalizing m' items with
  | case1 => exact Option.some.inj h
  | case2 m s ps hname ih =>
    rw [Bool.and_eq_true] at hname
    have hrest : ∀ p ∈ ps, p.Valid g := fun p hp => hps p (.tail _ hp)
    obtain ⟨c, cs, hcs, hc⟩ := exists_of_endsName hname.2 hrest
    have hread := ih hrest h
    rw [flatMap_cons, hcs] at *
    rw [← hread]
    exact read_tail hname.1 (hps _ (.head _)) hc cs
  | case3 => cases h
  | case4 | case5 => cases h
  | case6 m p ps _ m₁ first hfirst m₂ rest hrest ih =>
    obtain ⟨rfl, rfl⟩ := Prod.mk.inj (Option.some.inj h)
    rw [flatMap_cons, read_append, read_of_readPiece (hps p mem_cons_self) hfirst,
      ih (fun q hq => hps q (.tail p hq)) hrest]

end Grammar

variable {g : Grammar}

/-- What the pieces give is what the text gives. -/
theorem Spelled.read {s : String} {ps : List Piece} [h : Spelled g s ps] {m m' : Mode} {items : List Item}
    (hread : g.readPieces m ps = some (m', items)) : g.read m s.toList = (m', items) := by
  rw [h.chars]
  exact Grammar.read_of_readPieces h.valid hread

/-- The outline of a text from its pieces. -/
theorem Spelled.outline_eq {s : String} {ps : List Piece} {items : List Item} [h : Spelled g s ps]
    (hread : (g.readPieces .start ps).map (fun r => r.2 ++ r.1.pending) = some items) : g.outline s = items := by
  obtain ⟨⟨m, found⟩, hfound, rfl⟩ := Option.map_eq_some_iff.1 hread
  rw [Grammar.outline, Spelled.read hfound]

namespace Grammar

variable {items : List Item}

theorem silent_join {α : Type} {f : α → String} {xs : List α} (h : ∀ x ∈ xs, g.Silent (f x)) :
    Spelled g (String.join (xs.map f)) [.silent (String.join (xs.map f))] := by
  refine .silent ?_
  rw [Silent, String.toList_join]
  induction xs with
  | nil => rfl
  | cons x xs ih =>
    rw [map_cons, flatMap_cons, read_append, h x mem_cons_self,
      ih fun y hy => h y (.tail x hy)]
    rfl

theorem read_concat {s t : String} {m m' m'' : Mode} {items rest : List Item} (hs : g.read m s.toList = (m', items))
    (ht : g.read m' t.toList = (m'', rest)) : g.read m (s ++ t).toList = (m'', items ++ rest) := by
  rw [String.toList_append, read_append, hs, ht]

theorem outline_of_read {s : String} {m : Mode} (h : g.read .start s.toList = (m, items)) :
    g.outline s = items ++ m.pending := by rw [outline, h]

theorem outline_lines (lines : List String) : g.outline (Text.join "\n" lines) = lines.flatMap g.outline := by
  induction lines with
  | nil => exact g.outline_empty
  | cons line lines ih =>
    cases lines with
    | nil => simp [Text.join]
    | cons next rest =>
      rw [Text.join, String.intercalate_cons_of_ne_nil (by simp), outline_break, flatMap_cons, ← ih, Text.join]

theorem outline_append {s t : String} (hs : g.read .start s.toList = (.start, items)) :
    g.outline (s ++ t) = items ++ g.outline t := by
  simp [outline, read_append, hs]

theorem outline_lastBreak (s : String) : g.outline (s ++ "\n") = g.outline s := by
  have h := g.outline_break s ""
  rwa [String.append_empty, outline_empty, append_nil] at h

theorem outline_ite {c : Prop} [Decidable c] {texts names : List String} {item : String → Item}
    (h : texts.flatMap g.outline = names.map item) :
    (if c then texts else []).flatMap g.outline = (if c then names else []).map item := by
  split
  · exact h
  · rfl

/-- The outline of a file from those of its three parts. -/
theorem outline_file {header helpers : String} {names : List String} (hheader : g.outline header = [])
    (hhelpers : g.outline helpers = names.map .value) {texts : List String} :
    g.outline (Text.joinBlocks [header, helpers, Text.joinBlocks texts] ++ "\n") =
      names.map .value ++ texts.flatMap g.outline := by
  simp [outline_lastBreak, outline_joinBlocks, hheader, hhelpers]

theorem outline_braces {head body : String} (hhead : g.read .start head.toList = (.start, items)) :
    g.outline (head ++ body ++ "\n\x7d") = items ++ g.outline body := by
  have hclose : "\n\x7d" = "\n" ++ "\x7d" := rfl
  have hbrace : g.outline "\x7d" = [] := Spelled.outline_eq (by simp [readPieces, readPiece, read, step,
    isIdentifierChar, Mode.pending])
  rw [hclose, ← String.append_assoc, outline_break, hbrace, append_nil, outline_append hhead]

end Grammar

-- reading pieces with known characters is a matter of computing
attribute [simp] Grammar.readPieces Grammar.readPiece Grammar.endsName Grammar.inName Grammar.read Grammar.step
  Grammar.stepMember Grammar.afterWord Mode.pending

end Covenant.Emit
