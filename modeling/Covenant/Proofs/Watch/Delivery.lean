import Mathlib.Data.List.Basic
import Covenant.Proofs.Text.Order
import Covenant.Watch.Machine

/-!
# Stopping a watcher, and what becomes of changes

Whoever stops a watcher first calls off the timer that is armed and then ends the events.  Between the two steps the
loop may still handle an event, which arms a timer that nobody calls off; `Watcher.stop_final_iff` says when stopping
is final.

Reports are dropped when the slot is taken, and timers may fire late.  Still every change that was handled is on its
way to a rebuild (`Machine.Owes`, `Machine.change_not_lost`).

`Watcher.Moves` lists what a step does.  Every invariant is shown for one step and carried along a run by `run_inv`.
-/

namespace Covenant.Watch.Watcher

open List

/-- What a step needs and what it does. -/
inductive Moves (w : Watcher) : Step → Watcher → Prop
  | notice {path : String} : w.isLooping = true → w.handling = none → w.halt = .running ∨ w.halt = .timerStopped →
      Moves w (.notice path) { w with handling := some path }
  | schedule {path : String} : w.handling = some path →
      Moves w .schedule { w with
        handling := none, pending := note w.pending path, armed := some w.timers, timers := w.timers + 1 }
  | expire {timer : Nat} : w.armed = some timer →
      Moves w (.expire timer) { w with armed := none, firing := w.firing ++ [timer] }
  | drainNothing {timer : Nat} : timer ∈ w.firing → w.pending = [] →
      Moves w (.drain timer) { w with firing := w.firing.erase timer }
  | drain {timer : Nat} : timer ∈ w.firing → w.pending ≠ [] →
      Moves w (.drain timer) { w with
        firing := w.firing.erase timer, pending := [], reports := w.reports ++ [(timer, Text.sorted w.pending)] }
  | report {timer : Nat} {batch : List String} : w.reports.lookup timer = some batch →
      Moves w (.report timer) { w with reports := w.reports.erase (timer, batch) }
  | stopTimer : w.halt = .running → Moves w .stopTimer { w with armed := none, halt := .timerStopped }
  | close : w.halt = .timerStopped → Moves w .close { w with halt := .closed }
  | leave : w.halt = .closed → w.handling = none → w.isLooping = true → Moves w .leave { w with isLooping := false }
  | return_ : w.halt = .closed → w.isLooping = false → Moves w .return_ { w with halt := .returned }

variable {w w' : Watcher} {s : Step}

private theorem moves_of_step (h : w.step s = some w') : w.Moves s w' := by
  cases s with
  | notice path =>
    simp only [step, Option.ite_none_right_eq_some, Option.some.injEq] at h
    obtain ⟨hcond, rfl⟩ := h
    simp only [Bool.and_eq_true, Option.isNone_iff_eq_none, Bool.or_eq_true, beq_iff_eq] at hcond
    exact .notice hcond.1.1 hcond.1.2 hcond.2
  | schedule =>
    obtain ⟨path, hpath, rfl⟩ := Option.map_eq_some_iff.1 h
    exact .schedule hpath
  | expire timer =>
    simp only [step, Option.ite_none_right_eq_some, Option.some.injEq] at h
    obtain ⟨harmed, rfl⟩ := h
    exact .expire harmed
  | drain timer =>
    simp only [step, Option.ite_none_right_eq_some, Option.some.injEq, contains_iff_mem] at h
    obtain ⟨hfiring, rfl⟩ := h
    split
    · exact .drainNothing hfiring (List.isEmpty_iff.1 ‹_›)
    · exact .drain hfiring fun hp => ‹¬_› (List.isEmpty_iff.2 hp)
  | report timer =>
    obtain ⟨⟨batch, reports⟩, htake, rfl⟩ := Option.map_eq_some_iff.1 h
    obtain ⟨batch', hlookup, heq⟩ := Option.map_eq_some_iff.1 htake
    cases heq
    exact .report hlookup
  | stopTimer =>
    simp only [step, Option.ite_none_right_eq_some, Option.some.injEq] at h
    obtain ⟨hhalt, rfl⟩ := h
    exact .stopTimer hhalt
  | close =>
    simp only [step, Option.ite_none_right_eq_some, Option.some.injEq] at h
    obtain ⟨hhalt, rfl⟩ := h
    exact .close hhalt
  | leave =>
    simp only [step, Option.ite_none_right_eq_some, Option.some.injEq] at h
    obtain ⟨hcond, rfl⟩ := h
    simp only [Bool.and_eq_true, decide_eq_true_eq, Option.isNone_iff_eq_none] at hcond
    exact .leave hcond.1.1 hcond.1.2 hcond.2
  | return_ =>
    simp only [step, Option.ite_none_right_eq_some, Option.some.injEq] at h
    obtain ⟨hcond, rfl⟩ := h
    simp only [Bool.and_eq_true, decide_eq_true_eq, Bool.not_eq_true'] at hcond
    exact .return_ hcond.1 hcond.2

/-- The state after steps one after the other, if all are possible. -/
def run (w : Watcher) : List Step → Option Watcher
  | [] => some w
  | s :: steps => (w.step s).bind fun w => w.run steps

variable {known : List Nat} {steps : List Step} {timer : Nat}

private theorem run_cons : w.run (s :: steps) = some w' ↔ ∃ u, w.step s = some u ∧ u.run steps = some w' := by
  rw [run, Option.bind_eq_some_iff]

/-- What every step keeps is kept by a run. -/
theorem run_inv {P : Watcher → Prop} (hstep : ∀ s ∈ steps, ∀ u u' : Watcher, P u → u.Moves s u' → P u') (hw : P w)
    (h : w.run steps = some w') : P w' := by
  induction steps generalizing w with
  | nil =>
    cases h
    exact hw
  | cons s steps ih =>
    obtain ⟨u, hu, hrun⟩ := run_cons.1 h
    exact ih (fun t ht => hstep t (.tail s ht))
      (hstep s (.head _) w u hw (moves_of_step hu)) hrun

/-- The timers that have begun to fire and have not handed their report over. -/
def begun (w : Watcher) : List Nat := w.firing ++ w.reports.map (·.1)

private theorem begun_of_moves {t : Nat} (h : w.Moves s w') (ht : t ∈ w'.begun) : t ∈ w.begun ∨ w.armed = some t := by
  cases h with
  | expire harmed =>
    simp only [begun, mem_append, mem_singleton] at ht ⊢
    rcases ht with (ht | rfl) | ht
    · exact .inl (.inl ht)
    · exact .inr harmed
    · exact .inl (.inr ht)
  | drainNothing _ _ =>
    simp only [begun, mem_append] at ht ⊢
    exact .inl (ht.imp_left mem_of_mem_erase)
  | drain hfiring _ =>
    simp only [begun, mem_append, map_append, map_cons, map_nil, mem_singleton] at ht ⊢
    rcases ht with ht | ht | rfl
    · exact .inl (.inl (mem_of_mem_erase ht))
    · exact .inl (.inr ht)
    · exact .inl (.inl hfiring)
  | report _ =>
    simp only [begun, mem_append] at ht ⊢
    exact .inl (ht.imp_right fun ht => map_subset _ erase_subset ht)
  | notice _ _ _ => exact .inl ht
  | schedule _ => exact .inl ht
  | stopTimer _ => exact .inl ht
  | close _ => exact .inl ht
  | leave _ _ _ => exact .inl ht
  | return_ _ _ => exact .inl ht

private theorem armed_of_moves {t : Nat} (h : w.Moves s w') (ht : w'.armed = some t) :
    w.armed = some t ∨ s = .schedule ∧ t = w.timers := by
  cases h with
  | schedule _ => exact .inr ⟨rfl, (Option.some.inj ht).symm⟩
  | expire _ => cases ht
  | stopTimer _ => cases ht
  | _ => exact .inl ht

private theorem timers_le_of_moves (h : w.Moves s w') : w.timers ≤ w'.timers := by
  cases h with
  | schedule _ => exact Nat.le_succ _
  | _ => exact Nat.le_refl _

/-- All timers there are have been counted. -/
structure Counted (w : Watcher) : Prop where
  begun : ∀ t ∈ w.begun, t < w.timers
  armed : ∀ t, w.armed = some t → t < w.timers

private theorem Counted.moves (hw : w.Counted) (h : w.Moves s w') : w'.Counted := by
  have hle := timers_le_of_moves h
  constructor
  · intro t ht
    rcases begun_of_moves h ht with ht | ht
    · exact Nat.lt_of_lt_of_le (hw.begun t ht) hle
    · exact Nat.lt_of_lt_of_le (hw.armed t ht) hle
  · intro t ht
    rcases armed_of_moves h ht with ht | ⟨rfl, rfl⟩
    · exact Nat.lt_of_lt_of_le (hw.armed t ht) hle
    · cases h
      exact Nat.lt_succ_self _

private theorem counted_of_run (h : run {} steps = some w) : w.Counted := by
  refine run_inv (fun s _ u u' hu hmoves => hu.moves hmoves) ⟨?_, ?_⟩ h
  · intro t ht
    cases ht
  · intro t ht
    cases ht

/-- After a number of timers, all those that fire are among the given ones or new, and the armed one is new. -/
structure Since (known : List Nat) (n : Nat) (w : Watcher) : Prop where
  begun : ∀ t ∈ w.begun, t ∈ known ∨ n ≤ t
  armed : ∀ t, w.armed = some t → n ≤ t
  timers : n ≤ w.timers

private theorem Since.moves {n : Nat} (hw : Since known n w) (h : w.Moves s w') : Since known n w' := by
  refine ⟨fun t ht => ?_, fun t ht => ?_, Nat.le_trans hw.timers (timers_le_of_moves h)⟩
  · rcases begun_of_moves h ht with ht | ht
    · exact hw.begun t ht
    · exact .inr (hw.armed t ht)
  · rcases armed_of_moves h ht with ht | ⟨_, rfl⟩
    · exact hw.armed t ht
    · exact hw.timers

/-- Once the loop has ended, no event is in its hands and none can come; stopping waits for it. -/
structure Ended (w : Watcher) : Prop where
  handling : w.isLooping = false → w.handling = none
  returned : w.halt = .returned → w.isLooping = false

private theorem Ended.moves (hw : w.Ended) (h : w.Moves s w') : w'.Ended := by
  obtain ⟨hhandling, hreturned⟩ := hw
  cases h with
  | notice hloop _ _ => exact ⟨fun hend => by simp_all, hreturned⟩
  | schedule _ => exact ⟨fun _ => rfl, hreturned⟩
  | stopTimer _ => exact ⟨hhandling, fun h => by cases h⟩
  | close _ => exact ⟨hhandling, fun h => by cases h⟩
  | leave _ hnone _ => exact ⟨fun _ => hnone, fun _ => rfl⟩
  | return_ _ hend => exact ⟨hhandling, fun _ => hend⟩
  | _ => exact ⟨hhandling, hreturned⟩

private theorem ended_of_run (h : run {} steps = some w) : w.Ended := by
  refine run_inv (fun s _ u u' hu hmoves => hu.moves hmoves) ⟨fun _ => rfl, ?_⟩ h
  intro hhalt
  cases hhalt

/-- Whatever is still to be reported will be reported by the given timers. -/
structure Quiet (known : List Nat) (w : Watcher) : Prop where
  reports : ∀ r ∈ w.reports, r.1 ∈ known
  pending : w.pending = [] ∨ w.armed = none ∧ ∀ t ∈ w.firing, t ∈ known

private theorem Quiet.moves (hw : Quiet known w) (hs : s ≠ .schedule) (h : w.Moves s w') : Quiet known w' := by
  obtain ⟨hreports, hpending⟩ := hw
  cases h with
  | schedule _ => exact absurd rfl hs
  | expire harmed =>
    refine ⟨hreports, hpending.imp_right fun hnone => ?_⟩
    rw [harmed] at hnone
    cases hnone.1
  | drainNothing _ hnothing => exact ⟨hreports, .inl hnothing⟩
  | drain hfiring hsome =>
    refine ⟨fun r hr => ?_, .inl rfl⟩
    rcases mem_append.1 hr with hr | hr
    · exact hreports r hr
    · rw [mem_singleton.1 hr]
      exact (hpending.resolve_left hsome).2 _ hfiring
  | report _ => exact ⟨fun r hr => hreports r (mem_of_mem_erase hr), hpending⟩
  | stopTimer _ => exact ⟨hreports, hpending.imp_right fun h => ⟨rfl, h.2⟩⟩
  | _ => exact ⟨hreports, hpending⟩

/-- The timer hands a report over at some time from now on. -/
def Reports (w : Watcher) (timer : Nat) : Prop :=
  ∃ steps w' batch, w.run steps = some w' ∧ w'.handedOver (.report timer) = some batch

private theorem reports_of_mem {r : Nat × List String} (hr : r ∈ w.reports) : w.Reports r.1 := by
  obtain ⟨batch, hbatch⟩ := Option.isSome_iff_exists.1 (lookup_isSome_iff.2 ⟨r, hr, beq_self_eq_true r.1⟩)
  exact ⟨[], w, batch, rfl, hbatch⟩

private theorem Reports.of_step (h : w.step s = some w') (hr : w'.Reports timer) : w.Reports timer := by
  obtain ⟨steps, u, batch, hrun, hbatch⟩ := hr
  exact ⟨s :: steps, u, batch, run_cons.2 ⟨w', h, hrun⟩, hbatch⟩

private theorem reports_of_firing (hpending : w.pending ≠ []) (hfiring : timer ∈ w.firing) : w.Reports timer := by
  have hstep : w.step (.drain timer) = some { w with
      firing := w.firing.erase timer, pending := [], reports := w.reports ++ [(timer, Text.sorted w.pending)] } := by
    simp [step, hfiring, hpending]
  refine .of_step hstep (reports_of_mem (r := (timer, Text.sorted w.pending)) ?_)
  exact mem_append_right _ (.head _)

private theorem reports_of_armed (hpending : w.pending ≠ []) (harmed : w.armed = some timer) : w.Reports timer := by
  have hstep : w.step (.expire timer) = some { w with armed := none, firing := w.firing ++ [timer] } := if_pos harmed
  exact .of_step hstep (reports_of_firing hpending (mem_append_right _ (.head _)))

private theorem Quiet.known_of_reports (hw : Quiet known w) (hloop : w.isLooping = false)
    (hhandling : w.handling = none) (hr : w.Reports timer) : timer ∈ known := by
  obtain ⟨steps, u, batch, hrun, hbatch⟩ := hr
  have hkeeps : ∀ s ∈ steps, ∀ u u' : Watcher, (Quiet known u ∧ u.isLooping = false ∧ u.handling = none) →
      u.Moves s u' → Quiet known u' ∧ u'.isLooping = false ∧ u'.handling = none := by
    rintro s - u u' ⟨hquiet, hloop, hhandling⟩ hmoves
    have hs : s ≠ .schedule := by
      rintro rfl
      cases hmoves with
      | schedule hpath => simp [hhandling] at hpath
    refine ⟨hquiet.moves hs hmoves, ?_⟩
    cases hmoves with
    | notice htrue _ _ => simp [hloop] at htrue
    | leave _ _ _ => exact ⟨rfl, hhandling⟩
    | schedule _ => exact ⟨hloop, rfl⟩
    | _ => exact ⟨hloop, hhandling⟩
  obtain ⟨hquiet, _⟩ := run_inv hkeeps ⟨hw, hloop, hhandling⟩ hrun
  obtain ⟨_, _, hreports, _⟩ := List.lookup_eq_some_iff.1 hbatch
  exact hquiet.reports (timer, batch) (hreports ▸ by simp)

/-- Exactly when nothing but timers that had begun to fire report anything once stopping is over.  They are the only
ones if the loop handles no event after the timer was called off. -/
theorem stop_final_iff {before after : List Step} {u w : Watcher} (hbefore : run {} before = some u)
    (hstop : u.run (.stopTimer :: after) = some w) (hreturned : w.halt = .returned) :
    ((∀ timer, w.Reports timer → timer ∈ u.begun) ↔ Quiet u.begun w) ∧
      (.schedule ∉ after → Quiet u.begun w) := by
  have hended : w.Ended := run_inv (fun s _ v v' hv hmoves => hv.moves hmoves) (ended_of_run hbefore) hstop
  have hcounted := counted_of_run hbefore
  obtain ⟨v, hv, hafter⟩ := run_cons.1 hstop
  obtain ⟨hhalt⟩ := moves_of_step hv
  have hsince : Since u.begun u.timers w := by
    refine run_inv (fun s _ v v' hv hmoves => hv.moves hmoves) ?_ hafter
    refine ⟨fun t ht => .inl ht, fun t ht => ?_, Nat.le_refl _⟩
    cases ht
  refine ⟨⟨fun hfinal => ⟨fun r hr => hfinal r.1 (reports_of_mem hr), ?_⟩, fun hquiet timer hr => ?_⟩,
    fun hnone => ?_⟩
  · refine or_iff_not_imp_left.2 fun hpending => ⟨?_, fun t ht => hfinal t (reports_of_firing hpending ht)⟩
    -- a timer that is armed now is newer than all that had begun to fire
    refine Option.eq_none_iff_forall_ne_some.2 fun t ht => ?_
    have hold := hcounted.begun t (hfinal t (reports_of_armed hpending ht))
    exact Nat.lt_irrefl t (Nat.lt_of_lt_of_le hold (hsince.armed t ht))
  · have hloop := hended.returned hreturned
    exact hquiet.known_of_reports hloop (hended.handling hloop) hr
  · have hquiet : Quiet u.begun { u with armed := none, halt := .timerStopped } := by
      refine ⟨fun r hr => ?_, .inr ⟨rfl, fun t ht => mem_append_left _ ht⟩⟩
      exact mem_append_right _ (mem_map_of_mem hr)
    exact run_inv (fun s hs v v' hv hmoves => hv.moves (fun h => hnone (h ▸ hs)) hmoves) hquiet hafter

/-- A run in which a timer fires, is overtaken by stopping and reports in the end, as it may. -/
theorem stop_final_iff_late :
    ∃ u w, run {} [.notice "a", .schedule, .expire 0] = some u ∧
      u.run [.stopTimer, .close, .leave, .return_] = some w ∧ w.halt = .returned ∧ u.begun = [0] ∧
      w.Reports 0 ∧ ∀ timer, w.Reports timer → timer ∈ u.begun := by
  refine ⟨_, _, rfl, rfl, rfl, rfl, reports_of_firing (by decide) (by decide), ?_⟩
  have hbefore :
      run {} [.notice "a", .schedule, .expire 0] = some { pending := ["a"], timers := 1, firing := [0] } := rfl
  obtain ⟨hiff, hquiet⟩ := stop_final_iff hbefore (show run _ [.stopTimer, .close, .leave, .return_] = _ from rfl) rfl
  exact hiff.2 (hquiet (by decide))

/-- The loop takes an event after the timer was called off.  Stopping is over, no timer has ever begun to fire, and
the change is reported all the same. -/
theorem stop_not_final :
    ∃ w w', run {} [.stopTimer, .notice "a", .schedule, .close, .leave, .return_] = some w ∧ w.halt = .returned ∧
      begun {} = [] ∧ w.begun = [] ∧ w.run [.expire 0, .drain 0] = some w' ∧
        w'.handedOver (.report 0) = some ["a"] := by
  exact ⟨_, _, rfl, rfl, rfl, rfl, rfl, by decide⟩

end Covenant.Watch.Watcher

namespace Covenant.Watch

open List

namespace Watcher

variable {w w' : Watcher} {s : Step}

/-- A timer is set: it waits, or it has begun to fire and has not yet taken what is pending. -/
def HasTimer (w : Watcher) : Prop := w.armed.isSome = true ∨ w.firing ≠ []

/-- A change of the file is pending, and a timer is set that will take it. -/
def Holds (path : String) (w : Watcher) : Prop := path ∈ w.pending ∧ w.HasTimer

/-- A report with the file is on its way. -/
def Delivers (path : String) (w : Watcher) : Prop := ∃ r ∈ w.reports, path ∈ r.2

private theorem mem_note {pending : List String} {path other : String} :
    other ∈ note pending path ↔ other = path ∨ other ∈ pending := by
  unfold note
  split
  · rename_i hmem
    refine ⟨.inr, fun h => h.elim (fun heq => ?_) id⟩
    exact heq ▸ contains_iff_mem.1 hmem
  · rw [mem_append, mem_singleton, or_comm]

private theorem Holds.moves {path : String} (hs : s ≠ .stopTimer) (hw : Holds path w) (h : w.Moves s w') :
    Holds path w' ∨ Delivers path w' := by
  obtain ⟨hpending, htimer⟩ := hw
  cases h with
  | schedule _ => exact .inl ⟨mem_note.2 (.inr hpending), .inl rfl⟩
  | expire _ => exact .inl ⟨hpending, .inr (by simp)⟩
  | drainNothing _ hnothing => simp [hnothing] at hpending
  | drain _ _ => exact .inr ⟨_, mem_append_right _ (.head _), Text.mem_sortBy.2 hpending⟩
  | stopTimer _ => exact absurd rfl hs
  | _ => exact .inl ⟨hpending, htimer⟩

private theorem Delivers.moves {path : String} (hw : Delivers path w) (h : w.Moves s w') :
    Delivers path w' ∨ (w.handedOver s).isSome = true := by
  obtain ⟨r, hr, hpath⟩ := hw
  cases h with
  | drain _ _ => exact .inl ⟨r, mem_append_left _ hr, hpath⟩
  | report hlookup => exact .inr (by simp [handedOver, hlookup])
  | _ => exact .inl ⟨r, hr, hpath⟩

end Watcher

namespace Machine

variable {m m' : Machine} {s : Step} {path : String}

/-- A change of the file is on its way to a rebuild that has not started yet. -/
inductive Owes (path : String) (m : Machine) : Prop
  | pending : m.watcher.Holds path → Owes path m
  | report : m.watcher.Delivers path → Owes path m
  | slot : m.slot.isSome = true → Owes path m
  | waiting : m.phase = .waiting → Owes path m

private theorem Owes.step (hm : m.Owes path) (hbuild : s ≠ .build) (hstop : s ≠ .watcher .stopTimer)
    (hcancel : s ≠ .cancel) (h : m.step s = some m') : m'.Owes path := by
  cases s with
  | watcher s =>
    obtain ⟨w, hw, rfl⟩ := Option.map_eq_some_iff.1 h
    have hmoves := Watcher.moves_of_step hw
    cases hm with
    | pending hholds =>
      rcases hholds.moves (fun hs => hstop (hs ▸ rfl)) hmoves with hholds | hdelivers
      · exact .pending hholds
      · exact .report hdelivers
    | report hdelivers =>
      rcases hdelivers.moves hmoves with hdelivers | hover
      · exact .report hdelivers
      · -- the report is put into the slot, or finds it taken
        exact .slot (by simp [hover])
    | slot hslot => exact .slot (by simp [hslot])
    | waiting hphase => exact .waiting hphase
  | receive =>
    simp only [Machine.step, Option.ite_none_right_eq_some, Option.some.injEq] at h
    obtain ⟨_, rfl⟩ := h
    exact .waiting rfl
  | finish =>
    simp only [Machine.step, Option.ite_none_right_eq_some, Option.some.injEq] at h
    obtain ⟨hphase, rfl⟩ := h
    cases hm with
    | pending hholds => exact .pending hholds
    | report hdelivers => exact .report hdelivers
    | slot hslot => exact .slot hslot
    | waiting hwaiting => simp [hwaiting] at hphase
  | build => exact absurd rfl hbuild
  | cancel => exact absurd rfl hcancel

private theorem Owes.run {steps : List Step} (hm : m.Owes path) (hbuild : .build ∉ steps)
    (hstop : .watcher .stopTimer ∉ steps) (hcancel : .cancel ∉ steps) (h : m.run steps = some m') : m'.Owes path := by
  induction steps generalizing m with
  | nil =>
    cases h
    exact hm
  | cons s steps ih =>
    obtain ⟨u, hu, hrun⟩ := Option.bind_eq_some_iff.1 h
    rw [mem_cons, not_or] at hbuild hstop hcancel
    exact ih (hm.step (Ne.symm hbuild.1) (Ne.symm hstop.1) (Ne.symm hcancel.1) hu) hbuild.2 hstop.2 hcancel.2 hrun

private theorem owes_of_schedule (hpath : m.watcher.handling = some path)
    (h : m.step (.watcher .schedule) = some m') :
    m'.Owes path := by
  obtain ⟨w, hw, rfl⟩ := Option.map_eq_some_iff.1 h
  cases Watcher.moves_of_step hw with
  | schedule hhandling =>
    obtain rfl : _ = path := Option.some.inj (hhandling.symm.trans hpath)
    exact .pending ⟨Watcher.mem_note.2 (.inl rfl), .inl rfl⟩

/-- A change that was handled, whatever came before, has led to a rebuild since or is still on its way to one, as long
as nobody stops the watcher or ends the loop. -/
theorem change_not_lost {path : String} {m m' : Machine} {steps : List Step} (hpath : m.watcher.handling = some path)
    (hrun : m.run (.watcher .schedule :: steps) = some m') (hstop : .watcher .stopTimer ∉ steps)
    (hcancel : .cancel ∉ steps) :
    .build ∈ steps ∨ (path ∈ m'.watcher.pending ∧ m'.watcher.HasTimer) ∨ (∃ r ∈ m'.watcher.reports, path ∈ r.2) ∨
      m'.slot.isSome = true ∨ m'.phase = .waiting := by
  obtain ⟨u, hu, hrun⟩ := Option.bind_eq_some_iff.1 hrun
  refine or_iff_not_imp_left.2 fun hbuild => ?_
  cases (owes_of_schedule hpath hu).run hbuild hstop hcancel hrun with
  | pending hholds => exact .inl hholds
  | report hdelivers => exact .inr (.inl hdelivers)
  | slot hslot => exact .inr (.inr (.inl hslot))
  | waiting hphase => exact .inr (.inr (.inr hphase))

/-- After the first of two changes of `b`, a late timer takes both at once, and its report finds the slot taken. -/
def overtaken : List Step :=
  [.watcher (.expire 1), .watcher (.notice "b"), .watcher .schedule, .watcher (.drain 1), .watcher (.report 1)]

/-- The report of `b` is dropped, and the rebuild for the earlier one is still to come. -/
theorem change_not_lost_overtaken :
    ∃ m m', run {} [.watcher (.notice "a"), .watcher .schedule, .watcher (.expire 0), .watcher (.drain 0),
        .watcher (.report 0), .watcher (.notice "b")] = some m ∧
      m.run (.watcher .schedule :: overtaken) = some m' ∧ m'.slot = some ["a"] ∧ m'.watcher.pending = [] ∧
      m'.watcher.reports = [] ∧ m'.phase ≠ .waiting ∧
      (.build ∈ overtaken ∨ ("b" ∈ m'.watcher.pending ∧ m'.watcher.HasTimer) ∨
        (∃ r ∈ m'.watcher.reports, "b" ∈ r.2) ∨ m'.slot.isSome = true ∨ m'.phase = .waiting) := by
  let m : Machine := { watcher := { handling := some "b", timers := 1 }, slot := some ["a"] }
  let m' : Machine := { watcher := { armed := some 2, timers := 3 }, slot := some ["a"] }
  have hrun : m.run (.watcher .schedule :: overtaken) = some m' := by decide
  exact ⟨m, m', by decide, hrun, rfl, rfl, rfl, by decide, change_not_lost rfl hrun (by decide) (by decide)⟩

end Machine

end Covenant.Watch
