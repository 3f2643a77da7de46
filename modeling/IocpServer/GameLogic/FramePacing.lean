import IocpServer.Lib.Clock
import Mathlib.Data.List.Basic

/-!
# Frame pacing

`StartLogicThread` reads the clock once before its main loop and once for every test of the frame
loop.  Between two readings it either processes a frame, or ends a pass of the main loop
(`FlushFrame`) and begins the next (new players, `ProcessPackets`).  `timer` and the readings are
`unsigned int`s; real times are milliseconds without a bound.

* `LogicThread.step` — from one reading to the next.
* `Tracks` — the accumulator shows the start plus 40 ms for every frame.
* `Reading.Paced` — no more frames than 40 ms steps have passed, and a pass ends after seven
  frames or with less than 40 ms left.
* `paced_iff` — one reading keeps the pace exactly if it is `SameRound`.
* `pacing_iff` — so does every run.
-/

set_option autoImplicit false

namespace IocpServer.GameLogic

open Lib

/-- `timeGetTime()` at the real time `now`. -/
def timeGetTime (now : Nat) : UInt32 := shown now

def MAX_FRAME_COUNT : Nat := 7

/-- What `StartLogicThread` keeps between two readings: the accumulator, the frames of this pass
and the calls of `UpdateGameWorld` so far. -/
structure LogicThread where
  timer : UInt32
  processed : Nat
  LogicLoopCount : Nat

namespace LogicThread

/-- In front of the main loop. -/
def start (now : Nat) : LogicThread := ⟨timeGetTime now, 0, 0⟩

/-- The condition of the frame loop. -/
def frameDue (s : LogicThread) (now : Nat) : Bool :=
  decide (s.timer + 40 ≤ timeGetTime now) && decide (s.processed < MAX_FRAME_COUNT)

/-- A frame, or the end of the pass. -/
def step (s : LogicThread) (now : Nat) : LogicThread :=
  if s.frameDue now then ⟨s.timer + 40, s.processed + 1, s.LogicLoopCount + 1⟩
  else { s with processed := 0 }

end LogicThread

/-- One reading of the clock in a run. -/
structure Reading where
  before : LogicThread
  now : Nat

def Reading.after (o : Reading) : LogicThread := o.before.step o.now

/-- The readings of a run at the given times. -/
def readings (s : LogicThread) : List Nat → List Reading
  | [] => []
  | now :: nows => ⟨s, now⟩ :: readings (s.step now) nows

/-- The real time `timer` stands for, in a run that began at `began`. -/
def LogicThread.due (began : Nat) (s : LogicThread) : Nat := began + 40 * s.LogicLoopCount

/-- The frames so far fit into the time since `began`, and a pass ends after seven frames or
less than 40 ms behind `timer`. -/
def Reading.Paced (began : Nat) (o : Reading) : Prop :=
  o.after.LogicLoopCount ≤ (o.now - began) / 40 ∧
    (o.before.frameDue o.now = false →
      o.before.processed = MAX_FRAME_COUNT ∨ o.now < o.before.due began + 40)

/-- The pass has its seven frames, or the next frame's time lies in the same round of the clock
as the reading, or in an earlier one and shows no more than the reading. -/
def Reading.SameRound (began : Nat) (o : Reading) : Prop :=
  let next := o.before.due began + 40
  o.before.processed = MAX_FRAME_COUNT ∨
    next / 4294967296 = o.now / 4294967296 ∨
    (next / 4294967296 < o.now / 4294967296 ∧ next % 4294967296 ≤ o.now % 4294967296)

/-! ## What the accumulator shows -/

/-- `timer` shows the start plus 40 ms a frame, and a pass has at most seven frames. -/
structure Tracks (began : Nat) (s : LogicThread) : Prop where
  timer_eq : s.timer = timeGetTime (s.due began)
  processed_le : s.processed ≤ MAX_FRAME_COUNT

variable {began now last : Nat} {s : LogicThread}

theorem Tracks.start (began : Nat) : Tracks began (.start began) := ⟨rfl, Nat.zero_le _⟩

theorem Tracks.next_eq (h : Tracks began s) :
    s.timer + 40 = timeGetTime (s.due began + 40) := by
  rw [h.timer_eq]
  exact wordAdd _ 40

/-- The two ways on from a reading. -/
theorem step_cases (s : LogicThread) (now : Nat) :
    (s.frameDue now = true ∧ s.processed < MAX_FRAME_COUNT ∧
      s.step now = ⟨s.timer + 40, s.processed + 1, s.LogicLoopCount + 1⟩) ∨
    (s.frameDue now = false ∧ s.step now = { s with processed := 0 }) := by
  unfold LogicThread.step
  cases hd : s.frameDue now with
  | true =>
    have room : s.processed < MAX_FRAME_COUNT := by
      simp only [LogicThread.frameDue, Bool.and_eq_true, decide_eq_true_eq] at hd
      exact hd.2
    exact .inl ⟨rfl, room, rfl⟩
  | false => exact .inr ⟨rfl, rfl⟩

theorem Tracks.step (h : Tracks began s) (now : Nat) : Tracks began (s.step now) := by
  obtain ⟨-, room, hstep⟩ | ⟨-, hstep⟩ := step_cases s now
  · rw [hstep]
    refine ⟨h.next_eq.trans ?_, room⟩
    simp only [LogicThread.due, Nat.mul_add, Nat.add_assoc]
  · rw [hstep]
    exact ⟨h.timer_eq, Nat.zero_le _⟩

theorem Tracks.frameDue_iff (h : Tracks began s) (now : Nat) :
    s.frameDue now = true ↔
      shown (s.due began + 40) ≤ shown now ∧ s.processed < MAX_FRAME_COUNT := by
  unfold LogicThread.frameDue
  rw [Bool.and_eq_true, decide_eq_true_eq, decide_eq_true_eq, h.next_eq]
  rfl

/-! ## One reading -/

/-- A reading keeps the pace exactly if the test answers as the real times would. -/
theorem paced_iff_answers (h : Tracks began s) (hdue : s.due began ≤ now) :
    Reading.Paced began ⟨s, now⟩ ↔
      s.processed = MAX_FRAME_COUNT ∨
        (shown (s.due began + 40) ≤ shown now ↔ s.due began + 40 ≤ now) := by
  have iff := h.frameDue_iff now
  have bound := h.processed_le
  unfold Reading.Paced Reading.after
  obtain ⟨due, room, hstep⟩ | ⟨due, hstep⟩ := step_cases s now
  · have answer := (iff.mp due).1
    simp only [hstep, due, Bool.true_eq_false, false_implies, and_true]
    unfold LogicThread.due at hdue answer ⊢
    constructor
    · intro fits
      exact .inr ⟨fun _ => by omega, fun _ => answer⟩
    · rintro (full | right)
      · omega
      · have reached := right.mp answer
        omega
  · have fits : s.LogicLoopCount ≤ (now - began) / 40 := by
      unfold LogicThread.due at hdue
      omega
    simp only [hstep, due, fits, true_and, forall_const]
    refine or_congr_right' fun hp => ?_
    have answer : ¬ shown (s.due began + 40) ≤ shown now := fun hle => by
      rw [iff.mpr ⟨hle, by omega⟩] at due
      cases due
    simp [answer]

/-- **One reading keeps the pace exactly if it is `SameRound`.** -/
theorem paced_iff (h : Tracks began s) (hdue : s.due began ≤ now) :
    Reading.Paced began ⟨s, now⟩ ↔ Reading.SameRound began ⟨s, now⟩ := by
  rw [paced_iff_answers h hdue, wordLe_right_iff (by omega)]
  rfl

/-- A reading that keeps the pace leaves `timer` behind the clock. -/
theorem due_step_le (h : s.due began ≤ now) (hp : Reading.Paced began ⟨s, now⟩) :
    (s.step now).due began ≤ now := by
  have fits : (s.step now).LogicLoopCount ≤ (now - began) / 40 := hp.1
  unfold LogicThread.due at h ⊢
  omega

/-! ## Runs -/

theorem readings_tracks {nows : List Nat} (h : Tracks began s) :
    ∀ o ∈ readings s nows, Tracks began o.before := by
  induction nows generalizing s with
  | nil => simp [readings]
  | cons now nows ih =>
    intro o ho
    rcases List.mem_cons.mp ho with rfl | ho
    · exact h
    · exact ih (h.step now) o ho

/-- **At most seven frames run between two calls of `FlushFrame`.** -/
theorem processed_le (began : Nat) (nows : List Nat) :
    ∀ o ∈ readings (.start began) nows, o.before.processed ≤ MAX_FRAME_COUNT :=
  fun o ho => (readings_tracks (.start began) o ho).processed_le

theorem readings_paced_iff {nows : List Nat} (h : Tracks began s) (hdue : s.due began ≤ last)
    (hmono : (last :: nows).Pairwise (· ≤ ·)) :
    (∀ o ∈ readings s nows, o.Paced began) ↔ ∀ o ∈ readings s nows, o.SameRound began := by
  induction nows generalizing s last with
  | nil => simp [readings]
  | cons now nows ih =>
    obtain ⟨hlast, hrest⟩ := List.pairwise_cons.mp hmono
    have hnow : s.due began ≤ now := Nat.le_trans hdue (hlast now (by simp))
    simp only [readings, List.forall_mem_cons]
    rw [← paced_iff h hnow]
    exact and_congr_right fun hp => ih (h.step now) (due_step_le hnow hp) hrest

/-- **Frame pacing.**  In a run that began at `began` with the clock read at the times `nows`,
every reading keeps the pace exactly if every one is `SameRound`. -/
theorem pacing_iff (nows : List Nat) (h : (began :: nows).Pairwise (· ≤ ·)) :
    (∀ o ∈ readings (.start began) nows, o.Paced began) ↔
      ∀ o ∈ readings (.start began) nows, o.SameRound began :=
  readings_paced_iff (.start began) (Nat.le_refl _) h

/-- Three readings 45 ms after the start: one frame, one end of a pass after 5 ms. -/
theorem pacing_iff_small :
    [0, 45, 45, 50].Pairwise (· ≤ ·) ∧ ∀ o ∈ readings (.start 0) [45, 45, 50], o.Paced 0 := by
  refine ⟨by simp, (pacing_iff [45, 45, 50] (by simp)).mpr ?_⟩
  have run : readings (.start 0) [45, 45, 50] =
      [⟨⟨0, 0, 0⟩, 45⟩, ⟨⟨40, 1, 1⟩, 45⟩, ⟨⟨40, 0, 1⟩, 50⟩] := by rfl
  simp [run, Reading.SameRound, LogicThread.due]

/-- Twenty milliseconds before the clock wraps, `timer + 40` wraps and is below every reading: a
frame is processed with no time passed. -/
theorem frame_without_time :
    ¬ ∀ o ∈ readings (.start 4294967276) [4294967276], o.Paced 4294967276 := by
  intro h
  have first := (h ⟨.start 4294967276, 4294967276⟩ (by simp [readings])).1
  revert first
  decide

end IocpServer.GameLogic
