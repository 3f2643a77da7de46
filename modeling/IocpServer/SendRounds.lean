import IocpServer.QueueRounds
import IocpServer.Startup

/-!
# How long a send request waits

`SendThread` takes a request, looks at its session and drops the request (the session is gone),
sends zero bytes (nothing waits), calls `SendPost`, or puts the request back because nothing is due:
`maxWaitSendTime` has not passed since `sendQueuingTime`, and the packets and bytes waiting are below
their bounds.  It takes at most 1000 requests in a round.

Whatever the session looks like when the thread looks is free, the time and `sendQueuingTime` apart:
the times are shown by a clock that jumps from the largest `int` to the smallest.

* `turn` — what a look leads to; `flushNeeded` is its last comparison.
* `Waits` — the invariant of a run that waits for a request.
* `run_due_in_rounds` — **a request that is due, with `n` others before it, is not put back, and has
  been looked at before `n / 1000 + 1` rounds are over.**
-/

set_option autoImplicit false

namespace IocpServer

open Lib MPSCQueue

namespace SendRounds

/-- What the reads of one turn return. -/
structure Seen where
  /-- The id of the session that `sessionMap` holds at the index of the request. -/
  mapped : Option SessionId
  /-- `sendQueue.GetSize() + sendWSAOverlapped.count`, where it is compared with 0. -/
  waiting : Int32
  timer : Int32
  sendQueuingTime : Int32
  sendWaitingSize : Int32
  /-- The sum again, where it is compared with `maxWaitSendCount`. -/
  waitingCount : Int32
  deriving DecidableEq

inductive Outcome where
  | dropped
  | zeroSend
  | sendPost
  | requeue
  deriving DecidableEq

/-- `FlushNeeded`; `SendThread` makes the same comparison. -/
def flushNeeded (setData : LanServer.Setting) (seen : Seen) : Bool :=
  seen.timer ≥ seen.sendQueuingTime + setData.maxWaitSendTime ∨
    seen.sendWaitingSize ≥ setData.maxWaitSendSize ∨
    seen.waitingCount ≥ setData.maxWaitSendCount

/-- What `SendThread` does with the request `sessionId`. -/
def turn (setData : LanServer.Setting) (sessionId : SessionId) (seen : Seen) : Outcome :=
  match seen.mapped with
  | none => .dropped
  | some id =>
    if id ≠ sessionId then .dropped
    else if seen.waiting = 0 then .zeroSend
    else if flushNeeded setData seen then .sendPost
    else .requeue

/-- The turns for a `queueSize`. -/
def turns (queueSize : Int32) : Nat := if queueSize > 1000 then 1000 else queueSize.toInt.toNat

theorem turns_eq (queueSize : Int32) : turns queueSize = min 1000 queueSize.toInt.toNat := by
  have big : queueSize > 1000 ↔ 1000 < queueSize.toInt := Int32.lt_iff_toInt_lt
  unfold turns
  split
  · rename_i h
    rw [big] at h
    omega
  · rename_i h
    rw [big] at h
    omega

def worker (setData : LanServer.Setting) : Rounds.Worker SessionId Seen where
  turns := turns
  putsBack := fun sessionId seen => turn setData sessionId seen = .requeue
  turns_le := fun queueSize => turns_eq queueSize ▸ Nat.min_le_right _ _

structure State where
  requests : Rounds.State SessionId Seen
  sendQueuingTime : SessionId → Int32
  /-- The time in milliseconds. -/
  now : Nat

inductive Action where
  /-- Thread `p`, in `sendRequestQueue.Enqueue(sessionId)`, links its node. -/
  | link (p : Nat) (sessionId : SessionId)
  | increment (p : Nat)
  /-- `session->sendQueuingTime = timeGetTime()`, in `SendPacket` or after a completion. -/
  | queuing (sessionId : SessionId)
  | pass (milliseconds : Nat)
  /-- The next step of `SendThread`; what it reads matters where it looks. -/
  | sendThread (mapped : Option SessionId) (waiting sendWaitingSize waitingCount : Int32)

/-- What `SendThread` sees: the clock and the session's `sendQueuingTime`, and the rest as it is. -/
def sees (s : State) (mapped : Option SessionId) (waiting sendWaitingSize waitingCount : Int32) :
    Seen where
  mapped := mapped
  waiting := waiting
  timer := signed s.now
  sendQueuingTime :=
    match s.requests.loop with
    | .look sessionId => s.sendQueuingTime sessionId
    | _ => 0
  sendWaitingSize := sendWaitingSize
  waitingCount := waitingCount

variable (setData : LanServer.Setting)

/-- A step on the queue or of the loop. -/
def onRequests (s : State) (a : Rounds.Action SessionId Seen) : Except Rounds.Fault State :=
  match Rounds.step (worker setData) s.requests a with
  | .error fault => .error fault
  | .ok requests => .ok { s with requests := requests }

def step (s : State) : Action → Except Rounds.Fault State
  | .link p sessionId => onRequests setData s (.link p sessionId)
  | .increment p => onRequests setData s (.increment p)
  | .queuing sessionId =>
    .ok { s with
      sendQueuingTime := Function.update s.sendQueuingTime sessionId (signed s.now) }
  | .pass milliseconds => .ok { s with now := s.now + milliseconds }
  | .sendThread mapped waiting sendWaitingSize waitingCount =>
    onRequests setData s (.worker (sees s mapped waiting sendWaitingSize waitingCount))

def init (producers now : Nat) : State := ⟨Rounds.init producers, fun _ => 0, now⟩

/-! ## The invariant -/

variable {setData} {s t u : State} {sessionId : SessionId} {queued : Nat} {upTo : List SessionId}

/-- A look at the request `sessionId` between `s` and `t`. -/
def Look (sessionId : SessionId) (queued : Nat) (s t : State) (look : SessionId × Seen) : Prop :=
  look.1 = sessionId → look.2.sendQueuingTime = signed queued ∧
    ∃ now, look.2.timer = signed now ∧ s.now ≤ now ∧ now ≤ t.now

/-- While the requests `upTo` that waited in `s` are served, `sendQueuingTime` of one session stays
as it was. -/
structure Waits (sessionId : SessionId) (queued : Nat) (upTo : List SessionId) (s t : State) :
    Prop where
  since : Rounds.Since upTo 1000 s.requests t.requests
  now_le : s.now ≤ t.now
  queuing : t.sendQueuingTime sessionId = signed queued
  looks : ∃ new, t.requests.looks = s.requests.looks ++ new ∧
    ∀ look ∈ new, Look sessionId queued s t look

theorem Look.later {look : SessionId × Seen} (h : Look sessionId queued s t look)
    (later : t.now ≤ u.now) : Look sessionId queued s u look := fun mine => by
  obtain ⟨queuing, now, timer, lower, upper⟩ := h mine
  exact ⟨queuing, now, timer, lower, upper.trans later⟩

theorem Waits.onRequests (w : Waits sessionId queued upTo s t)
    {a : Rounds.Action SessionId Seen}
    (ha : ∀ seen, a = .worker seen → ∃ mapped waiting sendWaitingSize waitingCount,
      seen = sees t mapped waiting sendWaitingSize waitingCount)
    (h : onRequests setData t a = .ok u) : Waits sessionId queued upTo s u := by
  unfold SendRounds.onRequests at h
  split at h
  · cases h
  · rename_i requests hstep
    cases h
    obtain ⟨new, looks, old⟩ := w.looks
    refine ⟨w.since.step (fun queueSize => (turns_eq queueSize).ge) hstep, w.now_le, w.queuing, ?_⟩
    rcases Rounds.looks_or_keeps w.since.inv hstep with ⟨value, seen, hloop, rfl, rfl⟩ | keeps
    · refine ⟨new ++ [(value, seen)], ?_, ?_⟩
      · rw [← List.append_assoc, ← looks]
      · intro look hlook
        rcases List.mem_append.1 hlook with hlook | hlook
        · exact old look hlook
        · rw [List.mem_singleton] at hlook
          subst hlook
          rintro rfl
          obtain ⟨mapped, waiting, size, count, rfl⟩ := ha seen rfl
          refine ⟨?_, t.now, rfl, w.now_le, Nat.le_refl _⟩
          simp only [sees, hloop]
          exact w.queuing
    · exact ⟨new, keeps.looks.trans looks, old⟩

theorem Waits.step (w : Waits sessionId queued upTo s t) {a : Action}
    (ha : a ≠ .queuing sessionId) (h : step setData t a = .ok u) :
    Waits sessionId queued upTo s u := by
  cases a with
  | link p id => exact w.onRequests (fun _ ha => by cases ha) h
  | increment p => exact w.onRequests (fun _ ha => by cases ha) h
  | queuing id =>
    cases h
    refine ⟨w.since, w.now_le, ?_, w.looks⟩
    have other : sessionId ≠ id := fun same => ha (same ▸ rfl)
    exact (Function.update_of_ne other _ _).trans w.queuing
  | pass milliseconds =>
    cases h
    obtain ⟨new, looks, old⟩ := w.looks
    exact ⟨w.since, w.now_le.trans (Nat.le_add_right _ _), w.queuing, new, looks,
      fun look hlook => (old look hlook).later (Nat.le_add_right _ _)⟩
  | sendThread mapped waiting size count =>
    refine w.onRequests (fun seen hseen => ?_) h
    cases hseen
    exact ⟨mapped, waiting, size, count, rfl⟩

/-! ## Runs -/

theorem inv_onRequests (I : Rounds.Inv s.requests) {a : Rounds.Action SessionId Seen}
    (h : onRequests setData s a = .ok t) : Rounds.Inv t.requests := by
  unfold onRequests at h
  split at h
  · cases h
  · rename_i requests hstep
    cases h
    exact (I.step hstep).1

theorem inv_step (I : Rounds.Inv s.requests) {a : Action} (h : step setData s a = .ok t) :
    Rounds.Inv t.requests := by
  cases a with
  | link p id => exact inv_onRequests I h
  | increment p => exact inv_onRequests I h
  | queuing id =>
    cases h
    exact I
  | pass milliseconds =>
    cases h
    exact I
  | sendThread mapped waiting size count => exact inv_onRequests I h

/-- The thread's loop in every state of every run. -/
theorem run_inv {producers now : Nat} {as : List Action}
    (hr : Run (fun s a t => step setData s a = .ok t) anyStep (init producers now) as s) :
    Rounds.Inv s.requests :=
  hr.invariant (I := fun s => Rounds.Inv s.requests) (Rounds.Inv.init producers)
    fun _ _ _ I _ h => inv_step I h

theorem run_waits (I : Rounds.Inv s.requests) (hqueuing : s.sendQueuingTime sessionId = signed queued)
    (hupTo : upTo <+: s.requests.queue.chain) {bs : List Action}
    (hr : Run (fun s a t => step setData s a = .ok t) (fun _ a => a ≠ .queuing sessionId) s bs t) :
    Waits sessionId queued upTo s t :=
  hr.invariant (I := Waits sessionId queued upTo s)
    ⟨.now I hupTo, Nat.le_refl _, hqueuing, [], (List.append_nil _).symm, nofun⟩
    fun _ _ _ w ha h => w.step ha h

/-- A deadline that has passed is seen to have passed, until the clock jumps. -/
theorem due_of_passed {wait now : Nat} (hwait : setData.maxWaitSendTime.toInt = wait)
    (due : queued + wait ≤ now) (noJump : now - queued ≤ untilJump queued) :
    signed now ≥ signed queued + setData.maxWaitSendTime := by
  have bound := setData.maxWaitSendTime.toInt_lt
  have same : setData.maxWaitSendTime = signed wait := by
    rw [← Int32.toInt_inj, toInt_signed, hwait]
    omega
  rw [same, signedAdd, ge_iff_le, Int32.le_iff_toInt_le, toInt_signed, toInt_signed]
  unfold untilJump at noJump
  omega

/-- What becomes of a request that is due. -/
theorem turn_of_due {seen : Seen}
    (due : seen.timer ≥ seen.sendQueuingTime + setData.maxWaitSendTime) :
    turn setData sessionId seen ≠ .requeue ∧
      (seen.mapped = some sessionId → seen.waiting ≠ 0 →
        turn setData sessionId seen = .sendPost) := by
  have flush : flushNeeded setData seen = true := by
    rw [flushNeeded, decide_eq_true_eq]
    exact .inl due
  refine ⟨?_, fun hmapped hwaiting => ?_⟩
  · unfold turn
    split
    · nofun
    · rw [flush]
      split
      · nofun
      · split <;> nofun
  · simp [turn, hmapped, hwaiting, flush]

/-- **In every run, a request for a session whose `sendQueuingTime` is `maxWaitSendTime` ago or more
and is not set again, with `n` others before it, has been looked at before `n / 1000 + 1` rounds are
over, and is not put back; if the session is still there and something waits, `SendPost` is called:
as long as the clock of the times does not jump.** -/
theorem run_due_in_rounds {producers start wait : Nat} {front back : List SessionId}
    {as bs : List Action}
    (before : Run (fun s a t => step setData s a = .ok t) anyStep (init producers start) as s)
    (after : Run (fun s a t => step setData s a = .ok t) (fun _ a => a ≠ .queuing sessionId) s bs t)
    (hchain : s.requests.queue.chain = front ++ sessionId :: back)
    (hqueuing : s.sendQueuingTime sessionId = signed queued)
    (hwait : setData.maxWaitSendTime.toInt = wait) (due : queued + wait ≤ s.now)
    (noJump : t.now - queued ≤ untilJump queued)
    (between : t.requests.loop = .head ∧ t.requests.left = 0)
    (rounds : front.length < 1000 * (t.requests.rounds - s.requests.rounds)) :
    ∃ seen, t.requests.looks[s.requests.taken.length + front.length]? = some (sessionId, seen) ∧
      turn setData sessionId seen ≠ .requeue ∧
      (seen.mapped = some sessionId → seen.waiting ≠ 0 →
        turn setData sessionId seen = .sendPost) := by
  have upTo : front ++ [sessionId] <+: s.requests.queue.chain :=
    ⟨back, by rw [hchain, List.append_assoc, List.singleton_append]⟩
  have w := run_waits (run_inv before) hqueuing upTo after
  obtain ⟨seen, looked, isNew⟩ := w.since.looked between rounds
  obtain ⟨new, looks, old⟩ := w.looks
  obtain ⟨queuing, now, timer, lower, upper⟩ := old _ (isNew new looks) rfl
  refine ⟨seen, looked, turn_of_due ?_⟩
  rw [timer, queuing]
  exact due_of_passed hwait (due.trans lower) (by omega)

/-- A session queued at 5 is looked at at 105; one packet waits there. -/
theorem run_due_in_rounds_second :
    ∃ setData : LanServer.Setting, ∃ s t : State,
      Run (fun s a t => step setData s a = .ok t) anyStep (init 1 0)
        [.link 0 ⟨2, 1⟩, .pass 5, .queuing ⟨3, 1⟩, .increment 0, .link 0 ⟨3, 1⟩, .increment 0,
          .pass 100] s ∧
      Run (fun s a t => step setData s a = .ok t) (fun _ a => a ≠ .queuing ⟨3, 1⟩) s
        [.sendThread none 0 0 0, .sendThread none 0 0 0, .sendThread none 0 0 0,
          .sendThread none 0 0 0, .sendThread none 0 0 0, .sendThread none 0 0 0,
          .sendThread (some ⟨3, 1⟩) 1 20 1] t ∧
      ∃ seen, t.requests.looks[1]? = some (⟨3, 1⟩, seen) ∧
        turn setData ⟨3, 1⟩ seen ≠ .requeue ∧
        (seen.mapped = some ⟨3, 1⟩ → seen.waiting ≠ 0 →
          turn setData ⟨3, 1⟩ seen = .sendPost) := by
  let setData : LanServer.Setting :=
    { LanServer.Setting.new with
      maxWaitSendTime := 70
      maxWaitSendCount := 50
      maxWaitSendSize := 8192 }
  obtain ⟨s, t, before, after, chain, taken, queuing, passed, loop, left, counted, now⟩ : ∃ s t : State,
      Run (fun s a t => step setData s a = .ok t) anyStep (init 1 0)
        [.link 0 ⟨2, 1⟩, .pass 5, .queuing ⟨3, 1⟩, .increment 0, .link 0 ⟨3, 1⟩, .increment 0,
          .pass 100] s ∧
      Run (fun s a t => step setData s a = .ok t) (fun _ a => a ≠ .queuing ⟨3, 1⟩) s
        [.sendThread none 0 0 0, .sendThread none 0 0 0, .sendThread none 0 0 0,
          .sendThread none 0 0 0, .sendThread none 0 0 0, .sendThread none 0 0 0,
          .sendThread (some ⟨3, 1⟩) 1 20 1] t ∧
      s.requests.queue.chain = [⟨2, 1⟩] ++ ⟨3, 1⟩ :: [] ∧ s.requests.taken = [] ∧
      s.sendQueuingTime ⟨3, 1⟩ = signed 5 ∧ s.now = 105 ∧
      t.requests.loop = .head ∧ t.requests.left = 0 ∧
      t.requests.rounds - s.requests.rounds = 1 ∧ t.now = 105 := by
    refine ⟨_, _, .cons rfl trivial <| .cons rfl trivial <| .cons rfl trivial <|
      .cons rfl trivial <| .cons rfl trivial <| .cons rfl trivial <| .cons rfl trivial .nil,
      .cons rfl nofun <| .cons rfl nofun <| .cons rfl nofun <| .cons rfl nofun <|
      .cons rfl nofun <| .cons rfl nofun <| .cons rfl nofun .nil, ?_⟩
    exact ⟨rfl, rfl, rfl, rfl, rfl, rfl, rfl, rfl⟩
  have looked := @run_due_in_rounds setData s t ⟨3, 1⟩ 5 1 0 70 [⟨2, 1⟩] [] _ _ before after chain
    queuing (by decide) (by rw [passed]; decide) (by rw [now]; decide) ⟨loop, left⟩
    (by rw [counted]; decide)
  rw [taken] at looked
  exact ⟨setData, s, t, before, after, looked⟩

end SendRounds

end IocpServer
