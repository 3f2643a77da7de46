import IocpServer.SendWakeup

/-!
# A single sender

No step of `SendPacket`, the send thread or a send completion adds to the rights to send, so there
is never more than one, in any run: whoever is in `SendPost` or behind a completion has the send
context alone.

The right can come back to `sendRequestQueue` with nothing to send: a `SendPacket` enqueues, the
worker that sees the packet asks for it to be sent, and the exchange that follows asks again.  The
send thread answers such a request with a zero-byte send and does not call `SendPost`.

* `Single.step` — **the rights to send never grow.**
* `run_single_sender` — **at most one right to send, the context has one user at a time, and
  `SendPost` is called with something to send only.**
-/

set_option autoImplicit false

namespace IocpServer

open Lib SendPath

namespace SendWakeup

variable {packets : Nat → CPacket} {setData : Setting} {s t : State} {a : Action} {i : Nat}

/-- What `SendThread` compares with 0: the packets in the queue and in the context. -/
def State.waiting (s : State) : Nat :=
  s.session.sendQueue.length + s.session.sendWSAOverlapped.count

/-- The send thread is in `SendPost`. -/
def SendThreadPc.InSendPost : SendThreadPc → Prop
  | .posting | .wsaSend _ => True
  | _ => False

/-- The completion handler is at work on the context. -/
def WorkerPc.InCompletion : WorkerPc → Prop
  | .taken _ | .handled _ => True
  | _ => False

/-! ## What a step can do -/

/-- A sender's step moves one right, or none. -/
theorem senderStep_cases {pc : SenderPc} (h : senderStep s i pc = some t) :
    ∃ session requests pc', t = { s with
        session := session
        sendRequestQueue := requests
        senders := s.senders.set i pc' } ∧
      session = { s.session with canSend := session.canSend } ∧
      (if session.canSend then 1 else 0) + pc'.right + requests =
        (if s.session.canSend then 1 else 0) + pc.right + s.sendRequestQueue := by
  cases pc with
  | idle => cases h
  | enqueued =>
    cases h
    refine ⟨_, _, _, rfl, rfl, ?_⟩
    cases s.session.canSend <;> simp [SenderPc.right]
  | pushing =>
    cases h
    exact ⟨s.session, _, _, rfl, rfl, by simp only [SenderPc.right]; omega⟩

/-- The send thread passes the right on or lets it go; before `SendPost` something waits. -/
theorem sendThreadStep_cases {timeUp posted : Bool}
    (hdescribed : s.session.sendWSAOverlapped.Described packets)
    (h : sendThreadStep packets setData s timeUp posted = some t) :
    ∃ session requests inFlight pc, t = { s with
        session := session
        sendRequestQueue := requests
        inFlight := inFlight
        sendThread := pc } ∧
      session.canSend = s.session.canSend ∧ session.sendWSAOverlapped.Described packets ∧
      requests + pc.right + inFlight.length ≤
        s.sendRequestQueue + s.sendThread.right + s.inFlight.length ∧
      (pc = .posting → t.waiting ≠ 0) := by
  have hflight : ∀ buffers, (if posted then s.inFlight ++ [buffers] else s.inFlight).length ≤
      s.inFlight.length + 1 := by
    intro buffers
    cases posted <;> simp
  unfold sendThreadStep at h
  dsimp only at h
  split at h
  all_goals rename_i hat; rw [hat]
  · split at h
    · cases h
    · cases h
      exact ⟨_, _, _, _, rfl, rfl, hdescribed, by simp only [SendThreadPc.right]; omega,
        fun he => by cases he⟩
  · split at h
    · cases h
      exact ⟨_, _, _, _, rfl, rfl, hdescribed, Nat.le_refl _, fun he => by cases he⟩
    · rename_i hwaiting
      split at h <;> cases h
      · exact ⟨_, _, _, _, rfl, rfl, hdescribed, Nat.le_refl _, fun _ => hwaiting⟩
      · exact ⟨_, _, _, _, rfl, rfl, hdescribed, Nat.le_refl _, fun he => by cases he⟩
  · cases h
    refine ⟨_, _, _, _, rfl, rfl, hdescribed, ?_, fun he => by cases he⟩
    have := hflight []
    simp only [SendThreadPc.right]
    omega
  · split at h
    · cases h
      exact ⟨_, _, _, _, rfl, rfl, hdescribed, by simp only [SendThreadPc.right]; omega,
        fun he => by cases he⟩
    · rename_i session buffers hpost
      have hwaiting : s.session.sendQueue.length + s.session.sendWSAOverlapped.count ≠ 0 := by
        intro hzero
        rw [sendPost, if_pos hzero] at hpost
        cases hpost
      obtain ⟨ctx, n, hspec, -, -, hdescribed', -⟩ := sendPost_spec hdescribed hwaiting
      rw [hspec] at hpost
      cases hpost
      cases h
      exact ⟨_, _, _, _, rfl, rfl, hdescribed', Nat.le_refl _, fun he => by cases he⟩
  · rename_i buffers
    cases h
    refine ⟨_, _, _, _, rfl, rfl, hdescribed, ?_, fun he => by cases he⟩
    have := hflight buffers
    simp only [SendThreadPc.right]
    omega
  · cases h
    exact ⟨_, _, _, _, rfl, rfl, hdescribed, by simp only [SendThreadPc.right]; omega,
      fun he => by cases he⟩

/-- A worker keeps the right, passes it on or lets it go. -/
theorem workerStep_cases {pc : WorkerPc}
    (hdescribed : s.session.sendWSAOverlapped.Described packets)
    (h : workerStep packets s i pc = some t) :
    ∃ session requests pc', t = { s with
        session := session
        sendRequestQueue := requests
        workers := s.workers.set i pc' } ∧
      session.sendWSAOverlapped.Described packets ∧ pc.right = 1 ∧
      (if session.canSend then 1 else 0) + requests + pc'.right ≤
        (if s.session.canSend then 1 else 0) + s.sendRequestQueue + pc.right := by
  cases pc with
  | idle => cases h
  | taken cb =>
    simp only [workerStep] at h
    split at h
    · cases h
      exact ⟨_, _, _, rfl, hdescribed, rfl, by simp only [WorkerPc.right]; omega⟩
    · split at h
      · cases h
        exact ⟨_, _, _, rfl, hdescribed, rfl, Nat.le_refl _⟩
      · cases hdrop : dropTransferred packets s.session cb with
        | mk transfer rest =>
          obtain ⟨session, released⟩ := rest
          obtain ⟨hdescribed', hsame, -⟩ := count_of_transfer_eq hdescribed hdrop
          rw [hdrop] at h
          cases h
          exact ⟨_, _, _, rfl, hdescribed', rfl, by rw [hsame]; exact Nat.le_refl _⟩
  | handled differs =>
    cases h
    refine ⟨s.session, s.sendRequestQueue, _, rfl, hdescribed, rfl, Nat.le_of_eq ?_⟩
    congr 1
    split <;> rfl
  | requeue =>
    cases h
    exact ⟨_, _, _, rfl, hdescribed, rfl, by simp only [WorkerPc.right]; omega⟩
  | store =>
    cases h
    refine ⟨_, _, _, rfl, hdescribed, rfl, ?_⟩
    cases s.session.canSend <;>
      simp only [WorkerPc.right, if_true, Bool.false_eq_true, if_false] <;>
      omega

/-! ## The invariant -/

structure Single (packets : Nat → CPacket) (s : State) : Prop where
  described : s.session.sendWSAOverlapped.Described packets
  right : s.rights ≤ 1
  posting : s.sendThread = .posting → s.waiting ≠ 0

theorem Single.init (n m : Nat) (wsabuf : Nat → WsaBuf) (ptr : Nat → Nat) :
    Single packets (SendWakeup.init n m wsabuf ptr) :=
  have L := @Live.init packets n m wsabuf ptr
  ⟨L.described, Nat.le_of_eq L.right, nofun⟩

/-- A worker with a completion has the right, so the send thread is idle. -/
theorem Single.sendThread_of_worker (S : Single packets s) {pc : WorkerPc}
    (hi : s.workers[i]? = some pc) (hpc : pc.right = 1) : s.sendThread = .idle := by
  have hright := S.right
  have hle := @holds_le_total _ WorkerPc.right _ _ _ hi
  unfold State.rights at hright
  exact SendThreadPc.eq_idle_of_right (by omega)

/-- **The rights to send never grow.** -/
theorem Single.step (S : Single packets s) (h : SendWakeup.step packets setData s a = some t) :
    Single packets t ∧ t.rights ≤ s.rights := by
  suffices hsuff : t.session.sendWSAOverlapped.Described packets ∧ t.rights ≤ s.rights ∧
      (t.sendThread = .posting → t.waiting ≠ 0) from
    ⟨⟨hsuff.1, Nat.le_trans hsuff.2.1 S.right, hsuff.2.2⟩, hsuff.2.1⟩
  cases a with
  | sendPacket i p =>
    simp only [SendWakeup.step] at h
    split at h
    · rename_i hi
      cases h
      have htotal := @total_set _ SenderPc.right _ _ _ SenderPc.enqueued hi
      simp only [SenderPc.right] at htotal
      refine ⟨S.described, ?_, fun _ => ?_⟩
      · unfold State.rights
        dsimp only
        omega
      · simp [State.waiting]
    · cases h
  | sender i =>
    obtain ⟨pc, hi, h⟩ := Option.bind_eq_some_iff.mp h
    obtain ⟨session, requests, pc', rfl, hsession, hrights⟩ := senderStep_cases h
    have htotal := @total_set _ SenderPc.right _ _ _ pc' hi
    rw [hsession]
    refine ⟨S.described, ?_, S.posting⟩
    unfold State.rights
    dsimp only
    omega
  | sendThread timeUp posted =>
    obtain ⟨session, requests, inFlight, pc, rfl, hcan, hdescribed, hrights, hposting⟩ :=
      sendThreadStep_cases S.described h
    refine ⟨hdescribed, ?_, hposting⟩
    unfold State.rights
    dsimp only
    rw [hcan]
    omega
  | completion i cb =>
    simp only [SendWakeup.step] at h
    split at h
    · rename_i posted inFlight hi hflight
      split at h
      · cases h
        have htotal := @total_set _ WorkerPc.right _ _ _ (WorkerPc.taken cb) hi
        simp only [WorkerPc.right] at htotal
        refine ⟨S.described, ?_, S.posting⟩
        unfold State.rights
        rw [hflight, List.length_cons]
        dsimp only
        omega
      · cases h
    · cases h
  | worker i =>
    obtain ⟨pc, hi, h⟩ := Option.bind_eq_some_iff.mp h
    obtain ⟨session, requests, pc', rfl, hdescribed, hpc, hrights⟩ :=
      workerStep_cases S.described h
    have htotal := @total_set _ WorkerPc.right _ _ _ pc' hi
    refine ⟨hdescribed, ?_, fun hposting => ?_⟩
    · unfold State.rights
      dsimp only
      omega
    · have hidle := S.sendThread_of_worker hi hpc
      rw [hidle] at hposting
      cases hposting
  | deleteRequest =>
    cases h
    exact ⟨S.described, Nat.le_refl _, S.posting⟩

/-! ## Runs -/

/-- What the single right to send gives: the context is never used by `SendPost` and a completion
at once, or by two completions; a request with nothing to send gets a zero-byte send, so that
`SendPost` is called with something to send only. -/
structure SoleSender (packets : Nat → CPacket) (setData : Setting) (s : State) : Prop where
  rights_le : s.rights ≤ 1
  sendPost : s.sendThread.InSendPost →
    s.inFlight = [] ∧ ∀ pc, pc ∈ s.workers → ¬ WorkerPc.InCompletion pc
  completion : ∀ (i j : Nat) (pc pc' : WorkerPc), s.workers[i]? = some pc → s.workers[j]? = some pc' →
    WorkerPc.InCompletion pc → WorkerPc.InCompletion pc' → i = j
  zeroSend : s.sendThread = .popped → s.waiting = 0 → ∀ timeUp posted,
    SendWakeup.step packets setData s (.sendThread timeUp posted) =
      some { s with sendThread := .zeroSend }
  posting : s.sendThread = .posting → SendPath.sendPost packets s.session ≠ none

theorem SendThreadPc.right_of_inSendPost {pc : SendThreadPc} (h : pc.InSendPost) :
    pc.right = 1 := by
  cases pc <;> first | rfl | exact h.elim

theorem WorkerPc.right_of_inCompletion {pc : WorkerPc} (h : pc.InCompletion) : pc.right = 1 := by
  cases pc <;> first | rfl | exact h.elim

theorem Single.soleSender (S : Single packets s) : SoleSender packets setData s := by
  have hright := S.right
  unfold State.rights at hright
  refine ⟨S.right, fun hthread => ?_, fun i j pc pc' hi hj hpc hpc' => ?_,
    fun hpopped hwaiting timeUp posted => ?_, fun hposting hnone => ?_⟩
  · have hone := SendThreadPc.right_of_inSendPost hthread
    refine ⟨List.eq_nil_of_length_eq_zero (by omega), fun pc hpc hin => ?_⟩
    have hidle := all_idle_of_total (show total WorkerPc.right s.workers = 0 by omega) pc hpc
    rw [hidle] at hin
    exact hin
  · by_contra hij
    have hle := @holds_add_holds_le_total _ WorkerPc.right _ _ _ _ _ hij hi hj
    rw [WorkerPc.right_of_inCompletion hpc, WorkerPc.right_of_inCompletion hpc'] at hle
    omega
  · simp only [SendWakeup.step, sendThreadStep, hpopped]
    exact if_pos hwaiting
  · have hwaiting := S.posting hposting
    obtain ⟨ctx, n, hspec, -⟩ := sendPost_spec S.described hwaiting
    rw [hspec] at hnone
    cases hnone

/-- **A single sender.**  In every run there is at most one right to send, whatever `WSASend` and
the completions return, and the send context has one user at a time. -/
theorem run_single_sender {as : List Action} {n m : Nat} {wsabuf : Nat → WsaBuf} {ptr : Nat → Nat}
    (hr : Run (fun s a t => step packets setData s a = some t) anyStep (init n m wsabuf ptr) as t) :
    SoleSender packets setData t :=
  Single.soleSender <| Run.invariant hr (Single.init n m wsabuf ptr)
    fun _ _ _ S _ hstep => (S.step hstep).1

/-- A packet handed over and posted: the send thread is in `SendPost`. -/
theorem run_single_sender_one_packet :
    ∃ t, Run (fun s a t => step (fun _ => CPacket.ofBytes [1, 2]) ⟨100, 1000⟩ s a = some t) anyStep
        (init 1 1 (fun _ => ⟨0, 0⟩) fun _ => 0)
        [.sendPacket 0 7, .sender 0, .sender 0, .sendThread true true, .sendThread true true] t ∧
      t.sendThread = .posting ∧ SoleSender (fun _ => CPacket.ofBytes [1, 2]) ⟨100, 1000⟩ t := by
  obtain ⟨t, hrun, hposting⟩ : ∃ t : State,
      Run (fun s a t => step (fun _ => CPacket.ofBytes [1, 2]) ⟨100, 1000⟩ s a = some t) anyStep
        (init 1 1 (fun _ => ⟨0, 0⟩) fun _ => 0)
        [.sendPacket 0 7, .sender 0, .sender 0, .sendThread true true, .sendThread true true] t ∧
      t.sendThread = .posting :=
    ⟨_, .cons rfl trivial <| .cons rfl trivial <| .cons rfl trivial <| .cons rfl trivial <|
      .cons rfl trivial .nil, rfl⟩
  exact ⟨t, hrun, hposting, run_single_sender hrun⟩

/-- The worker sees a packet whose `SendPacket` has not exchanged yet, and the packet is sent and
completed before it does: the request that follows finds nothing to send. -/
theorem request_with_nothing_to_send :
    ¬ ∀ as t, Run (fun s a t => step (fun _ => CPacket.ofBytes [1, 2]) ⟨100, 1000⟩ s a = some t)
        anyStep (init 1 1 (fun _ => ⟨0, 0⟩) fun _ => 0) as t →
      t.rights ≤ 1 ∧ (t.sendThread = .popped → 1 ≤ t.waiting) ∧ t.sendThread ≠ .zeroSend := by
  intro h
  have hwaiting := (h [.sendPacket 0 7, .sender 0, .sender 0, .sendThread true true,
    .sendThread true true, .sendThread true true, .sendThread true true, .completion 0 2,
    .worker 0, .sendPacket 0 8, .worker 0, .worker 0, .sendThread true true, .sendThread true true,
    .sendThread true true, .sendThread true true, .completion 0 2, .worker 0, .worker 0, .worker 0,
    .sender 0, .sender 0, .sendThread true true] _ <|
    .cons rfl trivial <| .cons rfl trivial <| .cons rfl trivial <| .cons rfl trivial <|
    .cons rfl trivial <| .cons rfl trivial <| .cons rfl trivial <| .cons rfl trivial <|
    .cons rfl trivial <| .cons rfl trivial <| .cons rfl trivial <| .cons rfl trivial <|
    .cons rfl trivial <| .cons rfl trivial <| .cons rfl trivial <| .cons rfl trivial <|
    .cons rfl trivial <| .cons rfl trivial <| .cons rfl trivial <| .cons rfl trivial <|
    .cons rfl trivial <| .cons rfl trivial <| .cons rfl trivial .nil).2.1 rfl
  exact absurd hwaiting (by decide)

end SendWakeup

end IocpServer
