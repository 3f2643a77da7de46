import IocpServer.SendPath
import IocpServer.Lib.Threads

/-!
# The send wake-up

The steps of `SendPacket` (enqueue; exchange `canSend` with 0; push a request if it was 1), of
the send thread and of the workers' send completions (check `sendQueue.GetSize()`; then push a
request or set `canSend` to 1), interleaved over one session, with any number of threads in
`SendPacket` and any number of workers.

The check and the store of `canSend` are two steps, and a zero-byte completion stores without a
check.  A `SendPacket` that exchanges in between finds `canSend` at 0 and leaves its packet to
nobody.

* `WakeOk` — the step condition: no exchange with a non-empty queue while a store of `canSend` is
  pending, no failing `WSASend`, no zero-byte completion of a real send.
* `Live` — the invariant: exactly one right to send, and who holds it knows whether packets wait.
* `run_awake` — **in every run whose steps meet the condition, a quiescent session with packets
  waiting has a request queued or a send in flight.**
-/

set_option autoImplicit false

namespace IocpServer

open Lib SendPath

namespace SendWakeup

/-- Where a thread stands in `SendPacket`. -/
inductive SenderPc where
  | idle
  | enqueued
  /-- Behind an exchange that returned 1. -/
  | pushing
  deriving DecidableEq

/-- Where the send thread stands with the session's request. -/
inductive SendThreadPc where
  | idle
  | popped
  | zeroSend
  /-- Before `SendPost`. -/
  | posting
  /-- In `SendPost`, before its `WSASend`. -/
  | wsaSend (buffers : List WsaBuf)
  | requeue
  deriving DecidableEq

/-- Where a worker stands with a send completion of the session. -/
inductive WorkerPc where
  | idle
  | taken (cbTransferred : Nat)
  /-- Behind the loops; `differs` is `transfer != cbTransferred`. -/
  | handled (differs : Bool)
  | requeue
  | store
  deriving DecidableEq

structure State where
  session : Session
  sendRequestQueue : Nat
  inFlight : List (List WsaBuf)
  senders : List SenderPc
  sendThread : SendThreadPc
  workers : List WorkerPc

inductive Action where
  /-- Thread `i` calls `SendPacket` and enqueues. -/
  | sendPacket (i packetBuffer : Nat)
  | sender (i : Nat)
  /-- `timeUp` and `posted` matter where the send thread compares times and calls `WSASend`. -/
  | sendThread (timeUp posted : Bool)
  /-- Worker `i` takes a send completion. -/
  | completion (i cbTransferred : Nat)
  | worker (i : Nat)
  | deleteRequest

variable (packets : Nat → CPacket) (setData : Setting)

def senderStep (s : State) (i : Nat) : SenderPc → Option State
  | .idle => none
  | .enqueued =>
    some { s with
      session := { s.session with canSend := false }
      senders := s.senders.set i (if s.session.canSend then .pushing else .idle) }
  | .pushing =>
    some { s with sendRequestQueue := s.sendRequestQueue + 1, senders := s.senders.set i .idle }

def sendThreadStep (s : State) (timeUp posted : Bool) : Option State :=
  let waiting := s.session.sendQueue.length + s.session.sendWSAOverlapped.count
  match s.sendThread with
  | .idle =>
    if s.sendRequestQueue = 0 then none
    else some { s with sendRequestQueue := s.sendRequestQueue - 1, sendThread := .popped }
  | .popped =>
    if waiting = 0 then some { s with sendThread := .zeroSend }
    else if timeUp ∨ s.session.sendWaitingSize ≥ setData.maxWaitSendSize ∨
        (waiting : Int) ≥ setData.maxWaitSendCount.toInt then some { s with sendThread := .posting }
    else some { s with sendThread := .requeue }
  | .zeroSend =>
    some { s with
      inFlight := if posted then s.inFlight ++ [[]] else s.inFlight
      sendThread := .idle }
  | .posting =>
    match sendPost packets s.session with
    | none => some { s with sendThread := .idle }
    | some (session, buffers) => some { s with session := session, sendThread := .wsaSend buffers }
  | .wsaSend buffers =>
    some { s with
      inFlight := if posted then s.inFlight ++ [buffers] else s.inFlight
      sendThread := .idle }
  | .requeue =>
    some { s with sendRequestQueue := s.sendRequestQueue + 1, sendThread := .idle }

def workerStep (s : State) (i : Nat) : WorkerPc → Option State
  | .idle => none
  | .taken cbTransferred =>
    if s.session.isDeleteRequest then some { s with workers := s.workers.set i .idle }
    else if cbTransferred = 0 then some { s with workers := s.workers.set i .store }
    else
      let (transfer, session, _) := dropTransferred packets s.session cbTransferred
      some { s with
        session := session
        workers := s.workers.set i (.handled (transfer ≠ cbTransferred)) }
  | .handled differs =>
    let pc := if differs ∨ s.session.sendQueue.length > 0 then WorkerPc.requeue else .store
    some { s with workers := s.workers.set i pc }
  | .requeue =>
    some { s with sendRequestQueue := s.sendRequestQueue + 1, workers := s.workers.set i .idle }
  | .store =>
    some { s with
      session := { s.session with canSend := true }
      workers := s.workers.set i .idle }

/-- One atomic step; `none` when it cannot be taken. -/
def step (s : State) : Action → Option State
  | .sendPacket i packetBuffer =>
    match s.senders[i]? with
    | some .idle =>
      some { s with
        session := { s.session with
          sendQueue := s.session.sendQueue ++ [packetBuffer]
          sendWaitingSize :=
            s.session.sendWaitingSize + Int32.ofNat (packets packetBuffer).getUsedSize }
        senders := s.senders.set i .enqueued }
    | _ => none
  | .sender i => s.senders[i]?.bind (senderStep s i)
  | .sendThread timeUp posted => sendThreadStep packets setData s timeUp posted
  | .completion i cbTransferred =>
    match s.workers[i]?, s.inFlight with
    | some .idle, posted :: inFlight =>
      if cbTransferred ≤ (postedBytes packets posted).length then
        some { s with
          inFlight := inFlight
          workers := s.workers.set i (.taken cbTransferred) }
      else none
    | _, _ => none
  | .worker i => s.workers[i]?.bind (workerStep packets s i)
  | .deleteRequest => some { s with session := { s.session with isDeleteRequest := true } }

/-- A session as `OnAccept` leaves it, with `n` threads in `SendPacket` and `m` workers. -/
def init (n m : Nat) (wsabuf : Nat → WsaBuf) (ptr : Nat → Nat) : State where
  session := ⟨true, false, [], 0, ⟨wsabuf, 0, ptr⟩⟩
  sendRequestQueue := 0
  inFlight := []
  senders := List.replicate n .idle
  sendThread := .idle
  workers := List.replicate m .idle

/-! ## The promise and its condition -/

/-- No thread is inside one of the operations. -/
def Quiescent (s : State) : Prop :=
  (∀ pc ∈ s.senders, pc = .idle) ∧ s.sendThread = .idle ∧ ∀ pc ∈ s.workers, pc = .idle

/-- Packets that wait are waited for. -/
def Awake (s : State) : Prop :=
  Quiescent s → s.session.isDeleteRequest = false →
    s.session.sendQueue ≠ [] ∨ s.session.sendWSAOverlapped.count ≠ 0 →
    s.sendRequestQueue ≠ 0 ∨ s.inFlight ≠ []

/-- Some thread is going to set `canSend` without another look at the queue. -/
def StorePending (s : State) : Prop :=
  s.sendThread = .zeroSend ∨ [] ∈ s.inFlight ∨ .taken 0 ∈ s.workers ∨ .store ∈ s.workers

/-- The step condition, while the session is not being deleted. -/
def WakeOk (s : State) (a : Action) : Prop :=
  s.session.isDeleteRequest = false →
    match a with
    | .sender i => s.senders[i]? = some .enqueued → s.session.sendQueue ≠ [] → ¬ StorePending s
    | .sendThread _ posted =>
      s.sendThread = .zeroSend ∨ (∃ buffers, s.sendThread = .wsaSend buffers) → posted = true
    | .completion _ cbTransferred => cbTransferred = 0 → [] ∈ s.inFlight
    | _ => True

/-! ## The invariant -/

def SenderPc.right : SenderPc → Nat
  | .pushing => 1
  | _ => 0

def SendThreadPc.right : SendThreadPc → Nat
  | .idle => 0
  | _ => 1

def WorkerPc.right : WorkerPc → Nat
  | .idle => 0
  | _ => 1

/-- The rights to send. -/
def State.rights (s : State) : Nat :=
  (if s.session.canSend then 1 else 0) + total SenderPc.right s.senders + s.sendRequestQueue +
    s.sendThread.right + s.inFlight.length + total WorkerPc.right s.workers

structure Live (packets : Nat → CPacket) (s : State) : Prop where
  described : s.session.sendWSAOverlapped.Described packets
  right : s.rights = 1
  /-- Where `canSend` is set, or going to be, only a `SendPacket` before its exchange has left
  something. -/
  store : s.session.canSend = true ∨ StorePending s →
    s.session.sendWSAOverlapped.count = 0 ∧ (s.session.sendQueue = [] ∨ .enqueued ∈ s.senders)
  handled : .handled false ∈ s.workers → s.session.sendWSAOverlapped.count = 0
  posting : s.sendThread = .posting →
    s.session.sendQueue ≠ [] ∨ s.session.sendWSAOverlapped.count ≠ 0
  wsaSend : s.sendThread ≠ .wsaSend []

variable {packets : Nat → CPacket} {setData : Setting} {s t : State} {a : Action} {i : Nat}

theorem WorkerPc.eq_idle_of_right {pc : WorkerPc} (h : pc.right = 0) : pc = .idle := by
  cases pc <;> simp_all [WorkerPc.right]

theorem SendThreadPc.eq_idle_of_right {pc : SendThreadPc} (h : pc.right = 0) : pc = .idle := by
  cases pc <;> simp_all [SendThreadPc.right]

theorem all_idle_of_total {workers : List WorkerPc} (h : total WorkerPc.right workers = 0) :
    ∀ pc ∈ workers, pc = .idle := by
  intro pc hpc
  obtain ⟨j, hj⟩ := List.mem_iff_getElem?.mp hpc
  exact WorkerPc.eq_idle_of_right (eq_zero_of_total hj h)

/-- With the right elsewhere, no store is pending. -/
theorem not_storePending (h : s.sendThread.right + s.inFlight.length +
    total WorkerPc.right s.workers = 0) : ¬ StorePending s := by
  have hworkers := all_idle_of_total (show total WorkerPc.right s.workers = 0 by omega)
  have hthread := SendThreadPc.eq_idle_of_right (show s.sendThread.right = 0 by omega)
  have hflight := List.eq_nil_of_length_eq_zero (show s.inFlight.length = 0 by omega)
  rintro (h | h | h | h)
  · rw [hthread] at h; cases h
  · rw [hflight] at h; cases h
  · have := hworkers _ h; cases this
  · have := hworkers _ h; cases this

/-- **A quiescent live session is awake.** -/
theorem Live.awake (L : Live packets s) (hq : Quiescent s)
    (hw : s.session.sendQueue ≠ [] ∨ s.session.sendWSAOverlapped.count ≠ 0) :
    s.sendRequestQueue ≠ 0 ∨ s.inFlight ≠ [] := by
  obtain ⟨hsenders, hthread, hworkers⟩ := hq
  have hright := L.right
  have hs : total SenderPc.right s.senders = 0 :=
    total_eq_zero fun pc hpc => by rw [hsenders pc hpc]; rfl
  have hw' : total WorkerPc.right s.workers = 0 :=
    total_eq_zero fun pc hpc => by rw [hworkers pc hpc]; rfl
  rw [State.rights, hs, hw', hthread] at hright
  by_contra hnone
  rw [not_or, not_not, not_not] at hnone
  rw [hnone.1, hnone.2] at hright
  have hcan : s.session.canSend = true := by
    by_contra hc
    rw [if_neg hc] at hright
    simp [SendThreadPc.right] at hright
  obtain ⟨hcount, hqueue⟩ := L.store (Or.inl hcan)
  rcases hqueue with hempty | henq
  · exact hw.elim (fun h => h hempty) (fun h => h hcount)
  · have := hsenders _ henq
    cases this

/-! ## Steps -/

theorem Live.sendPacket (L : Live packets s) {p : Nat} {waiting : Int32}
    (hi : s.senders[i]? = some .idle) :
    Live packets { s with
      session := { s.session with
        sendQueue := s.session.sendQueue ++ [p]
        sendWaitingSize := waiting }
      senders := s.senders.set i .enqueued } := by
  have hmem : SenderPc.enqueued ∈ s.senders.set i .enqueued :=
    List.mem_of_getElem? (getElem?_set_of_some hi)
  have htotal : total SenderPc.right (s.senders.set i .enqueued) = total SenderPc.right s.senders :=
    total_set_of_eq hi rfl
  refine ⟨L.described, ?_, fun h => ⟨(L.store h).1, Or.inr hmem⟩, L.handled,
    fun _ => Or.inl (by simp), L.wsaSend⟩
  rw [State.rights, htotal]
  exact L.right

/-- A sender that leaves `enqueued` is missed by nobody if the queue is empty. -/
theorem Live.exchange (L : Live packets s) (hi : s.senders[i]? = some .enqueued)
    (hok : s.session.sendQueue ≠ [] → ¬ StorePending s) :
    Live packets { s with
      session := { s.session with canSend := false }
      senders := s.senders.set i (if s.session.canSend then .pushing else .idle) } := by
  have hright := L.right
  unfold State.rights at hright
  have htotal := @total_set _ SenderPc.right _ _ _
    (if s.session.canSend then SenderPc.pushing else .idle) hi
  refine ⟨L.described, ?_, ?_, L.handled, L.posting, L.wsaSend⟩
  · unfold State.rights
    dsimp only
    cases hc : s.session.canSend <;> simp only [hc, SenderPc.right] at * <;> simp at * <;> omega
  · rintro (hcan | hpend)
    · cases hcan
    · have hpend : StorePending s := hpend
      refine ⟨(L.store (Or.inr hpend)).1, Or.inl ?_⟩
      by_contra hne
      exact hok hne hpend

theorem Live.push (L : Live packets s) (hi : s.senders[i]? = some .pushing) :
    Live packets { s with
      sendRequestQueue := s.sendRequestQueue + 1
      senders := s.senders.set i .idle } := by
  have hright := L.right
  unfold State.rights at hright
  have htotal := @total_set _ SenderPc.right _ _ _ SenderPc.idle hi
  have hle := @holds_le_total _ SenderPc.right _ _ _ hi
  simp only [SenderPc.right] at htotal hle
  have hcan : s.session.canSend = false := by
    cases hc : s.session.canSend with
    | false => rfl
    | true => rw [hc] at hright; simp only [if_true] at hright; omega
  refine ⟨L.described, ?_, ?_, L.handled, L.posting, L.wsaSend⟩
  · unfold State.rights
    dsimp only
    omega
  · rintro (h | h)
    · rw [hcan] at h; cases h
    · exact absurd h (not_storePending (by dsimp only; omega))

/-- What excludes the others: a request in the queue, or the send thread at work. -/
theorem Live.of_request (L : Live packets s)
    (h : s.sendRequestQueue ≠ 0 ∨ s.sendThread ≠ .idle) :
    s.session.canSend = false ∧ total SenderPc.right s.senders = 0 ∧
      s.sendRequestQueue + s.sendThread.right = 1 ∧ s.inFlight = [] ∧
      total WorkerPc.right s.workers = 0 := by
  have hright := L.right
  unfold State.rights at hright
  have hone : 0 < s.sendRequestQueue + s.sendThread.right := by
    rcases h with h | h
    · omega
    · have : s.sendThread.right ≠ 0 := fun h0 => h (SendThreadPc.eq_idle_of_right h0)
      omega
  refine ⟨?_, by omega, by omega, List.eq_nil_of_length_eq_zero (by omega), by omega⟩
  cases hc : s.session.canSend with
  | false => rfl
  | true => rw [hc] at hright; simp only [if_true] at hright; omega

theorem not_mem_of_total (h : total WorkerPc.right s.workers = 0) {pc : WorkerPc}
    (hpc : pc ≠ .idle) : pc ∉ s.workers := fun hmem => hpc (all_idle_of_total h pc hmem)

/-- The right moves between the request queue, the send thread and the sends in flight. -/
theorem Live.moveRight (L : Live packets s) (h : s.sendRequestQueue ≠ 0 ∨ s.sendThread ≠ .idle)
    {session : Session} {requests : Nat} {inFlight : List (List WsaBuf)} {pc : SendThreadPc}
    (hdescribed : session.sendWSAOverlapped.Described packets)
    (hcan : session.canSend = s.session.canSend)
    (hright : requests + pc.right + inFlight.length = 1)
    (hstore : pc = .zeroSend ∨ [] ∈ inFlight →
      session.sendWSAOverlapped.count = 0 ∧ (session.sendQueue = [] ∨ .enqueued ∈ s.senders))
    (hposting : pc = .posting → session.sendQueue ≠ [] ∨ session.sendWSAOverlapped.count ≠ 0)
    (hwsaSend : pc ≠ .wsaSend []) :
    Live packets { s with
      session := session, sendRequestQueue := requests, inFlight := inFlight, sendThread := pc } := by
  obtain ⟨hoff, hsenders, -, -, hworkers⟩ := L.of_request h
  refine ⟨hdescribed, ?_, ?_, fun hm => absurd hm (not_mem_of_total hworkers nofun), hposting,
    hwsaSend⟩
  · unfold State.rights
    simp only [hcan, hoff, hsenders, hworkers, Bool.false_eq_true, if_false]
    omega
  · rintro (hc | hz | hf | hm | hm)
    · rw [hcan, hoff] at hc; cases hc
    · exact hstore (Or.inl hz)
    · exact hstore (Or.inr hf)
    · exact absurd hm (not_mem_of_total hworkers nofun)
    · exact absurd hm (not_mem_of_total hworkers nofun)

theorem Live.sendThread (L : Live packets s) {timeUp posted : Bool}
    (hok : s.sendThread = .zeroSend ∨ (∃ buffers, s.sendThread = .wsaSend buffers) → posted = true)
    (h : sendThreadStep packets setData s timeUp posted = some t) : Live packets t := by
  unfold sendThreadStep at h
  split at h
  · -- a request is popped
    rename_i hpc
    split at h
    · cases h
    rename_i hreq
    cases h
    obtain ⟨-, -, hone, hflight, -⟩ := L.of_request (Or.inl hreq)
    rw [hpc] at hone
    refine L.moveRight (Or.inl hreq) L.described rfl ?_ ?_ nofun nofun
    · simp only [hflight, SendThreadPc.right, List.length_nil] at hone ⊢
      omega
    · rintro (h | h)
      · cases h
      · rw [hflight] at h; cases h
  all_goals
    rename_i hpc
    have hbusy : s.sendRequestQueue ≠ 0 ∨ s.sendThread ≠ .idle := Or.inr (by rw [hpc]; nofun)
    obtain ⟨-, -, hone, hflight, -⟩ := L.of_request hbusy
    rw [hpc] at hone
    simp only [SendThreadPc.right, Nat.add_eq_right] at hone
  · -- the check for something to send
    dsimp only at h
    split at h
    · rename_i hempty
      cases h
      refine L.moveRight hbusy L.described rfl (by simp [hone, hflight, SendThreadPc.right])
        (fun _ => ⟨by omega, Or.inl (List.eq_nil_of_length_eq_zero (by omega))⟩) nofun nofun
    · rename_i hwaiting
      split at h <;> cases h
      · refine L.moveRight hbusy L.described rfl (by simp [hone, hflight, SendThreadPc.right])
          (by simp [hflight]) (fun _ => ?_) nofun
        by_contra hnone
        rw [not_or, not_not, not_not] at hnone
        exact hwaiting (by rw [hnone.1, hnone.2]; rfl)
      · exact L.moveRight hbusy L.described rfl (by simp [hone, hflight, SendThreadPc.right])
          (by simp [hflight]) nofun nofun
  · cases h
    rw [hok (Or.inl hpc), if_pos rfl]
    exact L.moveRight hbusy L.described rfl (by simp [hone, hflight, SendThreadPc.right])
      (fun _ => L.store (Or.inr (Or.inl hpc))) nofun nofun
  · have hwaiting : s.session.sendQueue.length + s.session.sendWSAOverlapped.count ≠ 0 := by
      rcases L.posting hpc with hne | hne
      · have := List.length_pos_iff.mpr hne
        omega
      · omega
    obtain ⟨ctx, n, hpost, -, hcount, hdescribed, -⟩ := sendPost_spec L.described hwaiting
    rw [hpost] at h
    cases h
    refine L.moveRight hbusy hdescribed rfl (by simp [hone, hflight, SendThreadPc.right])
      (by simp [hflight]) nofun fun heq => ?_
    have hlen := congrArg List.length (SendThreadPc.wsaSend.inj heq)
    rw [SendContext.posted, List.length_map, List.length_range] at hlen
    exact hcount hlen
  · rename_i buffers
    cases h
    rw [hok (Or.inr ⟨_, hpc⟩), if_pos rfl]
    refine L.moveRight hbusy L.described rfl (by simp [hone, hflight, SendThreadPc.right])
      ?_ nofun nofun
    rintro (h | h)
    · cases h
    · rw [hflight, List.nil_append, List.mem_singleton] at h
      exact absurd (h ▸ hpc) L.wsaSend
  · cases h
    exact L.moveRight hbusy L.described rfl (by simp [hone, hflight, SendThreadPc.right])
      (by simp [hflight]) nofun nofun

theorem Live.completion (L : Live packets s) {posted : List WsaBuf}
    {inFlight : List (List WsaBuf)} {cb : Nat} (hi : s.workers[i]? = some .idle)
    (hflight : s.inFlight = posted :: inFlight) (hok : cb = 0 → [] ∈ s.inFlight) :
    Live packets { s with
      inFlight := inFlight
      workers := s.workers.set i (.taken cb) } := by
  have hright := L.right
  unfold State.rights at hright
  rw [hflight, List.length_cons] at hright
  have htotal := @total_set _ WorkerPc.right _ _ _ (WorkerPc.taken cb) hi
  simp only [WorkerPc.right] at htotal
  have hcan : s.session.canSend = false := by
    cases hc : s.session.canSend with
    | false => rfl
    | true => rw [hc] at hright; simp only [if_true] at hright; omega
  have hrest : inFlight = [] := List.eq_nil_of_length_eq_zero (by omega)
  have hworkers : total WorkerPc.right s.workers = 0 := by omega
  have hthread := SendThreadPc.eq_idle_of_right (show s.sendThread.right = 0 by omega)
  have hset : ∀ pc ∈ s.workers.set i (.taken cb), pc = .idle ∨ pc = .taken cb := fun pc hm =>
    (List.mem_or_eq_of_mem_set hm).imp_left (all_idle_of_total hworkers pc)
  refine ⟨L.described, ?_, ?_, fun hm => ?_, L.posting, L.wsaSend⟩
  · unfold State.rights
    dsimp only
    rw [hcan] at hright ⊢
    omega
  · rintro (h | h | h | h | h)
    · rw [hcan] at h; cases h
    · rw [hthread] at h; cases h
    · rw [hrest] at h; cases h
    · rcases hset _ h with h | h
      · cases h
      · exact L.store (Or.inr (Or.inr (Or.inl (hok (WorkerPc.taken.inj h).symm))))
    · rcases hset _ h with h | h <;> cases h
  · rcases hset _ hm with h | h <;> cases h

/-- The right stays with worker `i`, or it is passed on. -/
theorem Live.moveWorker (L : Live packets s) {pc pc' : WorkerPc} {session : Session}
    {requests : Nat} (hi : s.workers[i]? = some pc) (hpc : pc ≠ .idle)
    (hdescribed : session.sendWSAOverlapped.Described packets)
    (hright : (if session.canSend then 1 else 0) + requests + pc'.right = s.sendRequestQueue + 1)
    (hstore : session.canSend = true ∨ pc' = .taken 0 ∨ pc' = .store →
      session.sendWSAOverlapped.count = 0 ∧ (session.sendQueue = [] ∨ .enqueued ∈ s.senders))
    (hhandled : pc' = .handled false → session.sendWSAOverlapped.count = 0) :
    Live packets { s with
      session := session
      sendRequestQueue := requests
      workers := s.workers.set i pc' } := by
  have hold := L.right
  unfold State.rights at hold
  have hone : pc.right = 1 := by cases pc <;> first | rfl | exact absurd rfl hpc
  have hle := @holds_le_total _ WorkerPc.right _ _ _ hi
  have hidle := @total_set _ WorkerPc.right _ _ _ WorkerPc.idle hi
  have htotal := @total_set _ WorkerPc.right _ _ _ pc' hi
  simp only [WorkerPc.right] at hidle
  have hflight : s.inFlight = [] := List.eq_nil_of_length_eq_zero (by omega)
  have hthread := SendThreadPc.eq_idle_of_right (show s.sendThread.right = 0 by omega)
  have hset : ∀ pc₀ ∈ s.workers.set i pc', pc₀ = .idle ∨ pc₀ = pc' := by
    intro pc₀ hm
    rw [← List.set_set (a := .idle)] at hm
    exact (List.mem_or_eq_of_mem_set hm).imp_left (all_idle_of_total (by omega) pc₀)
  refine ⟨hdescribed, ?_, ?_, fun hm => ?_, fun h => ?_, L.wsaSend⟩
  · unfold State.rights
    dsimp only
    omega
  · rintro (h | h | h | h | h)
    · exact hstore (Or.inl h)
    · rw [hthread] at h; cases h
    · rw [hflight] at h; cases h
    · rcases hset _ h with h | h
      · cases h
      · exact hstore (Or.inr (Or.inl h.symm))
    · rcases hset _ h with h | h
      · cases h
      · exact hstore (Or.inr (Or.inr h.symm))
  · rcases hset _ hm with h | h
    · cases h
    · exact hhandled h.symm
  · rw [hthread] at h; cases h

/-- The right is with a worker, so `canSend` is not set. -/
theorem Live.canSend_of_worker (L : Live packets s) {pc : WorkerPc}
    (hi : s.workers[i]? = some pc) (hpc : pc ≠ .idle) : s.session.canSend = false := by
  have hright := L.right
  unfold State.rights at hright
  have hone : pc.right = 1 := by cases pc <;> first | rfl | exact absurd rfl hpc
  have hle := @holds_le_total _ WorkerPc.right _ _ _ hi
  cases hc : s.session.canSend with
  | false => rfl
  | true => rw [hc] at hright; simp only [if_true] at hright; omega

/-- Without a difference every packet of the context was transferred. -/
theorem count_of_transfer_eq {session session' : Session} {cb transfer : Nat} {released : List Nat}
    (h : session.sendWSAOverlapped.Described packets)
    (hdrop : dropTransferred packets session cb = (transfer, session', released)) :
    session'.sendWSAOverlapped.Described packets ∧ session'.canSend = session.canSend ∧
      (transfer = cb → session'.sendWSAOverlapped.count = 0) := by
  obtain ⟨d, hd, _, hstop, ctx, heq, hptrs, hdescribed⟩ := @dropTransferred_spec packets session cb h
  rw [heq] at hdrop
  cases hdrop
  refine ⟨hdescribed, rfl, fun hcb => ?_⟩
  have hlen := congrArg List.length hptrs
  rw [List.length_drop, ctx.length_ptrs, SendContext.length_ptrs] at hlen
  by_cases hall : d = session.sendWSAOverlapped.count
  · show ctx.count = 0
    omega
  · rw [if_neg hall] at hcb
    have := hstop (by omega)
    omega

theorem Live.worker (L : Live packets s) (hlive : s.session.isDeleteRequest = false)
    {pc : WorkerPc} (hi : s.workers[i]? = some pc) (h : workerStep packets s i pc = some t) :
    Live packets t := by
  have hmem : pc ∈ s.workers := List.mem_of_getElem? hi
  cases pc with
  | idle => cases h
  | taken cb =>
    have hcan := L.canSend_of_worker hi nofun
    simp only [workerStep, hlive, Bool.false_eq_true, if_false] at h
    split at h
    · rename_i hzero
      subst hzero
      cases h
      exact L.moveWorker hi nofun L.described (by simp [hcan, WorkerPc.right])
        (fun _ => L.store (Or.inr (Or.inr (Or.inr (Or.inl hmem))))) nofun
    · cases hdrop : dropTransferred packets s.session cb with
      | mk transfer rest =>
        obtain ⟨session, released⟩ := rest
        obtain ⟨hdescribed, hsame, hcount⟩ := count_of_transfer_eq L.described hdrop
        rw [hdrop] at h
        cases h
        refine L.moveWorker hi nofun hdescribed (by simp [hsame, hcan, WorkerPc.right]) ?_ fun he => ?_
        · rintro (h | h | h)
          · rw [hsame, hcan] at h; cases h
          · cases h
          · cases h
        · exact hcount (by simpa using WorkerPc.handled.inj he)
  | handled differs =>
    have hcan := L.canSend_of_worker hi nofun
    cases h
    refine L.moveWorker hi nofun L.described ?_ ?_ ?_
    · simp only [hcan, Bool.false_eq_true, if_false]
      split <;> simp only [WorkerPc.right, Nat.zero_add]
    · split
      · rintro (h | h | h)
        · rw [hcan] at h; cases h
        · cases h
        · cases h
      · rename_i hnone
        rw [not_or, Bool.not_eq_true, Nat.not_lt, Nat.le_zero] at hnone
        obtain ⟨rfl, hqueue⟩ := hnone
        exact fun _ => ⟨L.handled hmem, Or.inl (List.eq_nil_of_length_eq_zero hqueue)⟩
    · split <;> nofun
  | requeue =>
    have hcan := L.canSend_of_worker hi nofun
    cases h
    exact L.moveWorker hi nofun L.described (by simp [hcan, WorkerPc.right])
      (by rintro (h | h | h) <;> simp_all) nofun
  | store =>
    have hcan := L.canSend_of_worker hi nofun
    cases h
    exact L.moveWorker hi nofun L.described (by simp [WorkerPc.right, Nat.add_comm])
      (fun _ => L.store (Or.inr (Or.inr (Or.inr (Or.inr hmem))))) nofun

/-! ## Runs -/

theorem Live.init (n m : Nat) (wsabuf : Nat → WsaBuf) (ptr : Nat → Nat) :
    Live packets (SendWakeup.init n m wsabuf ptr) := by
  refine ⟨fun _ hk => absurd hk (Nat.not_lt_zero _), ?_, fun _ => ⟨rfl, Or.inl rfl⟩,
    fun _ => rfl, nofun, nofun⟩
  have hs : total SenderPc.right (List.replicate n .idle) = 0 :=
    total_eq_zero fun pc hpc => by rw [List.eq_of_mem_replicate hpc]; rfl
  have hw : total WorkerPc.right (List.replicate m .idle) = 0 :=
    total_eq_zero fun pc hpc => by rw [List.eq_of_mem_replicate hpc]; rfl
  simp only [State.rights, SendWakeup.init, hs, hw]
  rfl

/-- A step does not undo a delete request. -/
theorem isDeleteRequest_mono (h : step packets setData s a = some t)
    (hdel : s.session.isDeleteRequest = true) : t.session.isDeleteRequest = true := by
  cases a with
  | sendPacket i p =>
    simp only [step] at h
    split at h
    · cases h; exact hdel
    · cases h
  | sender i =>
    obtain ⟨pc, -, h⟩ := Option.bind_eq_some_iff.mp h
    cases pc <;> cases h <;> exact hdel
  | sendThread timeUp posted =>
    simp only [step, sendThreadStep] at h
    split at h
    · split at h
      · cases h
      · cases h; exact hdel
    · split at h
      · cases h; exact hdel
      · split at h <;> cases h <;> exact hdel
    · cases h; exact hdel
    · split at h
      · cases h; exact hdel
      · rename_i hpost
        cases h
        exact (sendPost_isDeleteRequest hpost).trans hdel
    · cases h; exact hdel
    · cases h; exact hdel
  | completion i cb =>
    simp only [step] at h
    split at h
    · split at h
      · cases h; exact hdel
      · cases h
    · cases h
  | worker i =>
    obtain ⟨pc, -, h⟩ := Option.bind_eq_some_iff.mp h
    cases pc with
    | idle => cases h
    | taken cb =>
      simp only [workerStep, hdel, if_true] at h
      cases h; exact hdel
    | handled | requeue | store => cases h; exact hdel
  | deleteRequest => cases h; rfl

theorem Live.step (L : Live packets s) (hlive : s.session.isDeleteRequest = false)
    (hok : WakeOk s a) (h : SendWakeup.step packets setData s a = some t) :
    t.session.isDeleteRequest = false → Live packets t := by
  have hok := hok hlive
  intro ht
  cases a with
  | sendPacket i p =>
    simp only [SendWakeup.step] at h
    split at h
    · rename_i hi
      cases h
      exact L.sendPacket hi
    · cases h
  | sender i =>
    obtain ⟨pc, hi, h⟩ := Option.bind_eq_some_iff.mp h
    cases pc with
    | idle => cases h
    | enqueued => cases h; exact L.exchange hi (hok hi)
    | pushing => cases h; exact L.push hi
  | sendThread timeUp posted => exact L.sendThread hok h
  | completion i cb =>
    simp only [SendWakeup.step] at h
    split at h
    · rename_i posted inFlight hi hflight
      split at h
      · cases h
        exact L.completion hi hflight hok
      · cases h
    · cases h
  | worker i =>
    obtain ⟨pc, hi, h⟩ := Option.bind_eq_some_iff.mp h
    exact L.worker hlive hi h
  | deleteRequest => cases h; cases ht

/-- **No lost wake-up.**  In every run, of any number of threads in `SendPacket`, the send thread
and any number of workers, whose steps meet the condition, packets that wait in a quiescent
session are waited for. -/
theorem run_awake {as : List Action} {n m : Nat} {wsabuf : Nat → WsaBuf} {ptr : Nat → Nat}
    (hr : Run (fun s a t => step packets setData s a = some t) WakeOk (init n m wsabuf ptr) as t) :
    Awake t := by
  have hinv : t.session.isDeleteRequest = false → Live packets t := by
    refine Run.invariant (I := fun s => s.session.isDeleteRequest = false → Live packets s) hr
      (fun _ => Live.init n m wsabuf ptr) ?_
    intro x a y hx hok hstep hy
    have hlive : x.session.isDeleteRequest = false := by
      cases hd : x.session.isDeleteRequest with
      | false => rfl
      | true => rw [isDeleteRequest_mono hstep hd] at hy; cases hy
    exact (hx hlive).step hlive hok hstep hy
  exact fun hq hlive hw => (hinv hlive).awake hq hw

/-- A packet is handed over, posted and completed. -/
theorem run_awake_one_packet :
    ∃ t, Run (fun s a t => step (fun _ => CPacket.ofBytes [1, 2]) ⟨100, 1000⟩ s a = some t) WakeOk
        (init 1 1 (fun _ => ⟨0, 0⟩) fun _ => 0)
        [.sendPacket 0 7, .sender 0, .sender 0, .sendThread true true, .sendThread true true,
          .sendThread true true, .sendThread true true, .completion 0 2, .worker 0, .worker 0,
          .worker 0] t ∧
      t.session.canSend = true ∧ Awake t := by
  obtain ⟨t, hrun, hcan⟩ : ∃ t : State,
      Run (fun s a t => step (fun _ => CPacket.ofBytes [1, 2]) ⟨100, 1000⟩ s a = some t) WakeOk
        (init 1 1 (fun _ => ⟨0, 0⟩) fun _ => 0)
        [.sendPacket 0 7, .sender 0, .sender 0, .sendThread true true, .sendThread true true,
          .sendThread true true, .sendThread true true, .completion 0 2, .worker 0, .worker 0,
          .worker 0] t ∧ t.session.canSend = true :=
    ⟨_, .cons rfl (by intro _; trivial) <|
      .cons rfl (by intro _ _ _ h; exact absurd h (not_storePending rfl)) <|
      .cons rfl (by intro _ h; cases h) <|
      .cons rfl (by intro _ _; rfl) <| .cons rfl (by intro _ _; rfl) <|
      .cons rfl (by intro _ _; rfl) <| .cons rfl (by intro _ _; rfl) <|
      .cons rfl (by intro _ h; cases h) <| .cons rfl (by intro _; trivial) <|
      .cons rfl (by intro _; trivial) <| .cons rfl (by intro _; trivial) .nil, rfl⟩
  exact ⟨t, hrun, hcan, run_awake hrun⟩

/-- The worker finds the queue empty; before it sets `canSend` a second packet is enqueued and
its exchange returns 0.  Afterwards everything is quiet and the packet waits. -/
theorem exchange_before_store_strands :
    ¬ ∀ as t, Run (fun s a t => step (fun _ => CPacket.ofBytes [1, 2]) ⟨100, 1000⟩ s a = some t)
        anyStep (init 1 1 (fun _ => ⟨0, 0⟩) fun _ => 0) as t → Awake t := by
  intro h
  have hawake := h [.sendPacket 0 7, .sender 0, .sender 0, .sendThread true true,
    .sendThread true true, .sendThread true true, .sendThread true true, .completion 0 2,
    .worker 0, .worker 0, .sendPacket 0 8, .sender 0, .worker 0] _ <|
    .cons rfl trivial <| .cons rfl trivial <| .cons rfl trivial <| .cons rfl trivial <|
    .cons rfl trivial <| .cons rfl trivial <| .cons rfl trivial <| .cons rfl trivial <|
    .cons rfl trivial <| .cons rfl trivial <| .cons rfl trivial <| .cons rfl trivial <|
    .cons rfl trivial .nil
  rcases hawake ⟨by decide, rfl, by decide⟩ rfl (Or.inl (by decide)) with h | h
  · exact h rfl
  · exact h rfl

end SendWakeup

end IocpServer
