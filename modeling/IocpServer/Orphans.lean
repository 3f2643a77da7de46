import IocpServer.Lib.Run
import IocpServer.Lib.Threads

/-!
# Who asks for the release of a session

One session and everybody at work on it: `OnAccept` from its `RecvPost` on, `SendPacket`,
`SendThread` with `SendPost` or its send of no bytes, `OnClientLeave`, `ProcessPackets` with
`AddRefSession` and `ReleaseRefSession`, the worker loop and `SessionDestroyThread`, each a thread
of a pool.  One step is one interlocked operation, one lookup in `sessionMap` or one queue
operation; of the queues only the ids of this session count.

Every decrement of `ioCount` asks for the release when it reaches 0, but `SendPacket`'s.

* `NoOrphan` — the promise: a session nobody is at work on, mapped and with an `ioCount` of 0, has
  its id in `destroySessionRequestQueue`.
* `OrphanOk` — the step condition: `SendPacket` is not the last one to leave.
* `Moves` — what a step of one thread can change, `go_moves` and `begin_moves` — every step does
  no more.
* `run_noOrphan` — **in every run whose steps meet the condition no session is orphaned.**
* `sendPacket_orphans` — without it `SendPacket` leaves a session behind that is never released.
-/

set_option autoImplicit false

namespace IocpServer

open Lib

namespace Orphans

/-- Whose `OVERLAPPED` a completion carries. -/
inductive IoKind where
  | recv
  | send
  deriving DecidableEq

/-- Where a thread stands.  `more`: the worker's own decrement is still to come; `held`: the
increment of `AddRefSession` has not been taken back. -/
inductive Pc where
  | idle
  /-- `RecvPost`, before its increment and before `WSARecv`. -/
  | recvInc (more : Bool)
  | recvPost (more : Bool)
  /-- Before a decrement that asks for the release when it reaches 0. -/
  | decrement (more : Bool)
  | deleteCas (more : Bool)
  | deleteEnq (more : Bool)
  /-- `SendPacket` has found the session. -/
  | sendInc
  | sendUndo
  | sendWork
  | sendEnq
  | sendDec
  /-- `SendThread` has taken the id from `sendRequestQueue`, then found the session. -/
  | threadDequeued
  | threadInc
  /-- Before `WSASend`. -/
  | threadPost
  /-- `OnClientLeave`. -/
  | leaveCas
  | leaveEnq
  /-- `ProcessPackets`, before the increment of `AddRefSession`. -/
  | addRefInc
  | addRefUndo
  | handler (held : Bool)
  | releaseDec (held : Bool)
  | releasePush
  /-- A worker has a completion; `zero`: no bytes were transferred. -/
  | workTaken (kind : IoKind) (zero : Bool)
  | workDone (kind : IoKind)
  /-- `SessionDestroyThread` has taken the id from `destroySessionRequestQueue`. -/
  | destroyDequeued
  /-- Before the check of `ioCount`. -/
  | destroyChecking
  | destroyRequeue
  /-- `OnRelease`. -/
  | destroyReleasing
  /-- `OnRelease`, the entry of `sessionMap` is null. -/
  | destroyUnmapped
  deriving DecidableEq

structure State where
  /-- The session stands in `sessionMap`. -/
  mapped : Bool
  freed : Bool
  /-- An `unsigned long`; -1 stands for its largest value. -/
  ioCount : Int
  canSend : Bool
  isDeleteRequest : Bool
  /-- How often its id stands in `sendRequestQueue`, in `destroySessionRequestQueue`. -/
  sendRequests : Nat
  destroyRequests : Nat
  /-- The operations posted and not yet completed. -/
  recvs : Nat
  sends : Nat
  threads : List Pc

inductive Fault where
  | useAfterFree
  | notEnabled
  deriving DecidableEq

/-- What an idle thread begins, or `go`: its next step.  `choice` is what the step does not
decide itself: whether a post succeeds, whether `SendThread` posts now, whether a completed send
leaves packets behind. -/
inductive Op where
  | sendPacket
  | sendThread
  | onClientLeave
  | processPacket
  | completion (kind : IoKind) (zero : Bool)
  | destroyThread
  | go (choice : Bool)

structure Action where
  thread : Nat
  op : Op

def State.goto (s : State) (i : Nat) (pc : Pc) : State := { s with threads := s.threads.set i pc }

/-- Behind `RecvPost` and behind the request for the release. -/
def Pc.next (more : Bool) : Pc := if more then .decrement false else .idle

/-- An idle thread begins. -/
def begin (s : State) (i : Nat) : Op → Except Fault State
  | .sendPacket => if s.mapped then .ok (s.goto i .sendInc) else .ok s
  | .sendThread =>
    match s.sendRequests with
    | 0 => .error .notEnabled
    | n + 1 => .ok ({ s with sendRequests := n }.goto i .threadDequeued)
  | .onClientLeave => if s.mapped then .ok (s.goto i .leaveCas) else .ok s
  | .processPacket =>
    if s.mapped then .ok (s.goto i .addRefInc) else .ok (s.goto i (.handler false))
  | .completion .recv zero =>
    match s.recvs with
    | 0 => .error .notEnabled
    | n + 1 => .ok ({ s with recvs := n }.goto i (.workTaken .recv zero))
  | .completion .send zero =>
    match s.sends with
    | 0 => .error .notEnabled
    | n + 1 => .ok ({ s with sends := n }.goto i (.workTaken .send zero))
  | .destroyThread =>
    match s.destroyRequests with
    | 0 => .error .notEnabled
    | n + 1 => .ok ({ s with destroyRequests := n }.goto i .destroyDequeued)
  | .go _ => .error .notEnabled

/-- A step that reads or writes the session. -/
def access (s : State) (t : State) : Except Fault State :=
  if s.freed then .error .useAfterFree else .ok t

/-- The next step of a thread at work. -/
def go (s : State) (i : Nat) (choice : Bool) : Pc → Except Fault State
  | .idle => .error .notEnabled
  | .recvInc more => access s ({ s with ioCount := s.ioCount + 1 }.goto i (.recvPost more))
  | .recvPost more =>
    if choice then access s ({ s with recvs := s.recvs + 1 }.goto i (.next more))
    else access s (s.goto i (.decrement more))
  | .decrement more =>
    let t := { s with ioCount := s.ioCount - 1 }
    if s.ioCount - 1 = 0 then access s (t.goto i (.deleteCas more))
    else access s (t.goto i (.next more))
  | .deleteCas more =>
    let t := { s with isDeleteRequest := true }
    if s.isDeleteRequest then access s (t.goto i (.next more))
    else access s (t.goto i (.deleteEnq more))
  | .deleteEnq more =>
    access s ({ s with destroyRequests := s.destroyRequests + 1 }.goto i (.next more))
  | .sendInc =>
    let t := { s with ioCount := s.ioCount + 1 }
    -- `<= 0` on an `unsigned long`
    if s.ioCount + 1 = 0 then access s (t.goto i .sendUndo) else access s (t.goto i .sendWork)
  | .sendUndo | .sendDec => access s ({ s with ioCount := s.ioCount - 1 }.goto i .idle)
  | .sendWork =>
    let t := { s with canSend := false }
    if s.canSend then access s (t.goto i .sendEnq) else access s (t.goto i .sendDec)
  | .sendEnq => access s ({ s with sendRequests := s.sendRequests + 1 }.goto i .sendDec)
  | .threadDequeued => if s.mapped then .ok (s.goto i .threadInc) else .ok (s.goto i .idle)
  | .threadInc =>
    if choice then access s ({ s with ioCount := s.ioCount + 1 }.goto i .threadPost)
    else access s ({ s with sendRequests := s.sendRequests + 1 }.goto i .idle)
  | .threadPost =>
    if choice then access s ({ s with sends := s.sends + 1 }.goto i .idle)
    else access s (s.goto i (.decrement false))
  | .leaveCas =>
    let t := { s with isDeleteRequest := true }
    if s.isDeleteRequest then access s (t.goto i .idle) else access s (t.goto i .leaveEnq)
  | .leaveEnq => .ok ({ s with destroyRequests := s.destroyRequests + 1 }.goto i .idle)
  | .addRefInc =>
    let t := { s with ioCount := s.ioCount + 1 }
    -- `<= 1` on an `unsigned long`
    if s.ioCount + 1 = 0 ∨ s.ioCount + 1 = 1 then access s (t.goto i .addRefUndo)
    else access s (t.goto i (.handler true))
  | .addRefUndo => access s ({ s with ioCount := s.ioCount - 1 }.goto i (.handler false))
  | .handler held =>
    if s.mapped then .ok (s.goto i (.releaseDec held)) else .ok (s.goto i .idle)
  | .releaseDec _ =>
    let t := { s with ioCount := s.ioCount - 1 }
    if s.ioCount - 1 = 0 then access s (t.goto i .releasePush) else access s (t.goto i .idle)
  | .releasePush =>
    access s ({ s with destroyRequests := s.destroyRequests + 1 }.goto i .idle)
  | .workTaken kind zero =>
    if s.isDeleteRequest then access s (s.goto i (.decrement false))
    else if zero then
      match kind with
      | .recv => access s (s.goto i (.decrement false))
      | .send => access s ({ s with canSend := true }.goto i (.decrement false))
    -- `continue` leaves the reference behind
    else if s.mapped then access s (s.goto i (.workDone kind)) else access s (s.goto i .idle)
  | .workDone .recv => access s (s.goto i (.recvInc true))
  | .workDone .send =>
    if choice then
      access s ({ s with sendRequests := s.sendRequests + 1 }.goto i (.decrement false))
    else access s ({ s with canSend := true }.goto i (.decrement false))
  | .destroyDequeued => if s.mapped then .ok (s.goto i .destroyChecking) else .ok (s.goto i .idle)
  | .destroyChecking =>
    if s.ioCount ≠ 0 then access s (s.goto i .destroyRequeue)
    else access s (s.goto i .destroyReleasing)
  | .destroyRequeue =>
    access s ({ s with destroyRequests := s.destroyRequests + 1 }.goto i .idle)
  | .destroyReleasing => access s ({ s with mapped := false }.goto i .destroyUnmapped)
  | .destroyUnmapped => access s ({ s with freed := true }.goto i .idle)

def step (s : State) (a : Action) : Except Fault State :=
  match s.threads[a.thread]? with
  | none => .error .notEnabled
  | some pc =>
    match pc, a.op with
    | .idle, op => begin s a.thread op
    | pc, .go choice => go s a.thread choice pc
    | _, _ => .error .notEnabled

/-- `OnAccept` has stored the session in `sessionMap` and calls `RecvPost`; `n` other threads are
idle. -/
def init (n : Nat) : State where
  mapped := true
  freed := false
  ioCount := 0
  canSend := true
  isDeleteRequest := false
  sendRequests := 0
  destroyRequests := 0
  recvs := 0
  sends := 0
  threads := .recvInc false :: List.replicate n .idle

/-! ## The promise and its condition -/

/-- No thread is at work on the session, nothing is in flight, no send request is queued. -/
structure Quiescent (s : State) : Prop where
  threads : ∀ (i : Nat) pc, s.threads[i]? = some pc → pc = .idle
  recvs : s.recvs = 0
  sends : s.sends = 0
  sendRequests : s.sendRequests = 0

/-- A session nobody is at work on and nobody holds waits to be released. -/
def NoOrphan (s : State) : Prop :=
  Quiescent s → s.mapped = true → s.ioCount = 0 → s.destroyRequests ≠ 0

/-- The step condition: when `SendPacket`'s decrement reaches 0, the release has been asked for, a
send request is queued, an operation is in flight or another thread is at work on the session. -/
def OrphanOk (s : State) (a : Action) : Prop :=
  s.threads[a.thread]? = some .sendDec → s.ioCount = 1 →
    s.destroyRequests ≠ 0 ∨ s.sendRequests ≠ 0 ∨ s.recvs ≠ 0 ∨ s.sends ≠ 0 ∨
      ∃ (j : Nat) (pc : Pc), j ≠ a.thread ∧ s.threads[j]? = some pc ∧ pc ≠ .idle

/-! ## The invariant -/

/-- What a thread holds of `ioCount`. -/
def Pc.refs : Pc → Nat
  | .recvInc more | .deleteCas more | .deleteEnq more => more.toNat
  | .recvPost more | .decrement more => more.toNat + 1
  | .handler held | .releaseDec held => held.toNat
  | .sendUndo | .sendWork | .sendEnq | .sendDec | .threadPost | .addRefUndo
  | .workTaken _ _ | .workDone _ => 1
  | _ => 0

/-- The requests for the release a thread has in hand. -/
def Pc.requests : Pc → Nat
  | .deleteEnq _ | .leaveEnq | .releasePush | .destroyDequeued | .destroyChecking
  | .destroyRequeue | .destroyReleasing => 1
  | _ => 0

def State.posted (s : State) : Nat := s.recvs + s.sends

def State.held (s : State) : Nat := total Pc.refs s.threads + s.posted

def State.requests (s : State) : Nat := total Pc.requests s.threads + s.destroyRequests

/-- What holds of a mapped session. -/
structure Inv (s : State) : Prop where
  bound : s.ioCount ≤ s.held
  /-- An increment is taken back only when the count has been lowered too often. -/
  undo : ∀ i : Nat, s.threads[i]? = some .sendUndo → s.ioCount < s.held
  mapped : ∀ i : Nat, s.threads[i]? ≠ some .destroyUnmapped
  requested : s.isDeleteRequest = true → s.requests ≠ 0
  noOrphan : NoOrphan s

variable {s t : State} {a : Action} {i : Nat} {pc pc' : Pc} {choice : Bool} {op : Op}

/-- What a step of thread `i` from `pc` to `pc'` can change while the session is mapped. -/
structure Moves (s t : State) (i : Nat) (pc pc' : Pc) : Prop where
  threads : t.threads = s.threads.set i pc'
  /-- Nobody counts more than it takes. -/
  count : t.ioCount + pc.refs + s.posted ≤ s.ioCount + pc'.refs + t.posted
  undo : pc' = .sendUndo → t.ioCount = 0
  mapped : pc' ≠ .destroyUnmapped
  requests : pc.requests + s.destroyRequests ≤ pc'.requests + t.destroyRequests
  delete : t.isDeleteRequest = true → s.isDeleteRequest = true ∨ pc'.requests ≠ 0
  /-- Who leaves last has asked for the release, or found that it has been asked for. -/
  leaves : pc' = .idle → t.ioCount = 0 → t.posted = 0 → t.sendRequests = 0 →
    t.destroyRequests ≠ 0 ∨ t.isDeleteRequest = true ∨ pc = .sendUndo ∨
      pc = .sendDec ∧ t = { s with ioCount := s.ioCount - 1 }.goto i .idle

theorem Inv.moves (I : Inv s) (hi : s.threads[i]? = some pc) (m : Moves s t i pc pc')
    (hok : OrphanOk s ⟨i, op⟩) : Inv t := by
  have hrefs := @total_set _ Pc.refs _ _ _ pc' hi
  have hrequests := @total_set _ Pc.requests _ _ _ pc' hi
  have hcount := m.count
  have hgap : t.ioCount + s.held ≤ s.ioCount + t.held := by
    simp only [State.held, m.threads]
    omega
  have hbound : t.ioCount ≤ t.held := by
    have := I.bound
    omega
  have hundo : ∀ j : Nat, t.threads[j]? = some .sendUndo → t.ioCount < t.held := by
    intro j hj
    have hj' := hj
    rw [m.threads] at hj'
    rcases getElem?_set_cases hj' with ⟨-, he⟩ | ⟨-, hj'⟩
    · have hle := @holds_le_total _ Pc.refs _ _ _ hj
      have hone : Pc.sendUndo.refs = 1 := rfl
      have hzero := m.undo he.symm
      simp only [State.held]
      omega
    · have := I.undo j hj'
      omega
  have hmapped : ∀ j : Nat, t.threads[j]? ≠ some .destroyUnmapped := by
    intro j hj
    rw [m.threads] at hj
    rcases getElem?_set_cases hj with ⟨-, he⟩ | ⟨-, hj⟩
    · exact m.mapped he.symm
    · exact I.mapped j hj
  have hrequested : t.isDeleteRequest = true → t.requests ≠ 0 := by
    intro hdelete
    have := m.requests
    simp only [State.requests, m.threads]
    rcases m.delete hdelete with h | h
    · have := I.requested h
      simp only [State.requests] at this
      omega
    · have := @holds_le_total _ Pc.requests _ _ _ (@getElem?_set_of_some _ _ _ _ pc' hi)
      omega
  refine ⟨hbound, hundo, hmapped, hrequested, fun hq _ hzero => ?_⟩
  have hidle : ∀ f : Pc → Nat, f .idle = 0 → total f t.threads = 0 := by
    intro f hf
    refine total_eq_zero fun pc hmem => ?_
    obtain ⟨j, hj⟩ := List.mem_iff_getElem?.mp hmem
    rw [hq.threads j pc hj, hf]
  have hposted : t.posted = 0 := by rw [State.posted, hq.recvs, hq.sends]
  have hlast : pc' = .idle :=
    hq.threads i pc' (by rw [m.threads]; exact getElem?_set_of_some hi)
  rcases m.leaves hlast hzero hposted hq.sendRequests with h | h | h | ⟨h, ht⟩
  · exact h
  · have := hrequested h
    rw [State.requests, hidle Pc.requests rfl] at this
    omega
  · -- whoever takes an increment back leaves the count below what is held
    have hlt := I.undo i (h ▸ hi)
    have hheld : t.held = 0 := by rw [State.held, hidle Pc.refs rfl, hposted]
    omega
  · subst h
    have hone : s.ioCount = 1 := by
      rw [ht] at hzero
      simp only [State.goto] at hzero
      omega
    have hrecvs : s.recvs = 0 := by have := hq.recvs; rw [ht] at this; exact this
    have hsends : s.sends = 0 := by have := hq.sends; rw [ht] at this; exact this
    have hsend : s.sendRequests = 0 := by have := hq.sendRequests; rw [ht] at this; exact this
    rcases hok hi hone with h | h | h | h | ⟨j, other, hne, hj, h⟩
    · rw [ht]; exact h
    · exact absurd hsend h
    · exact absurd hrecvs h
    · exact absurd hsends h
    · refine absurd (hq.threads j other ?_) h
      rw [m.threads, List.getElem?_set_ne (Ne.symm hne)]
      exact hj

theorem access_eq_ok {u : State} (h : access s t = .ok u) : t = u := by
  unfold access at h
  split at h
  · cases h
  · cases h; rfl

/-- A step behind which the thread is still at work. -/
theorem Moves.work (hthreads : t.threads = s.threads.set i pc')
    (hcount : t.ioCount + pc.refs + s.posted ≤ s.ioCount + pc'.refs + t.posted)
    (hrequests : pc.requests + s.destroyRequests ≤ pc'.requests + t.destroyRequests)
    (hdelete : t.isDeleteRequest = s.isDeleteRequest) (hundo : pc' ≠ .sendUndo)
    (hmapped : pc' ≠ .destroyUnmapped) (hidle : pc' ≠ .idle) : Moves s t i pc pc' :=
  ⟨hthreads, hcount, fun h => absurd h hundo, hmapped, hrequests, fun h => Or.inl (hdelete ▸ h),
    fun h => absurd h hidle⟩

/-- A step behind which the thread may have left. -/
theorem Moves.leave {more : Bool} (hthreads : t.threads = s.threads.set i (.next more))
    (hcount : t.ioCount + pc.refs + s.posted ≤ s.ioCount + more.toNat + t.posted)
    (hrequests : pc.requests + s.destroyRequests ≤ t.destroyRequests)
    (hdelete : t.isDeleteRequest = true → s.isDeleteRequest = true)
    (hleaves : t.ioCount = 0 → t.posted = 0 → t.sendRequests = 0 →
      t.destroyRequests ≠ 0 ∨ t.isDeleteRequest = true) : Moves s t i pc (.next more) := by
  have hrefs : (Pc.next more).refs = more.toNat := by cases more <;> rfl
  have hzero : (Pc.next more).requests = 0 := by cases more <;> rfl
  refine ⟨hthreads, by rw [hrefs]; exact hcount, ?_, ?_, by omega, fun h => Or.inl (hdelete h),
    fun _ hzero hposted hsend => (hleaves hzero hposted hsend).imp_right Or.inl⟩
  · cases more <;> nofun
  · cases more <;> nofun

theorem go_mapped (h : go s i choice pc = .ok t) (hmapped : t.mapped = true) :
    s.mapped = true := by
  unfold go at h
  split at h <;> grind [access_eq_ok, State.goto]

/-- **What every step of a thread at work does.** -/
theorem go_moves (h : go s i choice pc = .ok t) (hmapped : t.mapped = true)
    (hpc : pc ≠ .destroyUnmapped) : ∃ pc', Moves s t i pc pc' := by
  have hs := go_mapped h hmapped
  cases pc with
  | idle => cases h
  | recvInc more =>
    obtain rfl := access_eq_ok h
    refine ⟨_, .work rfl ?_ (Nat.le_refl _) rfl nofun nofun nofun⟩
    simp only [Pc.refs, State.goto, State.posted]
    omega
  | recvPost more =>
    simp only [go] at h
    split at h
    · obtain rfl := access_eq_ok h
      refine ⟨_, .leave rfl ?_ (Nat.le_of_eq (Nat.zero_add _)) id ?_⟩
      · simp only [Pc.refs, State.goto, State.posted]
        omega
      · intro _ hposted
        simp only [State.goto, State.posted] at hposted
        omega
    · obtain rfl := access_eq_ok h
      exact ⟨_, .work rfl (Int.le_refl _) (Nat.le_refl _) rfl nofun nofun nofun⟩
  | decrement more =>
    simp only [go] at h
    split at h
    · obtain rfl := access_eq_ok h
      refine ⟨_, .work rfl ?_ (Nat.le_refl _) rfl nofun nofun nofun⟩
      simp only [Pc.refs, State.goto, State.posted]
      omega
    · rename_i hne
      obtain rfl := access_eq_ok h
      refine ⟨_, .leave rfl ?_ (Nat.le_of_eq (Nat.zero_add _)) id
        fun hzero => absurd hzero hne⟩
      simp only [Pc.refs, State.goto, State.posted]
      omega
  | deleteCas more =>
    simp only [go] at h
    split at h
    · rename_i hdelete
      obtain rfl := access_eq_ok h
      refine ⟨_, .leave rfl ?_ (Nat.le_of_eq (Nat.zero_add _)) (fun _ => hdelete)
        fun _ _ _ => Or.inr rfl⟩
      simp only [Pc.refs, State.goto, State.posted]
      omega
    · obtain rfl := access_eq_ok h
      refine ⟨_, rfl, ?_, nofun, nofun, ?_, fun _ => Or.inr nofun, nofun⟩
      · simp only [Pc.refs, State.goto, State.posted]
        omega
      · simp only [Pc.requests, State.goto]
        omega
  | deleteEnq more =>
    obtain rfl := access_eq_ok h
    refine ⟨_, .leave rfl ?_ ?_ id fun _ _ _ => Or.inl (Nat.succ_ne_zero _)⟩
    · simp only [Pc.refs, State.goto, State.posted]
      omega
    · simp only [Pc.requests, State.goto]
      omega
  | sendInc =>
    simp only [go] at h
    split at h
    · rename_i hzero
      obtain rfl := access_eq_ok h
      refine ⟨_, rfl, ?_, fun _ => hzero, nofun, Nat.le_refl _, Or.inl, nofun⟩
      simp only [Pc.refs, State.goto, State.posted]
      omega
    · obtain rfl := access_eq_ok h
      refine ⟨_, .work rfl ?_ (Nat.le_refl _) rfl nofun nofun nofun⟩
      simp only [Pc.refs, State.goto, State.posted]
      omega
  | sendUndo =>
    obtain rfl := access_eq_ok h
    refine ⟨.idle, rfl, ?_, nofun, nofun, Nat.le_refl _, Or.inl,
      fun _ _ _ _ => Or.inr (Or.inr (Or.inl rfl))⟩
    simp only [Pc.refs, State.goto, State.posted]
    omega
  | sendDec =>
    obtain rfl := access_eq_ok h
    refine ⟨.idle, rfl, ?_, nofun, nofun, Nat.le_refl _, Or.inl,
      fun _ _ _ _ => Or.inr (Or.inr (Or.inr ⟨rfl, rfl⟩))⟩
    simp only [Pc.refs, State.goto, State.posted]
    omega
  | sendWork =>
    simp only [go] at h
    split at h
    all_goals
      obtain rfl := access_eq_ok h
      exact ⟨_, .work rfl (Int.le_refl _) (Nat.le_refl _) rfl nofun nofun nofun⟩
  | sendEnq =>
    obtain rfl := access_eq_ok h
    exact ⟨_, .work rfl (Int.le_refl _) (Nat.le_refl _) rfl nofun nofun nofun⟩
  | threadDequeued =>
    simp only [go, hs, if_true] at h
    cases h
    exact ⟨_, .work rfl (Int.le_refl _) (Nat.le_refl _) rfl nofun nofun nofun⟩
  | threadInc =>
    simp only [go] at h
    split at h
    · obtain rfl := access_eq_ok h
      refine ⟨_, .work rfl ?_ (Nat.le_refl _) rfl nofun nofun nofun⟩
      simp only [Pc.refs, State.goto, State.posted]
      omega
    · obtain rfl := access_eq_ok h
      exact ⟨.next false, .leave rfl (Int.le_refl _) (Nat.le_of_eq (Nat.zero_add _)) id
        fun _ _ hsend => nomatch hsend⟩
  | threadPost =>
    simp only [go] at h
    split at h
    · obtain rfl := access_eq_ok h
      refine ⟨.next false, .leave rfl ?_ (Nat.le_of_eq (Nat.zero_add _)) id ?_⟩
      · simp only [Pc.refs, State.goto, State.posted]
        omega
      · intro _ hposted
        simp only [State.goto, State.posted] at hposted
        omega
    · obtain rfl := access_eq_ok h
      exact ⟨_, .work rfl (Int.le_refl _) (Nat.le_refl _) rfl nofun nofun nofun⟩
  | leaveCas =>
    simp only [go] at h
    split at h
    · rename_i hdelete
      obtain rfl := access_eq_ok h
      exact ⟨.next false, .leave rfl (Int.le_refl _) (Nat.le_of_eq (Nat.zero_add _))
        (fun _ => hdelete) fun _ _ _ => Or.inr rfl⟩
    · obtain rfl := access_eq_ok h
      refine ⟨_, rfl, Int.le_refl _, nofun, nofun, ?_, fun _ => Or.inr nofun, nofun⟩
      simp only [Pc.requests, State.goto]
      omega
  | leaveEnq =>
    cases h
    refine ⟨.next false, .leave rfl (Int.le_refl _) ?_ id fun _ _ _ => Or.inl (Nat.succ_ne_zero _)⟩
    simp only [Pc.requests, State.goto]
    omega
  | addRefInc =>
    simp only [go] at h
    split at h
    all_goals
      obtain rfl := access_eq_ok h
      refine ⟨_, .work rfl ?_ (Nat.le_refl _) rfl nofun nofun nofun⟩
      simp only [Pc.refs, State.goto, State.posted, Bool.toNat_true]
      omega
  | addRefUndo =>
    obtain rfl := access_eq_ok h
    refine ⟨_, .work rfl ?_ (Nat.le_refl _) rfl nofun nofun nofun⟩
    simp only [Pc.refs, State.goto, State.posted, Bool.toNat_false]
    omega
  | handler held =>
    simp only [go, hs, if_true] at h
    cases h
    exact ⟨_, .work rfl (Int.le_refl _) (Nat.le_refl _) rfl nofun nofun nofun⟩
  | releaseDec held =>
    have hle := held.toNat_le
    simp only [go] at h
    split at h
    · obtain rfl := access_eq_ok h
      refine ⟨_, .work rfl ?_ (Nat.add_le_add_right (Nat.zero_le _) _) rfl nofun nofun nofun⟩
      simp only [Pc.refs, State.goto, State.posted]
      omega
    · rename_i hne
      obtain rfl := access_eq_ok h
      refine ⟨.next false, .leave rfl ?_ (Nat.le_of_eq (Nat.zero_add _)) id
        fun hzero => absurd hzero hne⟩
      simp only [Pc.refs, State.goto, State.posted]
      omega
  | releasePush =>
    obtain rfl := access_eq_ok h
    refine ⟨.next false, .leave rfl (Int.le_refl _) ?_ id fun _ _ _ => Or.inl (Nat.succ_ne_zero _)⟩
    simp only [Pc.requests, State.goto]
    omega
  | workTaken kind zero =>
    simp only [go] at h
    split at h
    · obtain rfl := access_eq_ok h
      exact ⟨_, .work rfl (Int.le_refl _) (Nat.le_refl _) rfl nofun nofun nofun⟩
    · split at h
      · cases kind with
        | recv | send =>
          obtain rfl := access_eq_ok h
          exact ⟨_, .work rfl (Int.le_refl _) (Nat.le_refl _) rfl nofun nofun nofun⟩
      · obtain rfl := access_eq_ok h
        exact ⟨_, .work rfl (Int.le_refl _) (Nat.le_refl _) rfl nofun nofun nofun⟩
  | workDone kind =>
    cases kind with
    | recv =>
      obtain rfl := access_eq_ok h
      exact ⟨_, .work rfl (Int.le_refl _) (Nat.le_refl _) rfl nofun nofun nofun⟩
    | send =>
      simp only [go] at h
      split at h
      all_goals
        obtain rfl := access_eq_ok h
        exact ⟨_, .work rfl (Int.le_refl _) (Nat.le_refl _) rfl nofun nofun nofun⟩
  | destroyDequeued =>
    simp only [go, hs, if_true] at h
    cases h
    exact ⟨_, .work rfl (Int.le_refl _) (Nat.le_refl _) rfl nofun nofun nofun⟩
  | destroyChecking =>
    simp only [go] at h
    split at h
    all_goals
      obtain rfl := access_eq_ok h
      exact ⟨_, .work rfl (Int.le_refl _) (Nat.le_refl _) rfl nofun nofun nofun⟩
  | destroyRequeue =>
    obtain rfl := access_eq_ok h
    refine ⟨.next false, .leave rfl (Int.le_refl _) ?_ id fun _ _ _ => Or.inl (Nat.succ_ne_zero _)⟩
    simp only [Pc.requests, State.goto]
    omega
  | destroyReleasing =>
    obtain rfl := access_eq_ok h
    cases hmapped
  | destroyUnmapped => exact absurd rfl hpc

/-- An idle thread begins, or its lookup finds nothing. -/
theorem begin_moves (h : begin s i op = .ok t) (hmapped : t.mapped = true) :
    s.mapped = true ∧ ∃ pc', Moves s t i .idle pc' := by
  cases op with
  | sendPacket | onClientLeave | processPacket =>
    simp only [begin] at h
    split at h
    all_goals
      rename_i hs
      cases h
    · exact ⟨hs, _, .work rfl (Int.le_refl _) (Nat.le_refl _) rfl nofun nofun nofun⟩
    · exact absurd hmapped hs
  | sendThread =>
    simp only [begin] at h
    split at h
    · cases h
    · cases h
      exact ⟨hmapped, _, .work rfl (Int.le_refl _) (Nat.le_refl _) rfl nofun nofun nofun⟩
  | completion kind zero =>
    cases kind with
    | recv | send =>
      simp only [begin] at h
      split at h
      · cases h
      · rename_i hn
        cases h
        refine ⟨hmapped, _, .work rfl ?_ (Nat.le_refl _) rfl nofun nofun nofun⟩
        simp only [Pc.refs, State.goto, State.posted, hn]
        omega
  | destroyThread =>
    simp only [begin] at h
    split at h
    · cases h
    · rename_i hn
      cases h
      refine ⟨hmapped, _, .work rfl (Int.le_refl _) ?_ rfl nofun nofun nofun⟩
      simp only [Pc.requests, State.goto, hn]
      omega
  | go choice => cases h

/-- **Every step keeps the invariant of a session that is still mapped.** -/
theorem Inv.step (I : s.mapped = true → Inv s) (hok : OrphanOk s a)
    (h : Orphans.step s a = .ok t) (hmapped : t.mapped = true) : Inv t := by
  unfold Orphans.step at h
  split at h
  · cases h
  · rename_i pc hi
    split at h
    · obtain ⟨hs, pc', m⟩ := begin_moves h hmapped
      exact (I hs).moves hi m hok
    · have hs := go_mapped h hmapped
      obtain ⟨pc', m⟩ := go_moves h hmapped fun he =>
        (I hs).mapped a.thread (hi.trans (congrArg some he))
      exact (I hs).moves hi m hok
    · cases h

/-! ## Runs -/

theorem Inv.init (n : Nat) : Inv (Orphans.init n) := by
  have hpc : ∀ (i : Nat) pc, (Orphans.init n).threads[i]? = some pc →
      pc = .recvInc false ∨ pc = .idle := by
    intro i pc hi
    rcases List.mem_cons.mp (List.mem_of_getElem? hi) with h | h
    · exact Or.inl h
    · exact Or.inr (List.eq_of_mem_replicate h)
  refine ⟨Int.natCast_nonneg _, fun i hi => ?_, fun i hi => ?_, nofun, fun hq => ?_⟩
  · rcases hpc i _ hi with h | h <;> cases h
  · rcases hpc i _ hi with h | h <;> cases h
  · cases hq.threads 0 _ rfl

/-- **No orphaned session.**  In every run whose steps meet the condition, a session that is still
mapped, at which nobody is at work and which nobody holds has its id in
`destroySessionRequestQueue`. -/
theorem run_noOrphan {n : Nat} {as : List Action}
    (hr : Run (fun s a t => step s a = .ok t) OrphanOk (init n) as t) : NoOrphan t := by
  have I : t.mapped = true → Inv t :=
    hr.invariant (fun _ => Inv.init n) fun _ _ _ I hok h => Inv.step I hok h
  exact fun hq hmapped => (I hmapped).noOrphan hq hmapped

/-- `SendPacket` queues a packet, the client closes the connection, and the send is answered before
`SendPacket` gives its reference back. -/
def closing : List Action :=
  [⟨0, .go true⟩, ⟨0, .go true⟩,
    ⟨1, .sendPacket⟩, ⟨1, .go true⟩, ⟨1, .go true⟩, ⟨1, .go true⟩,
    ⟨2, .sendThread⟩, ⟨2, .go true⟩, ⟨2, .go true⟩, ⟨2, .go true⟩,
    ⟨0, .completion .send false⟩, ⟨0, .go true⟩, ⟨0, .go false⟩, ⟨0, .go true⟩]

/-- When `SendPacket` leaves before the receive completes, the worker asks for the release. -/
theorem run_noOrphan_closing :
    ∃ t, Run (fun s a t => step s a = .ok t) OrphanOk (init 2)
        (closing ++ [⟨1, .go true⟩, ⟨0, .completion .recv true⟩, ⟨0, .go true⟩, ⟨0, .go true⟩,
          ⟨0, .go true⟩, ⟨0, .go true⟩]) t ∧
      Quiescent t ∧ t.mapped = true ∧ t.ioCount = 0 ∧ NoOrphan t := by
  obtain ⟨t, hrun, hquiet, hmapped, hzero⟩ : ∃ t : State,
      Run (fun s a t => step s a = .ok t) OrphanOk (init 2)
        (closing ++ [⟨1, .go true⟩, ⟨0, .completion .recv true⟩, ⟨0, .go true⟩, ⟨0, .go true⟩,
          ⟨0, .go true⟩, ⟨0, .go true⟩]) t ∧
      Quiescent t ∧ t.mapped = true ∧ t.ioCount = 0 := by
    refine ⟨_, .cons rfl nofun <| .cons rfl nofun <| .cons rfl nofun <| .cons rfl nofun <|
      .cons rfl nofun <| .cons rfl nofun <| .cons rfl nofun <| .cons rfl nofun <|
      .cons rfl nofun <| .cons rfl nofun <| .cons rfl nofun <| .cons rfl nofun <|
      .cons rfl nofun <| .cons rfl nofun <| .cons rfl nofun <| .cons rfl nofun <|
      .cons rfl nofun <| .cons rfl nofun <| .cons rfl nofun <| .cons rfl nofun .nil,
      ⟨?_, rfl, rfl, rfl⟩, rfl, rfl⟩
    rintro (_ | _ | _ | i) pc hi <;> cases hi <;> rfl
  exact ⟨t, hrun, hquiet, hmapped, hzero, run_noOrphan hrun⟩

/-- When the receive completes first, nobody does. -/
theorem sendPacket_orphans :
    ¬ ∀ n as t, Run (fun s a t => step s a = .ok t) anyStep (init n) as t → NoOrphan t := by
  intro h
  have hno := h 2 (closing ++ [⟨0, .completion .recv true⟩, ⟨0, .go true⟩, ⟨0, .go true⟩,
    ⟨1, .go true⟩]) _ (runFn_iff_run.mp rfl)
  refine hno ⟨?_, rfl, rfl, rfl⟩ rfl rfl rfl
  rintro (_ | _ | _ | i) pc hi <;> cases hi <;> rfl

end Orphans

end IocpServer
