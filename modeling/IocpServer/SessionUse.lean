import IocpServer.Struct
import IocpServer.Lib.Run
import IocpServer.Lib.Table
import IocpServer.Lib.Threads

/-!
# Who uses a session when it is freed

`OnAccept` up to the end of `RecvPost`, `SendPacket` with `TryAcquireSession`, `SendThread` with
`SendPost`, `OnClientLeave` and the worker loop, each a thread of a pool, interleaved with
`SessionDestroyThread`.  One step is one interlocked operation, one read or write of `sessionMap`
or one queue operation.

* `Uses` — a thread stands between having found (or built) the session and its last access.
* `UseOk` — the step condition: when the destroy thread reads an `ioCount` of 0, no thread uses
  the session without a reference of its own, and until its entry is cleared no lookup finds it.
* `Inv` — the references of the pool and the outstanding operations are at most `ioCount`; from
  the destroy thread's check on nobody uses the session.
* `run_safe` — **in every run whose steps meet the condition `OnRelease` frees no session in
  use.**
-/

set_option autoImplicit false

namespace IocpServer

open Lib

namespace SessionUse

/-- The fields of `SESSION` its lifetime depends on. -/
structure Session where
  sessionId : SessionId
  /-- An `unsigned long`; -1 stands for its largest value. -/
  ioCount : Int
  canSend : Bool
  isDeleteRequest : Bool
  isDisconnectRequest : Bool

/-- Whose `OVERLAPPED` a completion carries. -/
inductive IoKind where
  | recv
  | send
  deriving DecidableEq

/-- Where a thread stands.  `more`: the worker's own decrement is still to come. -/
inductive Pc where
  | idle
  /-- `OnAccept` has built `p`. -/
  | created (p : Nat)
  /-- `RecvPost`, before its increment and before `WSARecv`. -/
  | recvInc (p : Nat) (more : Bool)
  | recvPost (p : Nat) (more : Bool)
  /-- Before a decrement that asks for the release when it reaches 0. -/
  | decrement (p : Nat) (more : Bool)
  | deleteCas (p : Nat) (more : Bool)
  | deleteEnq (p : Nat) (more : Bool)
  /-- `SendPacket` has read `p` from `sessionMap`; then behind the check of the id. -/
  | sendRead (id : SessionId) (p : Nat)
  | sendInc (id : SessionId) (p : Nat)
  | sendUndo (p : Nat)
  | sendWork (id : SessionId) (p : Nat)
  | sendEnq (p : Nat)
  | sendDec (p : Nat)
  /-- `SendThread` has taken `id` from `sendRequestQueue`. -/
  | threadDequeued (id : SessionId)
  | threadRead (id : SessionId) (p : Nat)
  | threadInc (p : Nat)
  /-- Before `WSASend`. -/
  | threadPost (p : Nat)
  /-- `OnClientLeave`. -/
  | leaveRead (id : SessionId) (p : Nat)
  | leaveCas (id : SessionId) (p : Nat)
  | leaveEnq (id : SessionId)
  /-- A worker has a completion; `zero`: no bytes were transferred. -/
  | workTaken (p : Nat) (kind : IoKind) (zero : Bool)
  | workRead (p : Nat) (kind : IoKind)
  | workMapRead (p ses : Nat) (kind : IoKind)
  | workDone (p : Nat) (kind : IoKind)

/-- Where the destroy thread stands with one request. -/
inductive DestroyPc where
  | idle
  | dequeued (id : SessionId)
  | mapRead (id : SessionId) (p : Nat)
  /-- Behind the check of the id. -/
  | matched (p : Nat)
  /-- Before the check of `ioCount`. -/
  | checking (p : Nat)
  | requeue (p : Nat)
  /-- `OnRelease`. -/
  | releasing (p : Nat)
  /-- `OnRelease`, the entry of `sessionMap` is null. -/
  | unmapped (p : Nat)

structure State where
  heap : Nat → Option Session
  sessionMap : Nat → Option Nat
  sendRequestQueue : List SessionId
  destroySessionRequestQueue : List SessionId
  /-- The operations posted and not yet completed. -/
  inFlight : List (Nat × IoKind)
  threads : List Pc
  destroy : DestroyPc

inductive Fault where
  | useAfterFree
  | notEnabled
  deriving DecidableEq

/-- What an idle thread begins, or `go`: its next step.  `choice` is what the step does not
decide itself: whether a post succeeds, whether `SendThread` sends now, whether a completed send
leaves packets behind. -/
inductive Op where
  /-- `OnAccept` builds the session `p` under the id it is given. -/
  | accept (p : Nat) (id : SessionId)
  | sendPacket (id : SessionId)
  | sendThread
  | onClientLeave (id : SessionId)
  | completion (p : Nat) (kind : IoKind) (zero : Bool)
  | go (choice : Bool)

inductive Action where
  | thread (i : Nat) (op : Op)
  | destroy

def State.goto (s : State) (i : Nat) (pc : Pc) : State := { s with threads := s.threads.set i pc }

def State.write (s : State) (p : Nat) (session : Session) : State :=
  { s with heap := Function.update s.heap p (some session) }

/-- Behind `RecvPost` and behind the request for the release. -/
def Pc.next (p : Nat) (more : Bool) : Pc := if more then .decrement p false else .idle

/-- An idle thread begins. -/
def begin (s : State) (i : Nat) : Op → Except Fault State
  | .accept p id =>
    match s.heap p with
    | some _ => .error .notEnabled
    | none => .ok ((s.write p ⟨id, 0, true, false, false⟩).goto i (.created p))
  | .sendPacket id =>
    match s.sessionMap id.index with
    | none => .ok s
    | some p => .ok (s.goto i (.sendRead id p))
  | .sendThread =>
    match s.sendRequestQueue with
    | [] => .error .notEnabled
    | id :: queue => .ok ({ s with sendRequestQueue := queue }.goto i (.threadDequeued id))
  | .onClientLeave id =>
    match s.sessionMap id.index with
    | none => .ok s
    | some p => .ok (s.goto i (.leaveRead id p))
  | .completion p kind zero =>
    if (p, kind) ∈ s.inFlight then
      .ok ({ s with inFlight := s.inFlight.erase (p, kind) }.goto i (.workTaken p kind zero))
    else .error .notEnabled
  | .go _ => .error .notEnabled

/-- A step that reads and writes the session `p`. -/
def withSession (s : State) (p : Nat) (f : Session → Except Fault State) : Except Fault State :=
  match s.heap p with
  | none => .error .useAfterFree
  | some session => f session

/-- The next step of a thread at work. -/
def go (s : State) (i : Nat) (choice : Bool) : Pc → Except Fault State
  | .idle => .error .notEnabled
  | .created p => withSession s p fun session =>
    .ok ({ s with
      sessionMap := Function.update s.sessionMap session.sessionId.index (some p) }.goto i
        (.recvInc p false))
  | .recvInc p more => withSession s p fun session =>
    .ok ((s.write p { session with ioCount := session.ioCount + 1 }).goto i (.recvPost p more))
  | .recvPost p more => withSession s p fun _ =>
    if choice then
      .ok ({ s with inFlight := s.inFlight ++ [(p, IoKind.recv)] }.goto i (.next p more))
    else .ok (s.goto i (.decrement p more))
  | .decrement p more => withSession s p fun session =>
    let s := s.write p { session with ioCount := session.ioCount - 1 }
    if session.ioCount - 1 = 0 then .ok (s.goto i (.deleteCas p more))
    else .ok (s.goto i (.next p more))
  | .deleteCas p more => withSession s p fun session =>
    let s := s.write p { session with isDeleteRequest := true }
    if session.isDeleteRequest then .ok (s.goto i (.next p more))
    else .ok (s.goto i (.deleteEnq p more))
  | .deleteEnq p more => withSession s p fun session =>
    .ok ({ s with
      destroySessionRequestQueue := s.destroySessionRequestQueue ++ [session.sessionId] }.goto i
        (.next p more))
  | .sendRead id p => withSession s p fun session =>
    if session.sessionId ≠ id then .ok (s.goto i .idle) else .ok (s.goto i (.sendInc id p))
  | .sendInc id p => withSession s p fun session =>
    let s := s.write p { session with ioCount := session.ioCount + 1 }
    -- `<= 0` on an `unsigned long`
    if session.ioCount + 1 = 0 then .ok (s.goto i (.sendUndo p))
    else .ok (s.goto i (.sendWork id p))
  | .sendUndo p | .sendDec p => withSession s p fun session =>
    .ok ((s.write p { session with ioCount := session.ioCount - 1 }).goto i .idle)
  | .sendWork id p => withSession s p fun session =>
    if session.sessionId ≠ id then .ok (s.goto i .idle)
    else
      let s := s.write p { session with canSend := false }
      if session.canSend then .ok (s.goto i (.sendEnq p)) else .ok (s.goto i (.sendDec p))
  | .sendEnq p => withSession s p fun session =>
    .ok ({ s with sendRequestQueue := s.sendRequestQueue ++ [session.sessionId] }.goto i
      (.sendDec p))
  | .threadDequeued id =>
    match s.sessionMap id.index with
    | none => .ok (s.goto i .idle)
    | some p => .ok (s.goto i (.threadRead id p))
  | .threadRead id p => withSession s p fun session =>
    if session.sessionId ≠ id then .ok (s.goto i .idle) else .ok (s.goto i (.threadInc p))
  | .threadInc p => withSession s p fun session =>
    if choice then
      .ok ((s.write p { session with ioCount := session.ioCount + 1 }).goto i (.threadPost p))
    else
      .ok ({ s with sendRequestQueue := s.sendRequestQueue ++ [session.sessionId] }.goto i .idle)
  | .threadPost p => withSession s p fun _ =>
    if choice then .ok ({ s with inFlight := s.inFlight ++ [(p, IoKind.send)] }.goto i .idle)
    else .ok (s.goto i (.decrement p false))
  | .leaveRead id p => withSession s p fun session =>
    if session.sessionId ≠ id then .ok (s.goto i .idle) else .ok (s.goto i (.leaveCas id p))
  | .leaveCas id p => withSession s p fun session =>
    let s := s.write p { session with isDeleteRequest := true }
    if session.isDeleteRequest then .ok (s.goto i .idle) else .ok (s.goto i (.leaveEnq id))
  | .leaveEnq id =>
    .ok ({ s with destroySessionRequestQueue := s.destroySessionRequestQueue ++ [id] }.goto i .idle)
  | .workTaken p kind zero => withSession s p fun session =>
    if session.isDeleteRequest then .ok (s.goto i (.decrement p false))
    else if zero then
      match kind with
      | .recv => .ok (s.goto i (.decrement p false))
      | .send => .ok ((s.write p { session with canSend := true }).goto i (.decrement p false))
    else .ok (s.goto i (.workRead p kind))
  | .workRead p kind => withSession s p fun session =>
    match s.sessionMap session.sessionId.index with
    -- `continue` leaves the reference behind
    | none => .ok (s.goto i .idle)
    | some ses => .ok (s.goto i (.workMapRead p ses kind))
  | .workMapRead p ses kind => withSession s p fun session => withSession s ses fun mapped =>
    if session.sessionId ≠ mapped.sessionId then .ok (s.goto i .idle)
    else .ok (s.goto i (.workDone p kind))
  | .workDone p kind => withSession s p fun session =>
    match kind with
    | .recv => .ok (s.goto i (.recvInc p true))
    | .send =>
      if choice then
        .ok ({ s with sendRequestQueue := s.sendRequestQueue ++ [session.sessionId] }.goto i
          (.decrement p false))
      else .ok ((s.write p { session with canSend := true }).goto i (.decrement p false))

def threadStep (s : State) (i : Nat) (op : Op) : Except Fault State :=
  match s.threads[i]? with
  | none => .error .notEnabled
  | some pc =>
    match pc, op with
    | .idle, op => begin s i op
    | pc, .go choice => go s i choice pc
    | _, _ => .error .notEnabled

/-- The next step of the destroy thread. -/
def destroyStep (s : State) : Except Fault State :=
  match s.destroy with
  | .idle =>
    match s.destroySessionRequestQueue with
    | [] => .error .notEnabled
    | id :: queue => .ok { s with destroySessionRequestQueue := queue, destroy := .dequeued id }
  | .dequeued id =>
    match s.sessionMap id.index with
    | none => .ok { s with destroy := .idle }
    | some p => .ok { s with destroy := .mapRead id p }
  | .mapRead id p => withSession s p fun session =>
    if session.sessionId ≠ id then .ok { s with destroy := .idle }
    else .ok { s with destroy := .matched p }
  | .matched p => withSession s p fun session =>
    .ok { s.write p { session with isDisconnectRequest := true } with destroy := .checking p }
  | .checking p => withSession s p fun session =>
    if session.ioCount ≠ 0 then .ok { s with destroy := .requeue p }
    else .ok { s with destroy := .releasing p }
  | .requeue p => withSession s p fun session =>
    .ok { s with
      destroySessionRequestQueue := s.destroySessionRequestQueue ++ [session.sessionId]
      destroy := .idle }
  | .releasing p => withSession s p fun session =>
    .ok { s with
      sessionMap := Function.update s.sessionMap session.sessionId.index none
      destroy := .unmapped p }
  | .unmapped p => withSession s p fun _ =>
    .ok { s with heap := Function.update s.heap p none, destroy := .idle }

def step (s : State) : Action → Except Fault State
  | .thread i op => threadStep s i op
  | .destroy => destroyStep s

/-- A server without sessions whose `n` threads are idle. -/
def init (n : Nat) : State where
  heap := fun _ => none
  sessionMap := fun _ => none
  sendRequestQueue := []
  destroySessionRequestQueue := []
  inFlight := []
  threads := List.replicate n .idle
  destroy := .idle

/-! ## The promise and its condition -/

/-- The ids of the allocated sessions. -/
def State.ids (s : State) (p : Nat) : Option SessionId := (s.heap p).map Session.sessionId

/-- The session a thread has built, or found with its id checked, and will access again. -/
def Pc.ptr : Pc → Option Nat
  | .created p | .recvInc p _ | .recvPost p _ | .decrement p _ | .deleteCas p _ | .deleteEnq p _
  | .sendInc _ p | .sendUndo p | .sendWork _ p | .sendEnq p | .sendDec p | .threadInc p
  | .threadPost p | .leaveCas _ p | .workTaken p _ _ | .workRead p _ | .workMapRead p _ _
  | .workDone p _ => some p
  | _ => none

/-- What the thread holds of that session's `ioCount`. -/
def Pc.weight : Pc → Nat
  | .recvInc _ more | .deleteCas _ more | .deleteEnq _ more => more.toNat
  | .recvPost _ more | .decrement _ more => more.toNat + 1
  | .sendUndo _ | .sendWork _ _ | .sendEnq _ | .sendDec _ | .threadPost _
  | .workTaken _ _ _ | .workRead _ _ | .workMapRead _ _ _ | .workDone _ _ => 1
  | _ => 0

/-- The references to `q` a thread holds. -/
def Pc.refs (q : Nat) (pc : Pc) : Nat := if pc.ptr = some q then pc.weight else 0

/-- A thread stands between having built `q`, or having read it from `sessionMap` with a matching
id, and its last access to it. -/
def Uses (ids : Nat → Option SessionId) (q : Nat) : Pc → Prop
  | .sendRead id p | .threadRead id p | .leaveRead id p => p = q ∧ ids q = some id
  | .workMapRead p ses _ => p = q ∨ (ses = q ∧ ids q = ids p)
  | pc => pc.ptr = some q

/-- `OnRelease` frees no session in use. -/
def Safe (s : State) : Prop :=
  ∀ p, s.destroy = .unmapped p → ∀ (i : Nat) pc, s.threads[i]? = some pc → ¬ Uses s.ids p pc

/-- The next step of thread `i` looks `q` up in `sessionMap` under its id. -/
def Finds (s : State) (i : Nat) (op : Op) (q : Nat) : Prop :=
  ∃ id : SessionId, s.sessionMap id.index = some q ∧ s.ids q = some id ∧
    (op = .sendPacket id ∨ op = .onClientLeave id ∨ s.threads[i]? = some (.threadDequeued id) ∨
      ∃ p kind, s.threads[i]? = some (.workRead p kind) ∧ s.ids p = some id)

/-- The step condition. -/
def UseOk (s : State) : Action → Prop
  | .thread i op => ∀ q, s.destroy = .releasing q → ¬ Finds s i op q
  | .destroy =>
    ∀ p session, s.destroy = .checking p → s.heap p = some session → session.ioCount = 0 →
      ∀ (i : Nat) pc, s.threads[i]? = some pc → Uses s.ids p pc → pc.refs p ≠ 0

/-! ## The invariant -/

/-- The operations outstanding on `q`. -/
def State.posted (s : State) (q : Nat) : Nat := s.inFlight.countP fun io => io.1 = q

def State.held (s : State) (q : Nat) : Nat := total (Pc.refs q) s.threads + s.posted q

def State.count (s : State) (q : Nat) : Int := ((s.heap q).map Session.ioCount).getD 0

/-- Nobody uses `q` and nothing is outstanding on it. -/
structure Quiet (s : State) (q : Nat) : Prop where
  allocated : s.ids q ≠ none
  unused : ∀ (i : Nat) pc, s.threads[i]? = some pc → ¬ Uses s.ids q pc
  posted : s.posted q = 0

def DestroyOk (s : State) : DestroyPc → Prop
  | .releasing p => Quiet s p
  | .unmapped p => Quiet s p ∧ ∀ j, s.sessionMap j ≠ some p
  | _ => True

structure Inv (s : State) : Prop where
  balance : ∀ q, (s.held q : Int) ≤ s.count q
  mapped : ∀ j q, s.sessionMap j = some q → ∃ id, s.ids q = some id ∧ id.index = j
  destroy : DestroyOk s s.destroy

variable {s t : State} {a : Action} {i p q : Nat} {pc pc' : Pc} {session session' : Session}
  {ids : Nat → Option SessionId}

theorem ids_of_heap (h : s.heap p = some session) : s.ids p = some session.sessionId := by
  rw [State.ids, h]; rfl

theorem count_of_heap (h : s.heap p = some session) : s.count p = session.ioCount := by
  rw [State.count, h]; rfl

theorem uses_of_ptr (h : pc.ptr = some q) : Uses ids q pc := by
  cases pc with
  | workMapRead p ses kind => exact Or.inl (Option.some.inj h)
  | sendRead | threadRead | leaveRead => cases h
  | _ => exact h

theorem refs_of_ptr (h : pc.ptr = some p) : pc.refs p = pc.weight := if_pos h

theorem refs_congr (h : pc.ptr = some p) (h' : pc'.ptr = some p) (hw : pc.weight = pc'.weight) :
    pc.refs p = pc'.refs p := by
  rw [refs_of_ptr h, refs_of_ptr h', hw]

/-- A thread holds references only to what it uses. -/
theorem refs_eq_zero (h : ¬ Uses ids q pc) : pc.refs q = 0 := if_neg fun hp => h (uses_of_ptr hp)

theorem Quiet.refs (Q : Quiet s q) (hi : s.threads[i]? = some pc) : pc.refs q = 0 :=
  refs_eq_zero (Q.unused i pc hi)

/-! ### One thread moves -/

/-- What a step of thread `i` from `pc` to `pc'` can change. -/
structure Moves (s t : State) (i : Nat) (pc pc' : Pc) : Prop where
  threads : t.threads = s.threads.set i pc'
  destroy : t.destroy = s.destroy
  ids : t.ids = s.ids
  /-- `OnAccept` maps the session it has built, under its id. -/
  map : ∀ j q, t.sessionMap j = some q → s.sessionMap j = some q ∨
    pc.ptr = some q ∧ ∃ id, s.ids q = some id ∧ id.index = j
  /-- What the thread takes is counted. -/
  count : ∀ q, (pc'.refs q : Int) + t.posted q + s.count q ≤ pc.refs q + s.posted q + t.count q
  /-- What the thread uses it used before, took from a completion or looked up. -/
  uses : ∀ q, Uses s.ids q pc' → Uses s.ids q pc ∨ s.posted q ≠ 0 ∨
    s.destroy ≠ .releasing q ∧ ∃ j, s.sessionMap j = some q
  posted : ∀ q, t.posted q ≠ 0 → s.posted q ≠ 0 ∨ Uses s.ids q pc

theorem Inv.moves (I : Inv s) (hi : s.threads[i]? = some pc) (m : Moves s t i pc pc') : Inv t := by
  have hquiet : ∀ q, Quiet s q → (s.destroy ≠ .releasing q → ∀ j, s.sessionMap j ≠ some q) →
      Quiet t q := by
    intro q Q hmap
    refine ⟨m.ids ▸ Q.allocated, fun j pc'' hj => ?_, ?_⟩
    · rw [m.ids]
      rw [m.threads] at hj
      obtain ⟨-, rfl⟩ | ⟨-, hj⟩ := getElem?_set_cases hj
      · intro huse
        rcases m.uses q huse with h | h | ⟨h, k, hk⟩
        · exact Q.unused i pc hi h
        · exact h Q.posted
        · exact hmap h k hk
      · exact Q.unused j pc'' hj
    · by_contra hpost
      rcases m.posted q hpost with h | h
      · exact h Q.posted
      · exact Q.unused i pc hi h
  refine ⟨fun q => ?_, fun j q hj => ?_, ?_⟩
  · have hb := I.balance q
    have hc := m.count q
    have ht := @total_set _ (Pc.refs q) _ _ _ pc' hi
    simp only [State.held, m.threads] at hb ⊢
    omega
  · rw [m.ids]
    rcases m.map j q hj with h | ⟨-, h⟩
    · exact I.mapped j q h
    · exact h
  · have hd := I.destroy
    rw [m.destroy]
    cases hpc : s.destroy with
    | releasing p =>
      rw [hpc] at hd
      exact hquiet p hd fun h => absurd hpc h
    | unmapped p =>
      rw [hpc] at hd
      refine ⟨hquiet p hd.1 fun _ => hd.2, fun j hj => ?_⟩
      rcases m.map j p hj with h | ⟨h, -⟩
      · exact hd.2 j h
      · exact hd.1.unused i pc hi (uses_of_ptr h)
    | _ => trivial

theorem refs_le (huse : ∀ q, Uses ids q pc' → q = p)
    (hcount : pc'.refs p ≤ pc.refs p) : pc'.refs q ≤ pc.refs q := by
  by_cases hq : q = p
  · exact hq ▸ hcount
  · rw [refs_eq_zero fun h => hq (huse q h)]
    exact Nat.zero_le _

/-- A step that touches neither the heap nor the operations outstanding. -/
theorem Moves.pass (hheap : t.heap = s.heap) (hthreads : t.threads = s.threads.set i pc')
    (hdestroy : t.destroy = s.destroy) (hflight : t.inFlight = s.inFlight)
    (hmap : t.sessionMap = s.sessionMap) (hrefs : ∀ q, pc'.refs q ≤ pc.refs q)
    (huse : ∀ q, Uses s.ids q pc' → Uses s.ids q pc ∨
      s.destroy ≠ .releasing q ∧ ∃ j, s.sessionMap j = some q) : Moves s t i pc pc' := by
  have hposted : t.posted = s.posted := by
    funext q; rw [State.posted, State.posted, hflight]
  refine ⟨hthreads, hdestroy, ?_, fun j q hj => ?_, fun q => ?_, fun q h => ?_, fun q h => ?_⟩
  · funext q; rw [State.ids, State.ids, hheap]
  · exact Or.inl (hmap ▸ hj)
  · have := hrefs q
    rw [hposted, State.count, State.count, hheap]
    omega
  · rcases huse q h with h | h
    · exact Or.inl h
    · exact Or.inr (Or.inr h)
  · exact Or.inl (hposted ▸ h)

/-- A step of a thread at work on `p` that leaves the heap as it is. -/
theorem Moves.stay {sendRequestQueue destroyRequestQueue : List SessionId}
    (hptr : pc.ptr = some p) (huse : ∀ q, Uses s.ids q pc' → q = p)
    (hcount : pc'.refs p ≤ pc.refs p) :
    Moves s ({ s with
      sendRequestQueue := sendRequestQueue
      destroySessionRequestQueue := destroyRequestQueue }.goto i pc') i pc pc' :=
  .pass rfl rfl rfl rfl rfl (fun _ => refs_le huse hcount) fun q h => by
    obtain rfl := huse q h
    exact Or.inl (uses_of_ptr hptr)

/-- It holds afterwards what it held before. -/
theorem Moves.onward {sendRequestQueue : List SessionId} (hptr : pc.ptr = some p)
    (hptr' : pc'.ptr = some p) (hw : pc'.weight = pc.weight)
    (huse : ∀ q, Uses s.ids q pc' → q = p) :
    Moves s ({ s with sendRequestQueue := sendRequestQueue }.goto i pc') i pc pc' :=
  .stay hptr huse (refs_congr hptr' hptr hw).le

/-- A step of a thread at work on `p` that writes `p`. -/
theorem Moves.write (hptr : pc.ptr = some p) (hp : s.heap p = some session)
    (hid : session'.sessionId = session.sessionId) (huse : ∀ q, Uses s.ids q pc' → q = p)
    (hcount : (pc'.refs p : Int) + session.ioCount ≤ pc.refs p + session'.ioCount) :
    Moves s ((s.write p session').goto i pc') i pc pc' := by
  refine ⟨rfl, rfl, ?_, fun _ _ => Or.inl, fun q => ?_, fun q h => ?_, fun _ => Or.inl⟩
  · funext q
    by_cases hq : q = p
    · subst hq
      simp only [State.ids, State.goto, State.write, Function.update_self, hp, Option.map_some, hid]
    · simp only [State.ids, State.goto, State.write, Function.update_of_ne hq]
  · by_cases hq : q = p
    · subst hq
      have hc : ((s.write q session').goto i pc').count q = session'.ioCount :=
        count_of_heap (Function.update_self ..)
      rw [count_of_heap hp, hc]
      show (pc'.refs q : Int) + s.posted q + _ ≤ _
      omega
    · have hc : ((s.write p session').goto i pc').count q = s.count q := by
        simp only [State.count, State.goto, State.write, Function.update_of_ne hq]
      rw [hc, refs_eq_zero fun h => hq (huse q h)]
      show ((0 : Nat) : Int) + s.posted q + _ ≤ _
      omega
  · obtain rfl := huse q h
    exact Or.inl (uses_of_ptr hptr)

/-- It writes a flag of `p` and holds afterwards what it held before. -/
theorem Moves.mark (hptr : pc.ptr = some p) (hptr' : pc'.ptr = some p)
    (hw : pc'.weight = pc.weight) (huse : ∀ q, Uses s.ids q pc' → q = p)
    (hp : s.heap p = some session) (hid : session'.sessionId = session.sessionId)
    (hcount : session'.ioCount = session.ioCount) :
    Moves s ((s.write p session').goto i pc') i pc pc' := by
  refine .write hptr hp hid huse ?_
  rw [refs_congr hptr' hptr hw, hcount]

/-- The thread hands one of its references to an operation it posts. -/
theorem Moves.post (kind : IoKind) (hptr : pc.ptr = some p) (huse : ∀ q, Uses s.ids q pc' → q = p)
    (hcount : pc'.refs p + 1 ≤ pc.refs p) :
    Moves s ({ s with inFlight := s.inFlight ++ [(p, kind)] }.goto i pc') i pc pc' := by
  have hposted : ∀ q, ({ s with inFlight := s.inFlight ++ [(p, kind)] }.goto i pc' : State).posted q =
      s.posted q + if p = q then 1 else 0 := by
    intro q
    simp only [State.posted, State.goto, List.countP_append, List.countP_singleton,
      decide_eq_true_eq]
  refine ⟨rfl, rfl, rfl, fun _ _ => Or.inl, fun q => ?_, fun q h => ?_, fun q h => ?_⟩
  · rw [hposted]
    show (pc'.refs q : Int) + _ + s.count q ≤ _ + s.count q
    by_cases hq : q = p
    · subst hq
      rw [if_pos rfl]
      omega
    · rw [if_neg (Ne.symm hq), refs_eq_zero fun h => hq (huse q h)]
      omega
  · obtain rfl := huse q h
    exact Or.inl (uses_of_ptr hptr)
  · by_cases hq : p = q
    · subst hq
      exact Or.inr (uses_of_ptr hptr)
    · rw [hposted, if_neg hq] at h
      exact Or.inl h

/-- A worker takes the reference of a completed operation. -/
theorem Moves.take {kind : IoKind} {zero : Bool} (h : (p, kind) ∈ s.inFlight) :
    Moves s ({ s with inFlight := s.inFlight.erase (p, kind) }.goto i (.workTaken p kind zero)) i
      .idle (.workTaken p kind zero) := by
  have hposted : ∀ q, ({ s with inFlight := s.inFlight.erase (p, kind) }.goto i
      (.workTaken p kind zero) : State).posted q + (if p = q then 1 else 0) = s.posted q := by
    intro q
    have := (List.perm_cons_erase h).countP_eq fun io => decide (io.1 = q)
    rw [List.countP_cons] at this
    simp only [State.posted, State.goto, this, decide_eq_true_eq]
  refine ⟨rfl, rfl, rfl, fun _ _ => Or.inl, fun q => ?_, fun q hq => ?_, fun q hq => ?_⟩
  · have := hposted q
    show _ + _ + s.count q ≤ _ + _ + s.count q
    have hrefs : (Pc.workTaken p kind zero).refs q = if p = q then 1 else 0 := by
      simp only [Pc.refs, Pc.ptr, Pc.weight, Option.some.injEq]
    rw [hrefs]
    omega
  · obtain rfl : p = q := Option.some.inj hq
    have := hposted p
    rw [if_pos rfl] at this
    exact Or.inr (Or.inl (by omega))
  · have := hposted q
    exact Or.inl (by omega)

theorem uses_next {more : Bool} (h : Uses ids q (.next p more)) : q = p := by
  cases more with
  | false => cases h
  | true => exact (Option.some.inj h).symm

theorem refs_next {more : Bool} : (Pc.next p more).refs p = more.toNat := by
  cases more with
  | false => rfl
  | true => exact if_pos rfl

theorem withSession_inv {f : Session → Except Fault State} (h : withSession s p f = .ok t) :
    ∃ session, s.heap p = some session ∧ f session = .ok t := by
  unfold withSession at h
  split at h
  · cases h
  · rename_i session hp
    exact ⟨session, hp, h⟩

/-- A thread gives up what it was doing. -/
theorem Moves.idle : Moves s (s.goto i .idle) i pc .idle :=
  .pass rfl rfl rfl rfl rfl (fun _ => Nat.zero_le _) nofun

/-- The id of the session a thread has read from `sessionMap` matches. -/
theorem Moves.found (hweight : pc'.weight = 0) (huse' : ∀ q, Uses s.ids q pc' → q = p)
    (huse : Uses s.ids p pc) : Moves s (s.goto i pc') i pc pc' := by
  refine .pass rfl rfl rfl rfl rfl (fun q => ?_) fun q h => ?_
  · rw [Pc.refs, hweight, ite_self]
    exact Nat.zero_le _
  · obtain rfl := huse' q h
    exact Or.inl huse

/-- What every step of a thread at work does. -/
theorem go_moves {choice : Bool} (hi : s.threads[i]? = some pc)
    (hok : UseOk s (.thread i (.go choice))) (h : go s i choice pc = .ok t) :
    ∃ pc', Moves s t i pc pc' := by
  cases pc with
  | idle => cases h
  | created p =>
    obtain ⟨session, hp, h⟩ := withSession_inv h
    cases h
    refine ⟨_, rfl, rfl, rfl, fun j q hj => ?_, fun q => ?_, fun q h => Or.inl h, fun _ => Or.inl⟩
    · rcases update_some_eq_some.mp hj with ⟨rfl, rfl⟩ | ⟨-, hj⟩
      · exact Or.inr ⟨rfl, _, ids_of_heap hp, rfl⟩
      · exact Or.inl hj
    · exact le_refl _
  | recvInc p more =>
    obtain ⟨session, hp, h⟩ := withSession_inv h
    cases h
    refine ⟨_, .write rfl hp rfl (fun q h => (Option.some.inj h).symm) ?_⟩
    rw [refs_of_ptr rfl, refs_of_ptr rfl]
    simp only [Pc.weight]
    omega
  | recvPost p more =>
    obtain ⟨session, hp, h⟩ := withSession_inv h
    split at h
    · cases h
      refine ⟨_, .post .recv rfl (fun q h => uses_next h) ?_⟩
      rw [refs_next, refs_of_ptr rfl]
      exact le_refl _
    · cases h
      exact ⟨_, .onward rfl rfl rfl fun q h => (Option.some.inj h).symm⟩
  | decrement p more =>
    obtain ⟨session, hp, h⟩ := withSession_inv h
    dsimp only at h
    split at h
    · cases h
      refine ⟨_, .write rfl hp rfl (fun q h => (Option.some.inj h).symm) ?_⟩
      rw [refs_of_ptr rfl, refs_of_ptr rfl]
      simp only [Pc.weight]
      omega
    · cases h
      refine ⟨_, .write rfl hp rfl (fun q h => uses_next h) ?_⟩
      rw [refs_next, refs_of_ptr rfl]
      simp only [Pc.weight]
      omega
  | deleteCas p more =>
    obtain ⟨session, hp, h⟩ := withSession_inv h
    dsimp only at h
    split at h
    · cases h
      refine ⟨_, .write rfl hp rfl (fun q h => uses_next h) ?_⟩
      rw [refs_next, refs_of_ptr rfl]
      exact le_refl _
    · cases h
      exact ⟨_, .mark rfl rfl rfl (fun q h => (Option.some.inj h).symm) hp rfl rfl⟩
  | deleteEnq p more =>
    obtain ⟨session, hp, h⟩ := withSession_inv h
    cases h
    refine ⟨_, .stay rfl (fun q h => uses_next h) ?_⟩
    rw [refs_next, refs_of_ptr rfl]
    exact le_refl _
  | sendRead id p | threadRead id p | leaveRead id p =>
    obtain ⟨session, hp, h⟩ := withSession_inv h
    split at h
    · cases h; exact ⟨_, .idle⟩
    · rename_i hid
      cases h
      rw [not_not] at hid
      exact ⟨_, .found rfl (fun q h => (Option.some.inj h).symm) ⟨rfl, hid ▸ ids_of_heap hp⟩⟩
  | sendInc id p =>
    obtain ⟨session, hp, h⟩ := withSession_inv h
    dsimp only at h
    split at h
    all_goals
      cases h
      refine ⟨_, .write rfl hp rfl (fun q h => (Option.some.inj h).symm) ?_⟩
      rw [refs_of_ptr rfl, refs_of_ptr rfl]
      simp only [Pc.weight]
      omega
  | sendUndo p | sendDec p =>
    obtain ⟨session, hp, h⟩ := withSession_inv h
    cases h
    refine ⟨_, .write rfl hp rfl nofun ?_⟩
    simp only [Pc.refs, Pc.ptr, Pc.weight, reduceCtorEq, if_true, if_false]
    omega
  | sendWork id p =>
    obtain ⟨session, hp, h⟩ := withSession_inv h
    split at h
    · cases h; exact ⟨_, .idle⟩
    · dsimp only at h
      split at h
      all_goals
        cases h
        exact ⟨_, .mark rfl rfl rfl (fun q h => (Option.some.inj h).symm) hp rfl rfl⟩
  | sendEnq p =>
    obtain ⟨session, hp, h⟩ := withSession_inv h
    cases h
    exact ⟨_, .onward rfl rfl rfl fun q h => (Option.some.inj h).symm⟩
  | threadDequeued id =>
    simp only [go] at h
    split at h
    · cases h; exact ⟨_, .idle⟩
    · rename_i p hmap
      cases h
      refine ⟨_, .pass rfl rfl rfl rfl rfl (fun q => Nat.zero_le _) fun q h => Or.inr ?_⟩
      obtain ⟨rfl, hid⟩ := h
      exact ⟨fun hd => hok p hd ⟨id, hmap, hid, Or.inr (Or.inr (Or.inl hi))⟩, _, hmap⟩
  | threadInc p =>
    obtain ⟨session, hp, h⟩ := withSession_inv h
    split at h
    · cases h
      refine ⟨_, .write rfl hp rfl (fun q h => (Option.some.inj h).symm) ?_⟩
      rw [refs_of_ptr rfl, refs_of_ptr rfl]
      simp only [Pc.weight]
      omega
    · cases h
      exact ⟨.idle, .stay rfl nofun (Nat.zero_le _)⟩
  | threadPost p =>
    obtain ⟨session, hp, h⟩ := withSession_inv h
    split at h
    · cases h
      refine ⟨.idle, .post .send rfl nofun ?_⟩
      simp only [Pc.refs, Pc.ptr, Pc.weight, reduceCtorEq, if_true, if_false]
      omega
    · cases h
      exact ⟨_, .onward rfl rfl rfl fun q h => (Option.some.inj h).symm⟩
  | leaveCas id p =>
    obtain ⟨session, hp, h⟩ := withSession_inv h
    dsimp only at h
    split at h
    all_goals
      cases h
      exact ⟨_, .write rfl hp rfl nofun (Int.le_of_eq (by simp [Pc.refs, Pc.ptr, Pc.weight]))⟩
  | leaveEnq id =>
    cases h
    exact ⟨_, .pass rfl rfl rfl rfl rfl (fun _ => Nat.zero_le _) nofun⟩
  | workTaken p kind zero =>
    obtain ⟨session, hp, h⟩ := withSession_inv h
    split at h
    · cases h
      exact ⟨_, .onward rfl rfl rfl fun q h => (Option.some.inj h).symm⟩
    · split at h
      · split at h
        · cases h
          exact ⟨_, .onward rfl rfl rfl fun q h => (Option.some.inj h).symm⟩
        · cases h
          exact ⟨_, .mark rfl rfl rfl (fun q h => (Option.some.inj h).symm) hp rfl rfl⟩
      · cases h
        exact ⟨_, .onward rfl rfl rfl fun q h => (Option.some.inj h).symm⟩
  | workRead p kind =>
    obtain ⟨session, hp, h⟩ := withSession_inv h
    split at h
    · cases h; exact ⟨_, .idle⟩
    · rename_i ses hmap
      cases h
      refine ⟨_, .pass rfl rfl rfl rfl rfl (fun q => le_refl _) fun q h => ?_⟩
      rcases h with rfl | ⟨rfl, hid⟩
      · exact Or.inl rfl
      · have hid' := ids_of_heap hp
        exact Or.inr ⟨fun hd => hok ses hd ⟨_, hmap, hid.trans hid',
          Or.inr (Or.inr (Or.inr ⟨p, kind, hi, hid'⟩))⟩, _, hmap⟩
  | workMapRead p ses kind =>
    obtain ⟨session, hp, h⟩ := withSession_inv h
    obtain ⟨mapped, hses, h⟩ := withSession_inv h
    split at h
    · cases h; exact ⟨_, .idle⟩
    · cases h
      exact ⟨_, .onward rfl rfl rfl fun q h => (Option.some.inj h).symm⟩
  | workDone p kind =>
    obtain ⟨session, hp, h⟩ := withSession_inv h
    split at h
    · cases h
      exact ⟨_, .onward rfl rfl rfl fun q h => (Option.some.inj h).symm⟩
    · split at h
      · cases h
        exact ⟨_, .onward rfl rfl rfl fun q h => (Option.some.inj h).symm⟩
      · cases h
        exact ⟨_, .mark rfl rfl rfl (fun q h => (Option.some.inj h).symm) hp rfl rfl⟩

/-! ### A thread begins -/

theorem Inv.refs_eq_zero (I : Inv s) (hp : s.heap p = none) (hi : s.threads[i]? = some pc) :
    pc.refs p = 0 := by
  have hb := I.balance p
  have hle := @holds_le_total _ (Pc.refs p) _ _ _ hi
  simp only [State.held, State.count, hp, Option.map_none, Option.getD_none] at hb
  omega

theorem Uses.congr {ids' : Nat → Option SessionId} (h : Uses ids' q pc) (hq : ids' q = ids q)
    (hother : ∀ p ses kind, pc = .workMapRead p ses kind → ids' p = ids p) : Uses ids q pc := by
  cases pc with
  | sendRead | threadRead | leaveRead => exact ⟨h.1, hq ▸ h.2⟩
  | workMapRead p ses kind =>
    rcases h with h | ⟨h, hid⟩
    · exact Or.inl h
    · exact Or.inr ⟨h, by rw [← hq, hid, hother p ses kind rfl]⟩
  | _ => exact h

/-- `OnAccept` builds a session. -/
theorem Inv.accept (I : Inv s) (hi : s.threads[i]? = some .idle) (hp : s.heap p = none)
    (hzero : session.ioCount = 0) : Inv ((s.write p session).goto i (.created p)) := by
  have hnone : s.ids p = none := by rw [State.ids, hp]; rfl
  have hids : ∀ q, q ≠ p → ((s.write p session).goto i (.created p)).ids q = s.ids q := fun q hq => by
    simp only [State.ids, State.goto, State.write, Function.update_of_ne hq]
  have hquiet : ∀ q, Quiet s q → Quiet ((s.write p session).goto i (.created p)) q := by
    intro q Q
    have hq : q ≠ p := fun h => Q.allocated (h ▸ hnone)
    refine ⟨hids q hq ▸ Q.allocated, fun j pc hj huse => ?_, Q.posted⟩
    obtain ⟨-, rfl⟩ | ⟨-, hj⟩ := getElem?_set_cases hj
    · exact hq (Option.some.inj huse).symm
    · refine Q.unused j pc hj (huse.congr (hids q hq) fun p' ses kind hpc => hids p' ?_)
      -- a worker's session is allocated
      rintro rfl
      have h := I.refs_eq_zero hp hj
      rw [hpc, refs_of_ptr rfl] at h
      cases h
  refine ⟨fun q => ?_, fun j q hj => ?_, ?_⟩
  · have hb := I.balance q
    have ht := @total_set _ (Pc.refs q) _ _ _ (Pc.created p) hi
    have hnew : (Pc.created p).refs q = 0 := ite_self 0
    have hidle : Pc.idle.refs q = 0 := rfl
    have hcount : ((s.write p session).goto i (.created p)).count q = s.count q := by
      by_cases hq : q = p
      · subst hq
        have hnew : ((s.write q session).goto i (.created q)).heap q = some session :=
          Function.update_self ..
        rw [count_of_heap hnew, State.count, hp, hzero]
        rfl
      · simp only [State.count, State.goto, State.write, Function.update_of_ne hq]
    rw [hcount]
    simp only [State.held, State.goto, State.write] at hb ⊢
    show ((_ + s.posted q : Nat) : Int) ≤ _
    omega
  · obtain ⟨id, hid, hindex⟩ := I.mapped j q hj
    exact ⟨id, (hids q fun h => by rw [h, hnone] at hid; cases hid).trans hid, hindex⟩
  · have hd := I.destroy
    show DestroyOk _ s.destroy
    cases hpc : s.destroy with
    | releasing q => rw [hpc] at hd; exact hquiet q hd
    | unmapped q => rw [hpc] at hd; exact ⟨hquiet q hd.1, hd.2⟩
    | _ => trivial

theorem Inv.begin {op : Op} (I : Inv s) (hi : s.threads[i]? = some .idle)
    (hok : UseOk s (.thread i op)) (h : SessionUse.begin s i op = .ok t) : Inv t := by
  cases op with
  | accept p id =>
    simp only [SessionUse.begin] at h
    split at h
    · cases h
    · rename_i hp
      cases h
      exact I.accept hi hp rfl
  | sendPacket id =>
    simp only [SessionUse.begin] at h
    split at h
    · cases h; exact I
    · rename_i p hmap
      cases h
      refine I.moves hi (.pass rfl rfl rfl rfl rfl (fun _ => Nat.zero_le _) fun q h => Or.inr ?_)
      obtain ⟨rfl, hid⟩ := h
      exact ⟨fun hd => hok p hd ⟨id, hmap, hid, Or.inl rfl⟩, _, hmap⟩
  | sendThread =>
    simp only [SessionUse.begin] at h
    split at h
    · cases h
    · cases h
      exact I.moves hi (.pass rfl rfl rfl rfl rfl (fun _ => Nat.zero_le _) nofun)
  | onClientLeave id =>
    simp only [SessionUse.begin] at h
    split at h
    · cases h; exact I
    · rename_i p hmap
      cases h
      refine I.moves hi (.pass rfl rfl rfl rfl rfl (fun _ => Nat.zero_le _) fun q h => Or.inr ?_)
      obtain ⟨rfl, hid⟩ := h
      exact ⟨fun hd => hok p hd ⟨id, hmap, hid, Or.inr (Or.inl rfl)⟩, _, hmap⟩
  | completion p kind zero =>
    simp only [SessionUse.begin] at h
    split at h
    · rename_i hmem
      cases h
      exact I.moves hi (.take hmem)
    · cases h
  | go choice => cases h

theorem Inv.threadStep {op : Op} (I : Inv s) (hok : UseOk s (.thread i op))
    (h : SessionUse.threadStep s i op = .ok t) : Inv t := by
  unfold SessionUse.threadStep at h
  split at h
  · cases h
  · rename_i pc hi
    split at h
    · exact I.begin hi hok h
    · obtain ⟨pc', m⟩ := go_moves hi hok h
      exact I.moves hi m
    · cases h

/-! ### The destroy thread -/

theorem Quiet.held_eq_zero (Q : Quiet s p) : s.held p = 0 := by
  rw [State.held, Q.posted, total_eq_zero fun pc hmem => ?_]
  obtain ⟨i, hi⟩ := List.mem_iff_getElem?.mp hmem
  exact Q.refs hi

/-- Behind the check of `ioCount` nobody uses the session. -/
theorem Inv.quiet (I : Inv s) (hp : s.heap p = some session) (hzero : session.ioCount = 0)
    (huse : ∀ (i : Nat) pc, s.threads[i]? = some pc → Uses s.ids p pc → pc.refs p ≠ 0) :
    Quiet s p := by
  have hb := I.balance p
  rw [count_of_heap hp, hzero, State.held] at hb
  refine ⟨by rw [ids_of_heap hp]; nofun, fun i pc hi h => ?_, by omega⟩
  have hle := @holds_le_total _ (Pc.refs p) _ _ _ hi
  exact huse i pc hi h (by omega)

theorem Inv.setDestroy (I : Inv s) (destroy : DestroyPc) (hd : DestroyOk s destroy)
    (queue : List SessionId) :
    Inv { s with destroySessionRequestQueue := queue, destroy := destroy } := by
  refine ⟨I.balance, I.mapped, ?_⟩
  cases destroy with
  | releasing p => exact ⟨hd.1, hd.2, hd.3⟩
  | unmapped p => exact ⟨⟨hd.1.1, hd.1.2, hd.1.3⟩, hd.2⟩
  | _ => trivial

/-- The session is disconnected: neither the ids nor the counts change. -/
theorem Inv.disconnect (I : Inv s) (hp : s.heap p = some session) :
    Inv { s.write p { session with isDisconnectRequest := true } with destroy := .checking p } := by
  have hheap : ∀ q, ((s.write p { session with isDisconnectRequest := true }).heap q).map
      (fun session => (session.sessionId, session.ioCount)) =
      (s.heap q).map fun session => (session.sessionId, session.ioCount) := by
    intro q
    by_cases hq : q = p
    · subst hq
      simp only [State.write, Function.update_self, hp, Option.map_some]
    · simp only [State.write, Function.update_of_ne hq]
  refine ⟨fun q => ?_, fun j q hj => ?_, trivial⟩
  · have hcount := congrArg (fun x => (x.map Prod.snd).getD 0) (hheap q)
    simp only [Option.map_map] at hcount
    exact (I.balance q).trans hcount.symm.le
  · have hid := congrArg (fun x => x.map Prod.fst) (hheap q)
    simp only [Option.map_map] at hid
    obtain ⟨id, hq, hindex⟩ := I.mapped j q hj
    exact ⟨id, hid.trans hq, hindex⟩

/-- `OnRelease` clears the session's entry. -/
theorem Inv.unmap (I : Inv s) (hp : s.heap p = some session) (hd : Quiet s p) :
    Inv { s with
      sessionMap := Function.update s.sessionMap session.sessionId.index none
      destroy := .unmapped p } := by
  refine ⟨I.balance, fun j q hj => I.mapped j q (update_none_eq_some.mp hj).2,
    ⟨hd.1, hd.2, hd.3⟩, fun j hj => ?_⟩
  obtain ⟨hne, hj⟩ := update_none_eq_some.mp hj
  obtain ⟨id, hid, hindex⟩ := I.mapped j p hj
  rw [ids_of_heap hp] at hid
  cases hid
  exact hne hindex.symm

/-- `OnRelease` frees the session. -/
theorem Inv.free (I : Inv s) (hd : Quiet s p ∧ ∀ j, s.sessionMap j ≠ some p) :
    Inv { s with heap := Function.update s.heap p none, destroy := .idle } := by
  refine ⟨fun q => ?_, fun j q hj => ?_, trivial⟩
  · by_cases hq : q = p
    · subst hq
      simp only [State.count, Function.update_self, Option.map_none, Option.getD_none]
      exact le_of_eq (congrArg Nat.cast hd.1.held_eq_zero)
    · simp only [State.count, Function.update_of_ne hq]
      exact I.balance q
  · obtain ⟨id, hid, hindex⟩ := I.mapped j q hj
    refine ⟨id, ?_, hindex⟩
    have hq : q ≠ p := fun he => hd.2 j (he ▸ hj)
    simp only [State.ids, Function.update_of_ne hq]
    exact hid

theorem Inv.destroyStep (I : Inv s) (hok : UseOk s .destroy)
    (h : SessionUse.destroyStep s = .ok t) : Inv t := by
  have hd := I.destroy
  unfold SessionUse.destroyStep at h
  split at h
  all_goals rename_i hpc; rw [hpc] at hd
  · split at h
    · cases h
    · cases h; exact I.setDestroy (.dequeued _) trivial _
  · split at h
    · cases h; exact I.setDestroy .idle trivial _
    · cases h; exact I.setDestroy (.mapRead _ _) trivial _
  · obtain ⟨session, hp, h⟩ := withSession_inv h
    split at h
    · cases h; exact I.setDestroy .idle trivial _
    · cases h; exact I.setDestroy (.matched _) trivial _
  · rename_i p
    obtain ⟨session, hp, h⟩ := withSession_inv h
    cases h
    exact I.disconnect hp
  · rename_i p
    obtain ⟨session, hp, h⟩ := withSession_inv h
    split at h
    · cases h; exact I.setDestroy (.requeue _) trivial _
    · rename_i hzero
      cases h
      rw [not_not] at hzero
      exact I.setDestroy (.releasing p)
        (I.quiet hp hzero (hok p session hpc hp hzero)) _
  · obtain ⟨session, hp, h⟩ := withSession_inv h
    cases h
    exact I.setDestroy .idle trivial _
  · rename_i p
    obtain ⟨session, hp, h⟩ := withSession_inv h
    cases h
    exact I.unmap hp hd
  · rename_i p
    obtain ⟨session, hp, h⟩ := withSession_inv h
    cases h
    exact I.free hd

theorem Inv.step (I : Inv s) (hok : UseOk s a) (h : SessionUse.step s a = .ok t) : Inv t := by
  cases a with
  | thread i op => exact I.threadStep hok h
  | destroy => exact I.destroyStep hok h

/-! ## Runs -/

theorem Inv.init (n : Nat) : Inv (SessionUse.init n) := by
  refine ⟨fun q => ?_, nofun, trivial⟩
  rw [State.held, total_eq_zero fun pc hmem => ?_]
  · rfl
  · rw [List.eq_of_mem_replicate hmem]; rfl

theorem Inv.safe (I : Inv s) : Safe s := by
  intro p hpc i pc hi
  have hd := I.destroy
  rw [hpc] at hd
  exact hd.1.unused i pc hi

/-- **No release while in use.**  In every run whose steps meet the condition, no state in which
`OnRelease` is about to free a session has a thread that uses it. -/
theorem run_safe {n : Nat} {as : List Action}
    (hr : Run (fun s a t => step s a = .ok t) UseOk (init n) as t) : Safe t :=
  (hr.invariant (Inv.init n) fun _ _ _ I hok hstep => I.step hok hstep).safe

/-- A session is accepted, receives nothing, is closed by its client and comes to be freed. -/
theorem run_safe_one_session :
    ∃ t, Run (fun s a t => step s a = .ok t) UseOk (init 1)
        [.thread 0 (.accept 1 ⟨0, 1⟩), .thread 0 (.go true), .thread 0 (.go true),
          .thread 0 (.go true), .thread 0 (.completion 1 .recv true), .thread 0 (.go true),
          .thread 0 (.go true), .thread 0 (.go true), .thread 0 (.go true), .destroy, .destroy,
          .destroy, .destroy, .destroy, .destroy] t ∧
      t.destroy = .unmapped 1 ∧ Safe t := by
  obtain ⟨t, hrun, hpc⟩ : ∃ t : State, Run (fun s a t => step s a = .ok t) UseOk (init 1)
        [.thread 0 (.accept 1 ⟨0, 1⟩), .thread 0 (.go true), .thread 0 (.go true),
          .thread 0 (.go true), .thread 0 (.completion 1 .recv true), .thread 0 (.go true),
          .thread 0 (.go true), .thread 0 (.go true), .thread 0 (.go true), .destroy, .destroy,
          .destroy, .destroy, .destroy, .destroy] t ∧ t.destroy = .unmapped 1 :=
    ⟨_, .cons rfl nofun <| .cons rfl nofun <| .cons rfl nofun <| .cons rfl nofun <|
      .cons rfl nofun <| .cons rfl nofun <| .cons rfl nofun <| .cons rfl nofun <|
      .cons rfl nofun <| .cons rfl (by nofun) <| .cons rfl (by nofun) <| .cons rfl (by nofun) <|
      .cons rfl (by nofun) <|
      .cons rfl (by
        rintro p session ⟨⟩ - - (_ | i) pc hi huse
        · cases hi; cases huse
        · cases hi) <|
      .cons rfl (by nofun) .nil, rfl⟩
  exact ⟨t, hrun, hpc, run_safe hrun⟩

/-- A packet goes out and completes before `OnAccept` comes to its first `RecvPost`: the count
falls to 0 and the session is freed under the accept thread. -/
theorem freed_before_recvPost :
    ¬ ∀ n as t, Run (fun s a t => step s a = .ok t) anyStep (init n) as t → Safe t := by
  intro h
  have hsafe := h 4
    [.thread 0 (.accept 1 ⟨0, 1⟩), .thread 0 (.go true),
      .thread 1 (.sendPacket ⟨0, 1⟩), .thread 1 (.go true), .thread 1 (.go true),
      .thread 1 (.go true), .thread 1 (.go true), .thread 1 (.go true),
      .thread 2 .sendThread, .thread 2 (.go true), .thread 2 (.go true), .thread 2 (.go true),
      .thread 2 (.go true),
      .thread 3 (.completion 1 .send false), .thread 3 (.go true), .thread 3 (.go true),
      .thread 3 (.go true), .thread 3 (.go false), .thread 3 (.go true), .thread 3 (.go true),
      .thread 3 (.go true),
      .destroy, .destroy, .destroy, .destroy, .destroy, .destroy] _ (runFn_iff_run.mp rfl)
  exact hsafe 1 rfl 0 (.recvInc 1 false) rfl rfl

end SessionUse

end IocpServer
