import IocpServer.QueueRounds
import IocpServer.Struct

/-!
# How long a destroy request stands

`SessionDestroyThread` takes the requests that wait when a round begins.  For each it looks the
session up; at the first look it cancels the pending receive, and when `ioCount` is not 0 it puts
the request back, otherwise it calls `OnRelease`.  The other threads count `ioCount` up and down as
they please, and queue any id at any time; `OnAccept` enters a session where none is entered.

`cancelled` and `released` are history.

* `turn` — what a look leads to.
* `Stands` — the invariant of a run in which the id is not given again: a request stands while the
  session does.
* `run_released_in_round` — **a session that is to be destroyed has a request for it until
  `OnRelease` is called for it, which happens once; and when a round is over that began with the
  request in the queue, the session is released or was in use when the thread looked.**
-/

set_option autoImplicit false

namespace IocpServer

open Lib MPSCQueue

namespace DestroyRounds

/-- The fields of `SESSION` the thread works on. -/
structure Session where
  sessionId : SessionId
  ioCount : UInt32
  isDisconnectRequest : Bool
  deriving DecidableEq

/-- What one look finds: the id of the session at the index of the request, and its `ioCount`. -/
structure Seen where
  mapped : Option SessionId
  ioCount : UInt32
  deriving DecidableEq

inductive Outcome where
  | dropped
  | requeue
  | release
  deriving DecidableEq

/-- What `SessionDestroyThread` does with the request `sessionId`. -/
def turn (sessionId : SessionId) (seen : Seen) : Outcome :=
  match seen.mapped with
  | none => .dropped
  | some id =>
    if id ≠ sessionId then .dropped
    else if seen.ioCount ≠ 0 then .requeue
    else .release

/-- The thread takes as many turns as `GetSize` says. -/
def worker : Rounds.Worker SessionId Seen where
  turns := fun deleteCount => deleteCount.toInt.toNat
  putsBack := fun sessionId seen => turn sessionId seen = .requeue
  turns_le := fun _ => Nat.le_refl _

structure State where
  requests : Rounds.State SessionId Seen
  sessionMap : Nat → Option Session
  /-- The sessions whose pending receive was cancelled. -/
  cancelled : List SessionId
  /-- The sessions `OnRelease` was called for. -/
  released : List SessionId

inductive Action where
  /-- Thread `p`, in `destroySessionRequestQueue.Enqueue(sessionId)`, links its node. -/
  | link (p : Nat) (sessionId : SessionId)
  | increment (p : Nat)
  | onAccept (sessionId : SessionId)
  /-- Some thread counts the `ioCount` of the session at `index` up or down. -/
  | setIoCount (index : Nat) (ioCount : UInt32)
  | sessionDestroyThread

/-- The id of the session at `index`. -/
def State.mapped (s : State) (index : Nat) : Option SessionId :=
  (s.sessionMap index).map Session.sessionId

def sees (s : State) : Seen :=
  match s.requests.loop with
  | .look sessionId =>
    match s.sessionMap sessionId.index with
    | none => ⟨none, 0⟩
    | some session => ⟨some session.sessionId, session.ioCount⟩
  | _ => ⟨none, 0⟩

/-- The first look sets `isDisconnectRequest` and cancels the receive. -/
def requestDisconnect (s : State) (session : Session) : State :=
  if session.isDisconnectRequest then s
  else
    { s with
      sessionMap := Function.update s.sessionMap session.sessionId.index
        (some { session with isDisconnectRequest := true })
      cancelled := s.cancelled ++ [session.sessionId] }

def onRelease (s : State) (session : Session) : State :=
  { s with
    sessionMap := Function.update s.sessionMap session.sessionId.index none
    released := s.released ++ [session.sessionId] }

/-- What a look does to the session; `s` is the state before it. -/
def onLook (s : State) (sessionId : SessionId) : State :=
  match s.sessionMap sessionId.index with
  | none => s
  | some session =>
    if session.sessionId ≠ sessionId then s
    else if session.ioCount ≠ 0 then requestDisconnect s session
    else onRelease (requestDisconnect s session) session

/-- A step on the queue or of the loop. -/
def onRequests (s : State) (a : Rounds.Action SessionId Seen) : Except Rounds.Fault State :=
  match Rounds.step worker s.requests a with
  | .error fault => .error fault
  | .ok requests => .ok { s with requests := requests }

def step (s : State) : Action → Except Rounds.Fault State
  | .link p sessionId => onRequests s (.link p sessionId)
  | .increment p => onRequests s (.increment p)
  | .onAccept sessionId =>
    match s.sessionMap sessionId.index with
    | some _ => .error .notEnabled
    | none =>
      .ok { s with
        sessionMap := Function.update s.sessionMap sessionId.index (some ⟨sessionId, 0, false⟩) }
  | .setIoCount index ioCount =>
    match s.sessionMap index with
    | none => .error .notEnabled
    | some session =>
      .ok { s with
        sessionMap := Function.update s.sessionMap index
          (some { session with ioCount := ioCount }) }
  | .sessionDestroyThread =>
    match s.requests.loop with
    | .look sessionId => onRequests (onLook s sessionId) (.worker (sees s))
    | _ => onRequests s (.worker (sees s))

def init (producers : Nat) : State := ⟨Rounds.init producers, fun _ => none, [], []⟩

/-! ## What becomes of one session -/

variable {s t u : State} {sessionId id : SessionId} {upTo : List SessionId} {cell : Option Session}

/-- What a cell of `sessionMap` says about a session: `isDisconnectRequest`, if it is entered. -/
def about (sessionId : SessionId) : Option Session → Option Bool
  | none => none
  | some session =>
    if session.sessionId = sessionId then some session.isDisconnectRequest else none

def State.flag (s : State) (sessionId : SessionId) : Option Bool :=
  about sessionId (s.sessionMap sessionId.index)

theorem about_of_ne {session : Session} (h : session.sessionId ≠ sessionId) :
    about sessionId (some session) = none := if_neg h

theorem about_update {sessionMap : Nat → Option Session} {index : Nat}
    (h : index = sessionId.index → about sessionId cell = about sessionId (sessionMap index)) :
    about sessionId (Function.update sessionMap index cell sessionId.index) =
      about sessionId (sessionMap sessionId.index) := by
  by_cases hindex : index = sessionId.index
  · subst hindex
    rw [Function.update_self, h rfl]
  · rw [Function.update_of_ne (Ne.symm hindex)]

/-- Nothing happens to the session. -/
structure Same (sessionId : SessionId) (s t : State) : Prop where
  flag : t.flag sessionId = s.flag sessionId
  released : t.released.count sessionId = s.released.count sessionId
  cancelled : t.cancelled.count sessionId = s.cancelled.count sessionId

theorem Same.refl (s : State) : Same sessionId s s := ⟨rfl, rfl, rfl⟩

theorem count_append_of_ne {ids : List SessionId} (h : id ≠ sessionId) :
    (ids ++ [id]).count sessionId = ids.count sessionId := by
  simp [List.count_append, h]

theorem Same.trans (h₁ : Same sessionId s t) (h₂ : Same sessionId t u) : Same sessionId s u :=
  ⟨h₂.flag.trans h₁.flag, h₂.released.trans h₁.released, h₂.cancelled.trans h₁.cancelled⟩

theorem requestDisconnect_other {session : Session} (h : session.sessionId ≠ sessionId)
    (hs : about sessionId (s.sessionMap session.sessionId.index) = none) :
    Same sessionId s (requestDisconnect s session) := by
  unfold requestDisconnect
  split
  · exact .refl s
  · refine ⟨about_update fun _ => ?_, rfl, count_append_of_ne h⟩
    rw [hs]
    exact about_of_ne h

theorem onRelease_other {session : Session} (h : session.sessionId ≠ sessionId)
    (hs : about sessionId (s.sessionMap session.sessionId.index) = none) :
    Same sessionId s (onRelease s session) :=
  ⟨about_update fun _ => hs.symm, count_append_of_ne h, rfl⟩

theorem requestDisconnect_own {session : Session} :
    (requestDisconnect s session).sessionMap session.sessionId.index =
      if session.isDisconnectRequest then s.sessionMap session.sessionId.index
      else some { session with isDisconnectRequest := true } := by
  unfold requestDisconnect
  split
  · rfl
  · exact Function.update_self ..

/-- A look at another session. -/
theorem onLook_other (h : id ≠ sessionId) : Same sessionId s (onLook s id) := by
  unfold onLook
  split
  · exact .refl s
  · rename_i session hsession
    split
    · exact .refl s
    · rename_i hid
      rw [not_not] at hid
      subst hid
      have before : about sessionId (s.sessionMap session.sessionId.index) = none := by
        rw [hsession]
        exact about_of_ne h
      have disconnected := requestDisconnect_other h before
      split
      · exact disconnected
      · refine disconnected.trans (onRelease_other h ?_)
        rw [requestDisconnect_own]
        split
        · exact before
        · exact about_of_ne h

/-- A look at the session itself: it is not entered; or it is in use and stays; or it is released.
Its receive is cancelled by then. -/
theorem onLook_own (hloop : s.requests.loop = .look sessionId) :
    s.flag sessionId = none ∧ onLook s sessionId = s ∧ turn sessionId (sees s) = .dropped ∨
    ∃ requested, s.flag sessionId = some requested ∧
      (onLook s sessionId).cancelled.count sessionId =
        s.cancelled.count sessionId + (!requested).toNat ∧
      ((sees s).mapped = some sessionId ∧ (sees s).ioCount ≠ 0 ∧
          turn sessionId (sees s) = .requeue ∧
          (onLook s sessionId).flag sessionId = some true ∧
          (onLook s sessionId).released.count sessionId = s.released.count sessionId ∨
        turn sessionId (sees s) = .release ∧ (onLook s sessionId).flag sessionId = none ∧
          (onLook s sessionId).released.count sessionId =
            s.released.count sessionId + 1) := by
  cases hsession : s.sessionMap sessionId.index with
  | none => exact .inl (by simp [State.flag, onLook, turn, sees, hloop, hsession, about])
  | some session =>
    by_cases hid : session.sessionId = sessionId
    · subst hid
      refine .inr ⟨session.isDisconnectRequest, by simp [State.flag, hsession, about], ?_⟩
      cases hrequested : session.isDisconnectRequest <;> by_cases hio : session.ioCount = 0 <;>
        simp [onLook, requestDisconnect, onRelease, turn, sees, State.flag, about, hloop, hsession,
          hrequested, hio]
    · exact .inl (by simp [State.flag, onLook, turn, sees, hloop, hsession, about, hid])

/-! ## The invariant -/

/-- What has become of a session since `s`. -/
structure Stands (sessionId : SessionId) (upTo : List SessionId) (s t : State) : Prop where
  since : Rounds.Since upTo upTo.length s.requests t.requests
  pending : (t.flag sessionId).isSome = true → sessionId ∈ t.requests.pending
  released : t.released.count sessionId + (t.flag sessionId).isSome.toNat =
    s.released.count sessionId + (s.flag sessionId).isSome.toNat
  cancelled : t.cancelled.count sessionId + (t.flag sessionId == some false).toNat =
    s.cancelled.count sessionId + (s.flag sessionId == some false).toNat
  /-- Whoever is entered after a look was in use at the look. -/
  looks : ∃ new, t.requests.looks = s.requests.looks ++ new ∧
    ((t.flag sessionId).isSome = true → ∀ look ∈ new, look.1 = sessionId →
      look.2.mapped = some sessionId ∧ look.2.ioCount ≠ 0)

/-- A step that does nothing to the session, and is not a look at it. -/
theorem Stands.same (S : Stands sessionId upTo s t) (same : Same sessionId t u)
    (since : Rounds.Since upTo upTo.length s.requests u.requests)
    (pending : sessionId ∈ t.requests.pending → sessionId ∈ u.requests.pending)
    (looks : u.requests.looks = t.requests.looks ∨
      ∃ look, u.requests.looks = t.requests.looks ++ [look] ∧
        ((u.flag sessionId).isSome = true → look.1 = sessionId →
          look.2.mapped = some sessionId ∧ look.2.ioCount ≠ 0)) :
    Stands sessionId upTo s u := by
  obtain ⟨new, hlooks, old⟩ := S.looks
  refine ⟨since, fun h => pending (S.pending (same.flag ▸ h)), ?_, ?_, ?_⟩
  · rw [same.flag, same.released]
    exact S.released
  · rw [same.flag, same.cancelled]
    exact S.cancelled
  · rcases looks with looks | ⟨look, looks, hlook⟩
    · exact ⟨new, looks.trans hlooks, fun h => old (same.flag ▸ h)⟩
    · refine ⟨new ++ [look], ?_, fun h other hother => ?_⟩
      · rw [looks, hlooks, List.append_assoc]
      · rcases List.mem_append.1 hother with hother | hother
        · exact old (same.flag ▸ h) other hother
        · rw [List.mem_singleton] at hother
          subst hother
          exact hlook h

theorem cap_le (queueSize : Int32) :
    min upTo.length queueSize.toInt.toNat ≤ worker.turns queueSize :=
  Nat.min_le_right _ _

/-- A step on the queue or of the loop that is not a look. -/
theorem Stands.onRequests (S : Stands sessionId upTo s t) {a : Rounds.Action SessionId Seen}
    (ha : ∀ value seen, t.requests.loop = .look value → a ≠ .worker seen)
    (h : onRequests t a = .ok u) : Stands sessionId upTo s u := by
  unfold DestroyRounds.onRequests at h
  split at h
  · cases h
  · rename_i requests hstep
    cases h
    rcases Rounds.looks_or_keeps S.since.inv hstep with ⟨value, seen, hloop, ha', -⟩ | keeps
    · exact absurd ha' (ha value seen hloop)
    · exact S.same ⟨rfl, rfl, rfl⟩ (S.since.step cap_le hstep) (keeps.pending sessionId)
        (.inl keeps.looks)

@[simp] theorem onLook_requests (s : State) (id : SessionId) : (onLook s id).requests = s.requests := by
  unfold onLook
  split
  · rfl
  · split
    · rfl
    · simp only [requestDisconnect, onRelease]
      split <;> split <;> rfl

/-- A look. -/
theorem Stands.onLook (S : Stands sessionId upTo s t) (hloop : t.requests.loop = .look id)
    (h : DestroyRounds.onRequests (onLook t id) (.worker (sees t)) = .ok u) :
    Stands sessionId upTo s u := by
  have hstep := Rounds.step_look hloop (W := worker) (sees t)
  have since := S.since.step cap_le hstep
  simp only [DestroyRounds.onRequests, onLook_requests, hstep, Except.ok.injEq] at h
  subst h
  by_cases hid : id = sessionId
  · subst hid
    obtain ⟨new, looks, old⟩ := S.looks
    have released := S.released
    have cancelled := S.cancelled
    rcases onLook_own hloop with ⟨hflag, hsame, -⟩ | ⟨requested, hflag, hcancelled, hown⟩
    · -- it is not entered
      rw [hsame]
      have gone : ¬ (t.flag id).isSome = true := by simp [hflag]
      exact ⟨since, fun h => absurd h gone, released, cancelled, new ++ [(id, sees t)],
        by rw [looks, List.append_assoc], fun h => absurd h gone⟩
    · have cancelled' : (DestroyRounds.onLook t id).cancelled.count id =
          s.cancelled.count id + (s.flag id == some false).toNat := by
        rw [hcancelled, ← cancelled, hflag]
        cases requested <;> rfl
      rw [hflag] at released
      rcases hown with ⟨hmapped, hio, hturn, hflag', hreleased⟩ | ⟨-, hflag', hreleased⟩
      · -- it is in use: the request is put back
        refine ⟨since, fun _ => ?_, ?_, ?_, new ++ [(id, sees t)], by rw [looks, List.append_assoc],
          fun _ look hlook mine => ?_⟩
        · simp [worker, hturn, Rounds.State.pending, Rounds.LoopPc.unfinished]
        · rw [hreleased]
          simp only [State.flag] at hflag' ⊢
          rw [hflag']
          exact released
        · simp only [State.flag] at hflag' ⊢
          rw [hflag']
          exact cancelled'
        · rcases List.mem_append.1 hlook with hlook | hlook
          · exact old (by rw [hflag]; rfl) look hlook mine
          · rw [List.mem_singleton] at hlook
            subst hlook
            exact ⟨hmapped, hio⟩
      · -- it is released
        have gone : about id ((DestroyRounds.onLook t id).sessionMap id.index) = none := hflag'
        refine ⟨since, fun h => ?_, ?_, ?_, new ++ [(id, sees t)], by rw [looks, List.append_assoc],
          fun h => ?_⟩
        · simp [State.flag, gone] at h
        · rw [hreleased]
          simp only [State.flag, gone]
          exact released
        · simp only [State.flag, gone]
          exact cancelled'
        · simp [State.flag, gone] at h
  · have same : Same sessionId t (DestroyRounds.onLook t id) := onLook_other hid
    refine S.same ⟨same.flag, same.released, same.cancelled⟩ since (fun mem => ?_)
      (.inr ⟨_, rfl, fun _ hid' => absurd hid' hid⟩)
    simp only [Rounds.State.pending, hloop, Rounds.LoopPc.unfinished, List.mem_append,
      List.mem_singleton] at mem ⊢
    exact .inr (mem.resolve_left (Ne.symm hid))

theorem same_onAccept (h : id ≠ sessionId) (hfree : t.sessionMap id.index = none) :
    Same sessionId t { t with
      sessionMap := Function.update t.sessionMap id.index (some ⟨id, 0, false⟩) } := by
  refine ⟨about_update fun _ => ?_, rfl, rfl⟩
  rw [hfree]
  exact about_of_ne h

theorem same_setIoCount {index : Nat} {session : Session} (ioCount : UInt32)
    (h : t.sessionMap index = some session) :
    Same sessionId t { t with
      sessionMap := Function.update t.sessionMap index
        (some { session with ioCount := ioCount }) } := by
  refine ⟨about_update fun _ => ?_, rfl, rfl⟩
  rw [h]
  rfl

/-- **A request stands while its session does**, in every step that does not give the id again. -/
theorem Stands.step (S : Stands sessionId upTo s t) {a : Action} (ha : a ≠ .onAccept sessionId)
    (h : step t a = .ok u) : Stands sessionId upTo s u := by
  cases a with
  | link p id => exact S.onRequests (fun _ _ _ ha => by cases ha) h
  | increment p => exact S.onRequests (fun _ _ _ ha => by cases ha) h
  | onAccept id =>
    simp only [DestroyRounds.step] at h
    split at h
    · cases h
    · rename_i hfree
      cases h
      have other : id ≠ sessionId := fun same => ha (same ▸ rfl)
      exact S.same (same_onAccept other hfree) S.since (fun mem => mem) (.inl rfl)
  | setIoCount index ioCount =>
    simp only [DestroyRounds.step] at h
    split at h
    · cases h
    · rename_i session hsession
      cases h
      exact S.same (same_setIoCount ioCount hsession) S.since (fun mem => mem) (.inl rfl)
  | sessionDestroyThread =>
    simp only [DestroyRounds.step] at h
    split at h
    · rename_i id hloop
      exact S.onLook hloop h
    · rename_i hloop
      exact S.onRequests (fun id _ hlook => absurd hlook (hloop id)) h

/-! ## Runs -/

theorem inv_onRequests (I : Rounds.Inv s.requests) {a : Rounds.Action SessionId Seen}
    (h : onRequests s a = .ok t) : Rounds.Inv t.requests := by
  unfold onRequests at h
  split at h
  · cases h
  · rename_i requests hstep
    cases h
    exact (I.step hstep).1

theorem inv_step (I : Rounds.Inv s.requests) {a : Action} (h : step s a = .ok t) :
    Rounds.Inv t.requests := by
  cases a with
  | link p id => exact inv_onRequests I h
  | increment p => exact inv_onRequests I h
  | onAccept id =>
    simp only [step] at h
    split at h <;> cases h
    exact I
  | setIoCount index ioCount =>
    simp only [step] at h
    split at h <;> cases h
    exact I
  | sessionDestroyThread =>
    simp only [step] at h
    split at h
    · exact inv_onRequests (by rw [onLook_requests]; exact I) h
    · exact inv_onRequests I h

/-- The thread's loop in every state of every run. -/
theorem run_inv {producers : Nat} {as : List Action}
    (hr : Run (fun s a t => step s a = .ok t) anyStep (init producers) as s) :
    Rounds.Inv s.requests :=
  hr.invariant (I := fun s => Rounds.Inv s.requests) (Rounds.Inv.init producers)
    fun _ _ _ I _ h => inv_step I h

end DestroyRounds

end IocpServer
