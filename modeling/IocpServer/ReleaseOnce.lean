import IocpServer.SlotOwnership
import Mathlib.Data.List.Count

/-!
# The destroy thread and its queue

`SessionDestroyThread` takes ids from `destroySessionRequestQueue`, looks each up in `sessionMap`,
puts it back while the session is in use and calls `OnRelease` when it is not.  The same id can be
queued many times: the exchange of `isDeleteRequest` guards the requests of the workers, the send
thread and `OnClientLeave`, nothing guards those of `ReleaseRefSession`, and the thread queues ids
again itself.  Here anybody queues any id at any time.

* `step` — the slots, the queue and the thread's loop; `step_slots` — a step is one of the slots
  or leaves them as they are.
* `ReleaseOk` — the step condition: `OnAccept` finds an index on the stack, of 16 bits, and gives
  an id that was not given before.
* `Recorded` — releases and pushes logged beside the slots.
* `run_released_once` — **in every run whose steps meet the condition a session is released once,
  its slot is pushed once for it and while nobody is mapped there, and `FlushFrame` finds a player
  for every request.**
-/

set_option autoImplicit false

namespace IocpServer

open Lib Slots

namespace ReleaseOnce

inductive LoopPc where
  | idle
  | dequeued (id : SessionId)
  /-- `sessionMap` holds the session under the id. -/
  | found (p : Nat)
  /-- Its `ioCount` was 0. -/
  | release (p : Nat)
  /-- In `OnRelease`. -/
  | releasing

structure State where
  slots : Slots.State
  destroySessionRequestQueue : List SessionId
  loop : LoopPc

inductive Action where
  /-- The accept thread or the logic thread. -/
  | slots (a : Slots.Action)
  /-- Some thread queues an id. -/
  | request (id : SessionId)
  /-- `busy` matters where the destroy thread reads `ioCount`. -/
  | destroyThread (busy : Bool)

/-- What `OnRelease` begins with. -/
def onRelease (s : Slots.State) (p : Nat) : Except Fault Slots.State :=
  match s.heap p with
  | none => .error .useAfterFree
  | some session =>
    .ok { s with
      sessionMap := Function.update s.sessionMap session.sessionId.index none
      destroy := .unmapped p session.sessionId }

def sessionDestroyThread (s : State) (busy : Bool) : Except Fault State :=
  match s.loop with
  | .idle =>
    match s.destroySessionRequestQueue with
    | [] => .error .notEnabled
    | id :: queue => .ok { s with destroySessionRequestQueue := queue, loop := .dequeued id }
  | .dequeued id =>
    match s.slots.sessionMap id.index with
    | none => .ok { s with loop := .idle }
    | some p =>
      match s.slots.heap p with
      | none => .error .useAfterFree
      | some session => .ok { s with loop := if session.sessionId = id then .found p else .idle }
  | .found p =>
    match s.slots.heap p with
    | none => .error .useAfterFree
    | some session =>
      if busy then
        .ok { s with
          destroySessionRequestQueue := s.destroySessionRequestQueue ++ [session.sessionId]
          loop := .idle }
      else .ok { s with loop := .release p }
  | .release p =>
    match onRelease s.slots p with
    | .error fault => .error fault
    | .ok slots => .ok { s with slots := slots, loop := .releasing }
  | .releasing =>
    match Slots.destroyStep s.slots with
    | .error fault => .error fault
    | .ok slots =>
      .ok { s with
        slots := slots
        loop := match slots.destroy with
          | .idle => .idle
          | _ => .releasing }

/-- The steps of the accept thread and of the logic thread. -/
def ofOtherThreads : Slots.Action → Bool
  | .onRelease _ | .destroyThread => false
  | _ => true

def step (s : State) : Action → Except Fault State
  | .slots a =>
    if ofOtherThreads a then
      match Slots.step s.slots a with
      | .error fault => .error fault
      | .ok slots => .ok { s with slots := slots }
    else .error .notEnabled
  | .request id =>
    .ok { s with destroySessionRequestQueue := s.destroySessionRequestQueue ++ [id] }
  | .destroyThread busy => sessionDestroyThread s busy

def init (maxSessionCount : Nat) (uniqueCharacterId : UInt32) : State :=
  ⟨Slots.init maxSessionCount uniqueCharacterId, [], .idle⟩

/-! ## The promise and its condition -/

inductive Event where
  | accepted (id : SessionId)
  | released (id : SessionId)
  | pushed (i : Nat)
  deriving DecidableEq

def accepted (log : List Event) : List SessionId :=
  log.filterMap fun
    | .accepted id => some id
    | _ => none

def released (log : List Event) : List SessionId :=
  log.filterMap fun
    | .released id => some id
    | _ => none

/-- The id `OnAccept` gives in a step. -/
def acceptedBy (s : Slots.State) : Slots.Action → List SessionId
  | .onAccept _ => [newId s]
  | _ => []

/-- What a step of the slots puts into the log. -/
def record (s : Slots.State) (a : Slots.Action) : List Event :=
  (acceptedBy s a).map .accepted ++ (releasedBy s a).map .released ++ (pushedBy s a).map .pushed

/-- The step of the slots that a step is. -/
def slotsAction (s : State) : Action → Option Slots.Action
  | .slots a => some a
  | .request _ => none
  | .destroyThread _ =>
    match s.loop with
    | .release p => some (.onRelease p)
    | .releasing => some .destroyThread
    | _ => none

def recordOf (s : State) (a : Action) : List Event :=
  match slotsAction s a with
  | none => []
  | some b => record s.slots b

structure ReleasedOnce (s : State) (log : List Event) : Prop where
  once : (released log).Nodup
  pushed : ∀ i, log.count (.pushed i) ≤ ((released log).map SessionId.index).count i
  /-- An index about to be pushed is not mapped. -/
  unmapped : ∀ i, s.slots.logic = .giveIndex i ∨ s.slots.destroy = .giveIndex i →
    s.slots.sessionMap i = none
  /-- The request `FlushFrame` has taken has a player. -/
  stored : ∀ id, s.slots.logic = .flush id → s.slots.playerList id.index ≠ none

/-- The step condition, on the state and the log. -/
def ReleaseOk (x : State × List Event) : Action → Prop
  | .slots (.onAccept p) => PopOk x.1.slots (.onAccept p) ∧ newId x.1.slots ∉ accepted x.2
  | _ => True

/-! ## Logs -/

variable {s t : State} {a : Action} {log : List Event} {x y : Slots.State} {b : Slots.Action}
  {owner : Nat → Owner} {i p q : Nat} {id : SessionId}

theorem accepted_record : accepted (log ++ record x b) = accepted log ++ acceptedBy x b := by
  simp [accepted, record, List.filterMap_append, List.filterMap_map]

theorem released_record : released (log ++ record x b) = released log ++ releasedBy x b := by
  simp [released, record, List.filterMap_append, List.filterMap_map]

theorem count_pushed_record :
    (log ++ record x b).count (.pushed i) = log.count (.pushed i) + (pushedBy x b).count i := by
  have hnone : ∀ (l : List SessionId) (f : SessionId → Event), (∀ id, f id ≠ .pushed i) →
      (l.map f).count (.pushed i) = 0 := by
    intro l f hf
    rw [List.count_eq_zero]
    intro hmem
    obtain ⟨id, -, hid⟩ := List.mem_map.mp hmem
    exact hf id hid
  have hinj : Function.Injective Event.pushed := fun _ _ h => Event.pushed.inj h
  rw [record, List.count_append, List.count_append, List.count_append,
    hnone _ _ (fun _ h => by cases h), hnone _ _ (fun _ h => by cases h),
    List.count_map_of_injective _ _ hinj]
  omega

/-! ## Sessions that are not being released -/

/-- `p` is allocated under `id` and not in the hands of `OnRelease`. -/
def Live (x : Slots.State) (p : Nat) (id : SessionId) : Prop :=
  x.ids p = some id ∧ ∀ id', x.destroy ≠ .unmapped p id'

theorem logicStep_frame (h : Slots.logicStep x = .ok y) :
    y.ids = x.ids ∧ y.destroy = x.destroy ∧ y.sessionMap = x.sessionMap := by
  unfold Slots.logicStep at h
  split at h
  · cases h
  · split at h <;> cases h <;> exact ⟨rfl, rfl, rfl⟩
  · split at h <;> cases h
    exact ⟨rfl, rfl, rfl⟩
  · split at h
    · rename_i hq hp
      cases h
      exact ⟨ids_update hq rfl, rfl, rfl⟩
    · cases h
  · split at h <;> cases h
    exact ⟨rfl, rfl, rfl⟩
  · cases h; exact ⟨rfl, rfl, rfl⟩
  · split at h <;> cases h
    exact ⟨rfl, rfl, rfl⟩
  · cases h; exact ⟨rfl, rfl, rfl⟩
  · split at h <;> cases h
    exact ⟨rfl, rfl, rfl⟩
  · cases h; exact ⟨rfl, rfl, rfl⟩
  · cases h; exact ⟨rfl, rfl, rfl⟩

/-- Where a live session comes from: it was live, or it has just been accepted; and it is not the
one a step begins to release. -/
theorem live_step (h : Slots.step x b = .ok y) (hlive : Live y p id) :
    (Live x p id ∧ b ≠ .onRelease p) ∨ acceptedBy x b = [id] := by
  obtain ⟨hid, hdestroy⟩ := hlive
  cases b with
  | onAccept q =>
    simp only [Slots.step, Slots.onAccept] at h
    split at h
    · cases h
      rcases ids_insert hid with ⟨-, rfl⟩ | ⟨-, hid⟩
      · exact Or.inr rfl
      · exact Or.inl ⟨⟨hid, hdestroy⟩, fun he => by cases he⟩
    · cases h
  | acceptThread =>
    simp only [Slots.step, Slots.acceptStep] at h
    split at h
    · cases h
    · cases h; exact Or.inl ⟨⟨hid, hdestroy⟩, fun he => by cases he⟩
    · split at h <;> cases h
      exact Or.inl ⟨⟨hid, hdestroy⟩, fun he => by cases he⟩
  | createNewPlayer q =>
    simp only [Slots.step, Slots.createNewPlayer] at h
    split at h <;> cases h
    exact Or.inl ⟨⟨hid, hdestroy⟩, fun he => by cases he⟩
  | flushFrame =>
    simp only [Slots.step, Slots.flushFrame] at h
    split at h <;> cases h
    exact Or.inl ⟨⟨hid, hdestroy⟩, fun he => by cases he⟩
  | logicThread =>
    obtain ⟨hids, hsame, -⟩ := logicStep_frame h
    rw [hids] at hid
    exact Or.inl ⟨⟨hid, fun id' => hsame ▸ hdestroy id'⟩, fun he => by cases he⟩
  | onRelease q =>
    simp only [Slots.step, Slots.onRelease] at h
    split at h
    · rename_i session hpc hq
      split at h <;> cases h
      refine Or.inl ⟨⟨hid, fun id' he => by rw [hpc] at he; cases he⟩, fun he => ?_⟩
      cases he
      exact hdestroy _ rfl
    · cases h
  | destroyThread =>
    refine Or.inl ?_
    simp only [Slots.step, Slots.destroyStep] at h
    split at h
    · cases h
    · rename_i q id' hpc
      cases h
      have hqp : p ≠ q := by
        rintro rfl
        simp [Slots.State.ids] at hid
      simp only [Slots.State.ids, Function.update_of_ne hqp] at hid
      refine ⟨⟨hid, fun id'' he => ?_⟩, fun he => by cases he⟩
      rw [hpc] at he
      cases he
      exact hqp rfl
    all_goals rename_i hpc
    · split at h <;> cases h <;>
        exact ⟨⟨hid, fun id'' he => by rw [hpc] at he; cases he⟩, fun he => by cases he⟩
    · split at h <;> cases h
      exact ⟨⟨hid, fun id'' he => by rw [hpc] at he; cases he⟩, fun he => by cases he⟩
    · cases h
      exact ⟨⟨hid, fun id'' he => by rw [hpc] at he; cases he⟩, fun he => by cases he⟩
    · cases h
      exact ⟨⟨hid, fun id'' he => by rw [hpc] at he; cases he⟩, fun he => by cases he⟩

/-! ## The log of the slots -/

structure Recorded (owner : Nat → Owner) (x : Slots.State) (log : List Event) : Prop where
  held : Held owner x
  once : (released log).Nodup
  known : ∀ id ∈ released log, id ∈ accepted log
  live : ∀ p id, Live x p id → id ∈ accepted log ∧ id ∉ released log
  /-- A release is a push, or still owed. -/
  books : ∀ i, owed owner x.destroy i + log.count (.pushed i) =
    ((released log).map SessionId.index).count i

/-- What a step begins to release was live. -/
theorem releasedBy_live (h : Slots.step x b = .ok y) :
    releasedBy x b = [] ∨ ∃ p id, b = .onRelease p ∧ releasedBy x b = [id] ∧ Live x p id := by
  cases b with
  | onRelease p =>
    simp only [Slots.step, Slots.onRelease] at h
    split at h
    · rename_i session hpc hp
      refine Or.inr ⟨p, session.sessionId, rfl, ?_, ids_of_heap hp, fun id' he => ?_⟩
      · rw [releasedBy, hp]; rfl
      · rw [hpc] at he; cases he
    · cases h
  | _ => exact Or.inl rfl

theorem Recorded.step (R : Recorded owner x log) (hok : PopOk x b)
    (hnew : ∀ p, b = .onAccept p → newId x ∉ accepted log) (h : Slots.step x b = .ok y) :
    ∃ owner', Recorded owner' y (log ++ record x b) := by
  obtain ⟨owner', H, hbalanced⟩ := R.held.step hok h
  have hfresh : ∀ p id, Live y p id →
      id ∈ accepted log ++ acceptedBy x b ∧ id ∉ released log := by
    intro p id hlive
    rcases live_step h hlive with ⟨hlive, -⟩ | hacc
    · exact ⟨List.mem_append_left _ (R.live p id hlive).1, (R.live p id hlive).2⟩
    · refine ⟨List.mem_append_right _ (by rw [hacc]; exact List.mem_cons_self), fun hmem => ?_⟩
      cases b with
      | onAccept q =>
        cases hacc
        exact hnew q rfl (R.known _ hmem)
      | _ => cases hacc
  refine ⟨owner', H, ?_, fun id hid => ?_, fun p id hlive => ⟨?_, fun hmem => ?_⟩, fun i => ?_⟩
  · rw [released_record]
    rcases releasedBy_live h with hnil | ⟨p, id, -, hone, hlive⟩
    · rw [hnil, List.append_nil]
      exact R.once
    · rw [hone]
      exact R.once.append (List.nodup_singleton id)
        (List.disjoint_singleton.mpr (R.live p id hlive).2)
  · rw [released_record] at hid
    rw [accepted_record]
    refine List.mem_append_left _ ?_
    rcases List.mem_append.mp hid with hid | hid
    · exact R.known id hid
    · rcases releasedBy_live h with hnil | ⟨p, id', -, hone, hlive⟩
      · rw [hnil] at hid; cases hid
      · rw [hone, List.mem_singleton] at hid
        subst hid
        exact (R.live p id hlive).1
  · rw [accepted_record]
    exact (hfresh p id hlive).1
  · rw [released_record] at hmem
    rcases List.mem_append.mp hmem with hmem | hmem
    · exact (hfresh p id hlive).2 hmem
    · rcases releasedBy_live h with hnil | ⟨q, id', rfl, hone, hlive'⟩
      · rw [hnil] at hmem; cases hmem
      · rw [hone, List.mem_singleton] at hmem
        subst hmem
        rcases live_step h hlive with ⟨hlive, hne⟩ | hacc
        · have hp := R.held.session p id hlive.1
          rw [R.held.session q id hlive'.1] at hp
          cases hp
          exact hne rfl
        · cases hacc
  · have hbooks := R.books i
    have hb := hbalanced i
    rw [released_record, List.map_append, count_pushed_record, List.count_append]
    omega

/-! ## The destroy thread's loop -/

/-- What the destroy thread has in hand is mapped, and `OnRelease` runs in one state of the loop
only. -/
def LoopOk (x : Slots.State) : LoopPc → Prop
  | .releasing => True
  | .found p | .release p =>
    (∃ id, x.ids p = some id ∧ x.sessionMap id.index = some p) ∧ x.destroy = .idle
  | _ => x.destroy = .idle

/-- The other threads free no session, unmap none and leave the destroy thread where it is. -/
theorem otherThreads_frame (H : Held owner x) (hother : ofOtherThreads b = true)
    (h : Slots.step x b = .ok y) :
    y.destroy = x.destroy ∧ (∀ p id, x.ids p = some id → y.ids p = some id) ∧
      ∀ i p, x.sessionMap i = some p → y.sessionMap i = some p := by
  cases b with
  | onAccept q =>
    simp only [Slots.step, Slots.onAccept] at h
    split at h
    · rename_i hq
      cases h
      refine ⟨rfl, fun p id hp => ?_, fun _ _ hi => hi⟩
      have hpq : p ≠ q := by
        rintro rfl
        rw [Slots.State.ids, hq] at hp
        cases hp
      simp only [Slots.State.ids, Function.update_of_ne hpq]
      exact hp
    · cases h
  | acceptThread =>
    have ha := H.accept
    simp only [Slots.step, Slots.acceptStep] at h
    split at h
    · cases h
    · rename_i q id hpc
      rw [hpc] at ha
      cases h
      refine ⟨rfl, fun _ _ hp => hp, fun i p hi => update_some_eq_some.mpr (Or.inr ⟨?_, hi⟩)⟩
      rintro rfl
      rw [ha.2] at hi
      cases hi
    · split at h <;> cases h
      exact ⟨rfl, fun _ _ hp => hp, fun _ _ hi => hi⟩
  | createNewPlayer q =>
    simp only [Slots.step, Slots.createNewPlayer] at h
    split at h <;> cases h
    exact ⟨rfl, fun _ _ hp => hp, fun _ _ hi => hi⟩
  | flushFrame =>
    simp only [Slots.step, Slots.flushFrame] at h
    split at h <;> cases h
    exact ⟨rfl, fun _ _ hp => hp, fun _ _ hi => hi⟩
  | logicThread =>
    obtain ⟨hids, hdestroy, hmap⟩ := logicStep_frame h
    exact ⟨hdestroy, fun _ _ hp => hids ▸ hp, fun _ _ hi => hmap ▸ hi⟩
  | onRelease | destroyThread => cases hother

/-- The other threads leave what the destroy thread has in hand. -/
theorem LoopOk.otherThreads {loop : LoopPc} (hloop : LoopOk x loop) (H : Held owner x)
    (hother : ofOtherThreads b = true) (h : Slots.step x b = .ok y) : LoopOk y loop := by
  obtain ⟨hdestroy, hids, hmap⟩ := otherThreads_frame H hother h
  cases loop with
  | releasing => trivial
  | found p | release p =>
    obtain ⟨⟨id, hid, hi⟩, hidle⟩ := hloop
    exact ⟨⟨id, hids p id hid, hmap _ p hi⟩, hdestroy.trans hidle⟩
  | idle | dequeued id => exact hdestroy.trans hloop

/-- `OnRelease` on what the destroy thread has in hand is a release of the slots. -/
theorem LoopOk.onRelease (hloop : LoopOk x (.release p)) (h : onRelease x p = .ok y) :
    Slots.step x (.onRelease p) = .ok y := by
  obtain ⟨⟨id, hid, hi⟩, hidle⟩ := hloop
  unfold ReleaseOnce.onRelease at h
  split at h
  · cases h
  · rename_i session hp
    rw [ids_of_heap hp] at hid
    cases hid
    simp only [Slots.step, Slots.onRelease, hidle, hp, hi, if_true]
    exact h

/-- **A step is one of the slots, or leaves them as they are.** -/
theorem step_slots (H : Held owner s.slots) (hloop : LoopOk s.slots s.loop)
    (h : step s a = .ok t) :
    (slotsAction s a = none ∧ t.slots = s.slots ∨
      ∃ b, slotsAction s a = some b ∧ Slots.step s.slots b = .ok t.slots) ∧
    LoopOk t.slots t.loop := by
  cases a with
  | slots b =>
    simp only [step] at h
    split at h
    · rename_i hother
      split at h
      · cases h
      · rename_i slots hslots
        cases h
        exact ⟨Or.inr ⟨b, rfl, hslots⟩, hloop.otherThreads H hother hslots⟩
    · cases h
  | request id =>
    cases h
    exact ⟨Or.inl ⟨rfl, rfl⟩, hloop⟩
  | destroyThread busy =>
    simp only [step, sessionDestroyThread] at h
    split at h
    all_goals rename_i hpc; rw [hpc] at hloop
    · split at h <;> cases h
      exact ⟨Or.inl ⟨by rw [slotsAction, hpc], rfl⟩, hloop⟩
    · rename_i id
      split at h
      · cases h
        exact ⟨Or.inl ⟨by rw [slotsAction, hpc], rfl⟩, hloop⟩
      · rename_i p hp
        split at h
        · cases h
        · rename_i session hsession
          cases h
          refine ⟨Or.inl ⟨by rw [slotsAction, hpc], rfl⟩, ?_⟩
          dsimp only
          split
          · rename_i hid
            subst hid
            exact ⟨⟨_, ids_of_heap hsession, hp⟩, hloop⟩
          · exact hloop
    · split at h
      · cases h
      · split at h <;> cases h
        · exact ⟨Or.inl ⟨by rw [slotsAction, hpc], rfl⟩, hloop.2⟩
        · exact ⟨Or.inl ⟨by rw [slotsAction, hpc], rfl⟩, hloop⟩
    · rename_i p
      split at h
      · cases h
      · rename_i slots hslots
        cases h
        exact ⟨Or.inr ⟨.onRelease p, by rw [slotsAction, hpc], hloop.onRelease hslots⟩, trivial⟩
    · split at h
      · cases h
      · rename_i slots hslots
        cases h
        refine ⟨Or.inr ⟨.destroyThread, by rw [slotsAction, hpc], hslots⟩, ?_⟩
        dsimp only
        split
        · rename_i hidle
          exact hidle
        · trivial

/-! ## Runs -/

/-- The invariant of a logged run. -/
structure Inv (owner : Nat → Owner) (s : State) (log : List Event) : Prop where
  recorded : Recorded owner s.slots log
  loop : LoopOk s.slots s.loop

theorem Inv.init (maxSessionCount : Nat) (uniqueCharacterId : UInt32) :
    Inv (fun _ => .free) (ReleaseOnce.init maxSessionCount uniqueCharacterId) [] :=
  ⟨⟨Held.init .., List.nodup_nil, nofun, fun _ _ h => (Option.some_ne_none _ h.1.symm).elim,
    fun _ => rfl⟩, rfl⟩

theorem Inv.step (I : Inv owner s log) (hok : ReleaseOk (s, log) a) (h : step s a = .ok t) :
    ∃ owner', Inv owner' t (log ++ recordOf s a) := by
  obtain ⟨⟨hnone, hsame⟩ | ⟨b, hb, hslots⟩, hloop⟩ := step_slots I.recorded.held I.loop h
  · rw [recordOf, hnone]
    dsimp only
    rw [List.append_nil]
    exact ⟨owner, hsame ▸ I.recorded, hloop⟩
  · have hpop : PopOk s.slots b ∧ ∀ p, b = .onAccept p → newId s.slots ∉ accepted log := by
      cases b with
      | onAccept p =>
        cases a with
        | slots c =>
          cases hb
          exact ⟨hok.1, fun _ _ => hok.2⟩
        | request id => cases hb
        | destroyThread busy =>
          simp only [slotsAction] at hb
          split at hb <;> cases hb
      | _ => exact ⟨trivial, nofun⟩
    obtain ⟨owner', R⟩ := I.recorded.step hpop.1 hpop.2 hslots
    rw [recordOf, hb]
    exact ⟨owner', R, hloop⟩

theorem Inv.releasedOnce (I : Inv owner s log) : ReleasedOnce s log := by
  have H := I.recorded.held
  refine ⟨I.recorded.once, fun i => ?_, fun i hi => H.unmapped fun p id => ?_, fun id hpc => ?_⟩
  · have := I.recorded.books i
    omega
  · rcases hi with hpc | hpc
    · have howner := H.logic
      rw [hpc] at howner
      rw [show owner i = .flushing from howner]
      nofun
    · have howner := H.destroy
      rw [hpc] at howner
      rw [show owner i = .returning from howner]
      nofun
  · have hl := H.logic
    rw [hpc] at hl
    exact hl.2

/-- **Exactly-once release.**  In every run of the accept thread, the logic thread, the destroy
thread and requests for any ids at any time, in which `OnAccept` finds an index on the stack, of 16
bits, and gives a new id: a session is released at most once, a slot is pushed at most as often as
its sessions are released and only while it is not mapped, and `FlushFrame` finds a player for
every request it takes. -/
theorem run_released_once {maxSessionCount : Nat} {uniqueCharacterId : UInt32} {as : List Action}
    (hr : Run (logged (fun s a t => step s a = .ok t) recordOf) ReleaseOk
      (init maxSessionCount uniqueCharacterId, []) as (t, log)) : ReleasedOnce t log := by
  obtain ⟨owner, I⟩ : ∃ owner, Inv owner (t, log).1 (t, log).2 := by
    refine Run.invariant (I := fun x => ∃ owner, Inv owner x.1 x.2) hr ⟨_, Inv.init ..⟩ ?_
    rintro x a y ⟨owner, I⟩ hok ⟨hstep, hlog⟩
    rw [hlog]
    exact I.step hok hstep
  exact I.releasedOnce

/-- A session is accepted and asked for twice; it is released once, the second request finds
nobody. -/
theorem run_released_once_two_requests :
    ∃ t, Run (logged (fun s a t => step s a = .ok t) recordOf) ReleaseOk (init 2 0, [])
        [.slots (.onAccept 1), .slots .acceptThread, .slots .acceptThread, .request ⟨0, 1⟩,
          .request ⟨0, 1⟩, .destroyThread false, .destroyThread false, .destroyThread false,
          .destroyThread false, .destroyThread false, .destroyThread false, .destroyThread false,
          .destroyThread false, .destroyThread false]
        (t, [.accepted ⟨0, 1⟩, .released ⟨0, 1⟩, .pushed 0]) ∧
      t.destroySessionRequestQueue = [] ∧
      ReleasedOnce t [.accepted ⟨0, 1⟩, .released ⟨0, 1⟩, .pushed 0] := by
  obtain ⟨t, hrun, hqueue⟩ : ∃ t : State,
      Run (logged (fun s a t => step s a = .ok t) recordOf) ReleaseOk (init 2 0, [])
        [.slots (.onAccept 1), .slots .acceptThread, .slots .acceptThread, .request ⟨0, 1⟩,
          .request ⟨0, 1⟩, .destroyThread false, .destroyThread false, .destroyThread false,
          .destroyThread false, .destroyThread false, .destroyThread false, .destroyThread false,
          .destroyThread false, .destroyThread false]
        (t, [.accepted ⟨0, 1⟩, .released ⟨0, 1⟩, .pushed 0]) ∧
      t.destroySessionRequestQueue = [] :=
    ⟨_, .consLogged rfl ⟨⟨0, [1], rfl, by decide⟩, List.not_mem_nil⟩ <| .consLogged rfl trivial <|
      .consLogged rfl trivial <| .consLogged rfl trivial <| .consLogged rfl trivial <|
      .consLogged rfl trivial <| .consLogged rfl trivial <| .consLogged rfl trivial <|
      .consLogged rfl trivial <| .consLogged rfl trivial <| .consLogged rfl trivial <|
      .consLogged rfl trivial <| .consLogged rfl trivial <| .consLogged rfl trivial .nil, rfl⟩
  exact ⟨t, hrun, hqueue, run_released_once hrun⟩

/-- Fewer live sessions than slots, and an id that was not given before. -/
def LiveOk (maxSessionCount : Nat) (x : State × List Event) : Action → Prop
  | .slots (.onAccept _) =>
    (accepted x.2).length < (released x.2).length + maxSessionCount ∧
      newId x.1.slots ∉ accepted x.2
  | _ => True

/-- Two slots.  The first session is released and its player waits for `FlushFrame`; the third
connection, the second one live, is given index 0 again.  `FlushFrame` then pushes 0 while the
third session is mapped there. -/
theorem pushed_while_mapped :
    ¬ ∀ maxSessionCount uniqueCharacterId as t log,
      Run (logged (fun s a t => step s a = .ok t) recordOf) (LiveOk maxSessionCount)
        (init maxSessionCount uniqueCharacterId, []) as (t, log) → ReleasedOnce t log := by
  intro h
  have honce := h 2 0 [.slots (.onAccept 1), .slots .acceptThread, .slots .acceptThread,
    .slots (.createNewPlayer 7), .slots .logicThread, .slots .logicThread, .slots .logicThread,
    .slots .logicThread, .slots .logicThread, .slots (.onAccept 2), .slots .acceptThread,
    .slots .acceptThread, .request ⟨0, 1⟩, .destroyThread false, .destroyThread false,
    .destroyThread false, .destroyThread false, .destroyThread false, .destroyThread false,
    .destroyThread false, .destroyThread false, .slots (.onAccept 3), .slots .acceptThread,
    .slots .flushFrame, .slots .logicThread, .slots .logicThread, .slots .logicThread,
    .slots .logicThread] _ _ <|
    .consLogged rfl ⟨by decide, by decide⟩ <| .consLogged rfl trivial <|
    .consLogged rfl trivial <| .consLogged rfl trivial <| .consLogged rfl trivial <|
    .consLogged rfl trivial <| .consLogged rfl trivial <| .consLogged rfl trivial <|
    .consLogged rfl trivial <| .consLogged rfl ⟨by decide, by decide⟩ <|
    .consLogged rfl trivial <| .consLogged rfl trivial <| .consLogged rfl trivial <|
    .consLogged rfl trivial <| .consLogged rfl trivial <| .consLogged rfl trivial <|
    .consLogged rfl trivial <| .consLogged rfl trivial <| .consLogged rfl trivial <|
    .consLogged rfl trivial <| .consLogged rfl trivial <|
    .consLogged rfl ⟨by decide, by decide⟩ <| .consLogged rfl trivial <|
    .consLogged rfl trivial <| .consLogged rfl trivial <| .consLogged rfl trivial <|
    .consLogged rfl trivial <| .consLogged rfl trivial .nil
  cases honce.unmapped 0 (Or.inl rfl)

end ReleaseOnce

end IocpServer
