import IocpServer.SlotBounds
import IocpServer.SlotOwnership

/-!
# How many sessions there are

Three numbers say how many sessions the server has: `CountAliveSessions` counts the entries of
`sessionMap`, `GetSessionCount` subtracts the indices on the stack from all of them, and
`SessionCount` is raised by `OnAccept` behind its push and lowered by `OnRelease` before it takes its
session off `sessionMap`.

* `State` — the slots with `SessionCount`, and where the two threads are around it.
* `underWay` — the indices that a thread has in its hands.
* `Leaving` — the session `OnRelease` has counted out is on `sessionMap` until it clears the entry.
* `run_sessionCounts` — **`GetSessionCount` also counts the slots whose player awaits its
  destruction, the other two agree**, at every moment but for what the threads are at work on.
-/

set_option autoImplicit false

namespace IocpServer

open Lib Slots

namespace SessionCount

structure State where
  slots : Slots.State
  sessionCount : Int32
  /-- `OnAccept` has pushed its session and not counted it. -/
  pushed : Bool
  /-- The session that `OnRelease` has counted out and not taken off `sessionMap`. -/
  leaving : Option Nat

inductive Action where
  | slots (a : Slots.Action)
  /-- `InterlockedIncrement(&SessionCount)`. -/
  | countIn
  /-- The destroy thread begins the release of a session it found in `sessionMap`:
  `InterlockedDecrement(&SessionCount)`. -/
  | countOut (p : Nat)

def countIn (s : State) : Except Fault State :=
  if s.pushed then .ok { s with sessionCount := s.sessionCount + 1, pushed := false }
  else .error .notEnabled

def countOut (s : State) (p : Nat) : Except Fault State :=
  match s.slots.destroy, s.leaving, s.slots.heap p with
  | .idle, none, some session =>
    if s.slots.sessionMap session.sessionId.index = some p then
      .ok { s with sessionCount := s.sessionCount - 1, leaving := some p }
    else .error .notEnabled
  | _, _, _ => .error .notEnabled

/-- The accept thread is before its push. -/
def pushes (x : Slots.State) : Bool :=
  match x.accept with
  | .mapped _ _ => true
  | _ => false

/-- A step of the slots, with the two threads that count in their order. -/
def slotsStep (s : State) (a : Slots.Action) : Except Fault State :=
  match Slots.step s.slots a with
  | .error fault => .error fault
  | .ok slots =>
    match a with
    | .onAccept _ => if s.pushed then .error .notEnabled else .ok { s with slots := slots }
    | .acceptThread =>
      if s.pushed then .error .notEnabled
      else .ok { s with slots := slots, pushed := pushes s.slots }
    | .onRelease p =>
      if s.leaving = some p then .ok { s with slots := slots, leaving := none }
      else .error .notEnabled
    | _ => .ok { s with slots := slots }

def step (s : State) : Action → Except Fault State
  | .slots a => slotsStep s a
  | .countIn => countIn s
  | .countOut p => countOut s p

def init (maxSessionCount : Nat) (uniqueCharacterId : UInt32) : State :=
  ⟨Slots.init maxSessionCount uniqueCharacterId, 0, false, none⟩

/-! ## The numbers -/

/-- The sessions in the first `n` entries of `sessionMap`. -/
def alive (n : Nat) (x : Slots.State) : Nat := occupied n x.sessionMap

/-- `CountAliveSessions`. -/
def countAliveSessions (maxSessionCount : Nat) (x : Slots.State) : Int32 :=
  Int32.ofNat (alive maxSessionCount x)

/-- `GetSessionCount`. -/
def getSessionCount (maxSessionCount : Nat) (x : Slots.State) : Int32 :=
  Int32.ofNat maxSessionCount - Int32.ofNat x.emptySessionMapStack.length

/-- An index `OnAccept` has popped and not mapped. -/
def accepting (x : Slots.State) : Nat :=
  match x.accept with
  | .built _ _ => 1
  | _ => 0

/-- A session that is mapped and not counted yet. -/
def uncounted (s : State) : Nat :=
  (pushes s.slots).toNat + s.pushed.toNat

/-- A session that is counted out and still mapped. -/
def uncleared (s : State) : Nat := s.leaving.isSome.toNat

/-- An index in the hands of the destroy thread. -/
def releasing (x : Slots.State) : Nat :=
  match x.destroy with
  | .idle => 0
  | _ => 1

/-- An index in the hands of `FlushFrame`. -/
def flushing (x : Slots.State) : Nat :=
  match x.logic with
  | .flush _ | .leave _ | .clear _ | .free _ _ | .giveIndex _ => 1
  | _ => 0

def underWay (x : Slots.State) : Nat := accepting x + releasing x + flushing x

structure SessionCounts (maxSessionCount : Nat) (s : State) : Prop where
  slots : (getSessionCount maxSessionCount s.slots).toInt =
    (countAliveSessions maxSessionCount s.slots).toInt +
      s.slots.destroyPlayerRequestQueue.length + underWay s.slots
  sessions : s.sessionCount.toInt + uncounted s + uncleared s =
    (countAliveSessions maxSessionCount s.slots).toInt
  /-- A session that is counted out is there to be taken off. -/
  leaving : ∀ p, s.leaving = some p → ∃ x, Slots.step s.slots (.onRelease p) = .ok x

/-- The step condition: that of the slots. -/
def CountOk (s : State) : Action → Prop
  | .slots a => PopOk s.slots a
  | _ => True

/-! ## One step -/

variable {n : Nat} {x y : Slots.State} {b : Slots.Action} {s t : State} {a : Action}
  {owner : Nat → Owner} {p : Nat}

/-- Every index is counted once. -/
def Balance (n : Nat) (x : Slots.State) : Prop :=
  x.emptySessionMapStack.length + alive n x + x.destroyPlayerRequestQueue.length + underWay x = n

theorem Balance.onAccept (h : Balance n x) (hok : PopOk x (.onAccept p))
    (hstep : Slots.onAccept x p = .ok y) : Balance n y := by
  obtain ⟨i, stack, hstack, -⟩ := hok
  unfold Slots.onAccept at hstep
  split at hstep <;> cases hstep
  rename_i haccept _
  simp only [Balance, underWay, accepting, haccept, hstack, List.length_cons] at h
  simp only [Balance, underWay, accepting, hstack, pop]
  simp only [alive, releasing, flushing] at h ⊢
  omega

theorem Balance.acceptStep (h : Balance n x) (H : Held owner x) (B : SlotBounds.InRange n x)
    (hstep : Slots.acceptStep x = .ok y) :
    Balance n y ∧ alive n y = alive n x + (pushes y).toNat := by
  unfold Slots.acceptStep at hstep
  have haccept := H.accept
  have hrange := B.accept
  split at hstep
  · cases hstep
  · rename_i q id hpc
    rw [hpc] at haccept hrange
    cases hstep
    have hcount : alive n { x with
        sessionMap := Function.update x.sessionMap id.index (some q), accept := .mapped q id } =
        alive n x + 1 := occupied_set haccept.2 hrange
    unfold Balance at h ⊢
    simp only [pushes, underWay, accepting, hpc] at h ⊢
    rw [hcount]
    simp only [releasing, flushing] at h ⊢
    exact ⟨by omega, rfl⟩
  · rename_i q id hpc
    split at hstep <;> cases hstep
    simp only [Balance, pushes, underWay, accepting, hpc] at h ⊢
    simp only [alive, releasing, flushing] at h ⊢
    exact ⟨by omega, rfl⟩

theorem Balance.flushFrame (h : Balance n x) (hstep : Slots.flushFrame x = .ok y) :
    Balance n y := by
  unfold Slots.flushFrame at hstep
  split at hstep <;> cases hstep
  rename_i hlogic hqueue
  simp only [Balance, underWay, flushing, hlogic, hqueue, List.length_cons] at h
  simp only [Balance, underWay, flushing]
  simp only [alive, releasing, accepting] at h ⊢
  omega

theorem Balance.logicStep (h : Balance n x) (hstep : Slots.logicStep x = .ok y) :
    Balance n y := by
  unfold Slots.logicStep at hstep
  split at hstep
  all_goals try rename_i hpc
  all_goals simp only [Balance, underWay, flushing, hpc] at h
  · cases hstep
  · split at hstep <;> cases hstep <;> exact h
  · split at hstep <;> cases hstep
    exact h
  · split at hstep <;> cases hstep
    exact h
  · split at hstep <;> cases hstep
    exact h
  · cases hstep
    exact h
  · split at hstep <;> cases hstep
    exact h
  · cases hstep
    exact h
  · split at hstep <;> cases hstep
    exact h
  · cases hstep
    exact h
  · cases hstep
    simp only [Balance, underWay, flushing, List.length_cons]
    simp only [alive, releasing, accepting] at h ⊢
    omega

theorem Balance.onRelease (h : Balance n x) (B : SlotBounds.InRange n x)
    (hstep : Slots.onRelease x p = .ok y) :
    Balance n y ∧ alive n y + 1 = alive n x := by
  unfold Slots.onRelease at hstep
  split at hstep
  · rename_i session hdestroy hp
    split at hstep <;> cases hstep
    rename_i hmapped
    have hcount : alive n { x with
        sessionMap := Function.update x.sessionMap session.sessionId.index none
        destroy := .unmapped p session.sessionId } + 1 = alive n x :=
      occupied_clear hmapped (B.heap p session hp).1
    unfold Balance at h ⊢
    simp only [underWay, releasing, hdestroy] at h ⊢
    simp only [accepting, flushing] at h ⊢
    omega
  · cases hstep

theorem Balance.destroyStep (h : Balance n x) (hstep : Slots.destroyStep x = .ok y) :
    Balance n y := by
  unfold Slots.destroyStep at hstep
  split at hstep
  all_goals try rename_i hpc
  all_goals simp only [Balance, underWay, releasing, hpc] at h
  · cases hstep
  · cases hstep
    exact h
  · split at hstep <;> cases hstep <;> exact h
  · split at hstep <;> cases hstep
    exact h
  · cases hstep
    simp only [Balance, underWay, releasing, List.length_append, List.length_singleton]
    simp only [alive, accepting, flushing] at h ⊢
    omega
  · cases hstep
    simp only [Balance, underWay, releasing, List.length_cons]
    simp only [alive, accepting, flushing] at h ⊢
    omega

/-- A step of the logic thread or the destroy thread leaves the sessions where they are. -/
theorem quiet_step (h : Slots.step x b = .ok y) (hpop : ∀ p, b ≠ .onAccept p)
    (haccept : b ≠ .acceptThread) (hrelease : ∀ p, b ≠ .onRelease p) :
    y.accept = x.accept ∧ y.sessionMap = x.sessionMap := by
  cases b with
  | onAccept p => exact absurd rfl (hpop p)
  | acceptThread => exact absurd rfl haccept
  | createNewPlayer p =>
    simp only [Slots.step, Slots.createNewPlayer] at h
    split at h <;> cases h
    exact ⟨rfl, rfl⟩
  | flushFrame =>
    simp only [Slots.step, Slots.flushFrame] at h
    split at h <;> cases h
    exact ⟨rfl, rfl⟩
  | logicThread =>
    simp only [Slots.step, Slots.logicStep] at h
    split at h
    all_goals try split at h
    all_goals cases h
    all_goals exact ⟨rfl, rfl⟩
  | onRelease p => exact absurd rfl (hrelease p)
  | destroyThread =>
    simp only [Slots.step, Slots.destroyStep] at h
    split at h
    all_goals try split at h
    all_goals cases h
    all_goals exact ⟨rfl, rfl⟩

theorem Balance.quiet (hb : Balance n x) (h : Slots.step x b = .ok y) (hpop : ∀ p, b ≠ .onAccept p)
    (haccept : b ≠ .acceptThread) (hrelease : ∀ p, b ≠ .onRelease p) : Balance n y := by
  cases b with
  | onAccept p => exact absurd rfl (hpop p)
  | acceptThread => exact absurd rfl haccept
  | createNewPlayer p =>
    simp only [Slots.step, Slots.createNewPlayer] at h
    split at h <;> cases h
    rename_i hlogic _ _
    simp only [Balance, underWay, flushing, hlogic] at hb
    exact hb
  | flushFrame => exact hb.flushFrame h
  | logicThread => exact hb.logicStep h
  | onRelease p => exact absurd rfl (hrelease p)
  | destroyThread => exact hb.destroyStep h

/-! ## The session that leaves -/

/-- The session at `p` is on `sessionMap`, and the destroy thread has not begun to free it. -/
def Leaving (x : Slots.State) (p : Nat) : Prop :=
  x.destroy = .idle ∧ ∃ id, x.ids p = some id ∧ x.sessionMap id.index = some p

theorem Leaving.onRelease (L : Leaving x p) : ∃ y, Slots.onRelease x p = .ok y := by
  obtain ⟨hdestroy, id, hid, hmap⟩ := L
  obtain ⟨session, hp, rfl⟩ := Option.map_eq_some_iff.mp hid
  unfold Slots.onRelease
  rw [hdestroy, hp]
  exact ⟨_, if_pos hmap⟩

/-- Nobody else takes it away. -/
theorem Leaving.step (L : Leaving x p) (H : Held owner x) (h : Slots.step x b = .ok y)
    (hrelease : ∀ q, b ≠ .onRelease q) : Leaving y p := by
  obtain ⟨hdestroy, id, hid, hmap⟩ := L
  cases b with
  | onAccept q =>
    simp only [Slots.step, Slots.onAccept] at h
    split at h <;> cases h
    rename_i hq
    have hpq : p ≠ q := by
      rintro rfl
      rw [Slots.State.ids, hq] at hid
      cases hid
    refine ⟨hdestroy, id, ?_, hmap⟩
    show (Function.update x.heap q _ p).map Session.sessionId = _
    rw [Function.update_of_ne hpq]
    exact hid
  | acceptThread =>
    have haccept := H.accept
    simp only [Slots.step, Slots.acceptStep] at h
    split at h
    · cases h
    · rename_i q id' hpc
      rw [hpc] at haccept
      cases h
      refine ⟨hdestroy, id, hid, ?_⟩
      have hne : id.index ≠ id'.index := by
        intro heq
        have hnone := haccept.2
        rw [← heq, hmap] at hnone
        cases hnone
      exact (Function.update_of_ne hne _ _).trans hmap
    · split at h <;> cases h
      exact ⟨hdestroy, id, hid, hmap⟩
  | createNewPlayer q =>
    simp only [Slots.step, Slots.createNewPlayer] at h
    split at h <;> cases h
    exact ⟨hdestroy, id, hid, hmap⟩
  | flushFrame =>
    simp only [Slots.step, Slots.flushFrame] at h
    split at h <;> cases h
    exact ⟨hdestroy, id, hid, hmap⟩
  | logicThread =>
    simp only [Slots.step, Slots.logicStep] at h
    split at h
    case h_4 =>
      -- `RegisterSessionPlayer` writes to a session
      rename_i ses _
      split at h <;> cases h
      rename_i session player hq _
      have hids : (fun r => (Function.update x.heap ses (some { session with
          playerId := some player.playerId }) r).map Session.sessionId) = x.ids :=
        ids_update hq rfl
      exact ⟨hdestroy, id, (congrFun hids p).trans hid, hmap⟩
    all_goals try split at h
    all_goals cases h
    all_goals exact ⟨hdestroy, id, hid, hmap⟩
  | onRelease q => exact absurd rfl (hrelease q)
  | destroyThread =>
    simp only [Slots.step, Slots.destroyStep, hdestroy] at h
    cases h

/-! ## Runs -/

/-- The index popped under the condition is below the bound. -/
theorem newId_lt_of_popOk (B : SlotBounds.InRange n x) (hok : PopOk x (.onAccept p)) :
    (newId x).index < n := by
  obtain ⟨i, stack, hstack, hlt⟩ := hok
  have hi := B.stack i (hstack ▸ List.mem_cons_self)
  show (pop x.emptySessionMapStack).1 % 2 ^ 16 < n
  rw [hstack]
  exact (Nat.mod_eq_of_lt hlt).symm ▸ hi

structure Inv (n : Nat) (s : State) : Prop where
  held : ∃ owner, Held owner s.slots
  range : SlotBounds.InRange n s.slots
  balance : Balance n s.slots
  leaving : ∀ p, s.leaving = some p → Leaving s.slots p
  sessions : s.sessionCount = Int32.ofInt (alive n s.slots - uncounted s - uncleared s)

theorem alive_init (uniqueCharacterId : UInt32) : alive n (Slots.init n uniqueCharacterId) = 0 :=
  List.countP_eq_zero.mpr fun _ _ => Bool.false_ne_true

theorem Inv.init (uniqueCharacterId : UInt32) : Inv n (SessionCount.init n uniqueCharacterId) := by
  refine ⟨⟨_, Held.init n uniqueCharacterId⟩, SlotBounds.InRange.init uniqueCharacterId, ?_, nofun,
    ?_⟩
  · show (List.range n).length + alive n (Slots.init n uniqueCharacterId) + 0 + 0 = n
    rw [alive_init, List.length_range]
    rfl
  · show 0 = Int32.ofInt (alive n (Slots.init n uniqueCharacterId) - 0 - 0)
    rw [alive_init]
    rfl

theorem Inv.countIn (I : Inv n s) (h : SessionCount.countIn s = .ok t) : Inv n t := by
  unfold SessionCount.countIn at h
  split at h <;> cases h
  rename_i hpushed
  refine { I with sessions := ?_ }
  have hsessions := I.sessions
  simp only [uncounted, uncleared, hpushed, Bool.toNat_true, Bool.toNat_false] at hsessions ⊢
  rw [hsessions, show (1 : Int32) = Int32.ofInt 1 from rfl, ← Int32.ofInt_add]
  congr 1
  omega

theorem Inv.countOut (I : Inv n s) (h : SessionCount.countOut s p = .ok t) : Inv n t := by
  unfold SessionCount.countOut at h
  split at h
  · rename_i session hdestroy hleaving hp
    split at h <;> cases h
    rename_i hmap
    refine { I with leaving := fun q hq => ?_, sessions := ?_ }
    · cases hq
      exact ⟨hdestroy, _, ids_of_heap hp, hmap⟩
    · have hsessions := I.sessions
      simp only [uncounted, uncleared, hleaving, Option.isSome_none, Option.isSome_some,
        Bool.toNat_true, Bool.toNat_false] at hsessions ⊢
      rw [hsessions, show (1 : Int32) = Int32.ofInt 1 from rfl, ← Int32.ofInt_sub]
      congr 1
      omega
  · cases h

theorem Inv.slots (I : Inv n s) (hok : PopOk s.slots b) (h : slotsStep s b = .ok t) : Inv n t := by
  obtain ⟨owner, H⟩ := I.held
  have balance := I.balance
  have hsessions := I.sessions
  unfold slotsStep at h
  split at h
  · cases h
  rename_i y hstep
  have hheld : ∃ owner, Held owner y := (H.step hok hstep).imp fun _ h => h.1
  have hrange : SlotBounds.InRange n y := by
    refine I.range.step (fun p hb => ?_) hstep
    subst hb
    exact newId_lt_of_popOk I.range hok
  have hleaving : (∀ q, b ≠ .onRelease q) → ∀ p, s.leaving = some p → Leaving y p :=
    fun hb p hp => (I.leaving p hp).step H hstep hb
  cases b with
  | onAccept p =>
    dsimp only at h
    split at h <;> cases h
    refine ⟨hheld, hrange, balance.onAccept hok hstep, hleaving (by rintro _ ⟨⟩), ?_⟩
    simp only [Slots.step, Slots.onAccept] at hstep
    split at hstep <;> cases hstep
    rename_i haccept _
    rw [hsessions]
    simp only [alive, uncounted, pushes, haccept]
    rfl
  | acceptThread =>
    dsimp only at h
    split at h <;> cases h
    rename_i hpushed
    obtain ⟨hbalance, halive⟩ := balance.acceptStep H I.range hstep
    refine ⟨hheld, hrange, hbalance, hleaving (by rintro _ ⟨⟩), ?_⟩
    simp only [uncounted, uncleared, Bool.eq_false_of_not_eq_true hpushed, Bool.toNat_false,
      halive] at hsessions ⊢
    rw [hsessions]
    congr 1
    omega
  | onRelease p =>
    dsimp only at h
    split at h <;> cases h
    rename_i hp
    obtain ⟨hbalance, halive⟩ := balance.onRelease I.range hstep
    refine ⟨hheld, hrange, hbalance, by rintro _ ⟨⟩, ?_⟩
    have haccept : y.accept = s.slots.accept := by
      simp only [Slots.step, Slots.onRelease] at hstep
      split at hstep
      · split at hstep <;> cases hstep
        rfl
      · cases hstep
    simp only [uncounted, uncleared, pushes, haccept, hp, Option.isSome_some, Option.isSome_none,
      Bool.toNat_true, Bool.toNat_false] at hsessions ⊢
    rw [hsessions]
    congr 1
    omega
  | createNewPlayer | flushFrame | logicThread | destroyThread =>
    cases h
    obtain ⟨haccept, hmap⟩ :=
      quiet_step hstep (by rintro _ ⟨⟩) (by rintro ⟨⟩) (by rintro _ ⟨⟩)
    have hbalance := balance.quiet hstep (by rintro _ ⟨⟩) (by rintro ⟨⟩) (by rintro _ ⟨⟩)
    refine ⟨hheld, hrange, hbalance, hleaving (by rintro _ ⟨⟩), ?_⟩
    simp only [uncounted, uncleared, pushes, alive, haccept, hmap] at hsessions ⊢
    exact hsessions

theorem Inv.step (I : Inv n s) (hok : CountOk s a) (h : SessionCount.step s a = .ok t) :
    Inv n t := by
  cases a with
  | slots b => exact I.slots hok h
  | countIn => exact I.countIn h
  | countOut p => exact I.countOut h

theorem Balance.toInt_getSessionCount (h : Balance n x) (hn : n < 2 ^ 31) :
    (getSessionCount n x).toInt =
      (alive n x + x.destroyPlayerRequestQueue.length + underWay x : Nat) := by
  have hsum : n = alive n x + x.destroyPlayerRequestQueue.length + underWay x +
      x.emptySessionMapStack.length := by
    unfold Balance at h
    omega
  have hcount : getSessionCount n x =
      Int32.ofNat (alive n x + x.destroyPlayerRequestQueue.length + underWay x) := by
    unfold getSessionCount
    conv => lhs; rw [hsum]
    rw [Int32.ofNat_add, Int32.add_sub_cancel]
  rw [hcount, Int32.toInt_ofNat_of_lt (by omega)]

theorem Inv.sessionCounts (I : Inv n s) (hn : n < 2 ^ 31) : SessionCounts n s := by
  have halive : alive n s.slots ≤ n := by
    have := I.balance
    unfold Balance at this
    omega
  have hcounted : (countAliveSessions n s.slots).toInt = alive n s.slots :=
    Int32.toInt_ofNat_of_lt (by omega)
  have hbits : uncounted s ≤ 2 ∧ uncleared s ≤ 1 := by
    have := Bool.toNat_le (pushes s.slots)
    have := Bool.toNat_le s.pushed
    exact ⟨by unfold uncounted; omega, Bool.toNat_le _⟩
  refine ⟨?_, ?_, fun p hp => (I.leaving p hp).onRelease⟩
  · rw [I.balance.toInt_getSessionCount hn, hcounted]
    omega
  · rw [I.sessions, hcounted, Int32.toInt_ofInt_of_le (by omega) (by omega)]
    omega

/-- **Session counts.**  For every `maxSessionCount` of an `int`, in every run of accepts, releases
and the logic thread in which `OnAccept` finds an index on the stack, of 16 bits, `GetSessionCount`
is the number of sessions in `sessionMap` and of destroy requests in the queue, and `SessionCount` is
the number of sessions in `sessionMap`, up to what the threads have in their hands. -/
theorem run_sessionCounts {maxSessionCount : Nat} {uniqueCharacterId : UInt32} {as : List Action}
    (hint : maxSessionCount < 2 ^ 31)
    (hr : Run (fun s a t => step s a = .ok t) CountOk (init maxSessionCount uniqueCharacterId) as t) :
    SessionCounts maxSessionCount t := by
  have I : Inv maxSessionCount t :=
    hr.invariant (Inv.init uniqueCharacterId) fun _ _ _ I hok hstep => I.step hok hstep
  exact I.sessionCounts hint

/-- Of two sessions one is released while its player is there, the other one is counted out:
`GetSessionCount` still says two, `CountAliveSessions` one and `SessionCount` none. -/
theorem run_sessionCounts_released :
    ∃ t, Run (fun s a t => step s a = .ok t) CountOk (init 3 0)
        [.slots (.onAccept 1), .slots .acceptThread, .slots .acceptThread, .countIn,
          .slots (.onAccept 2), .slots .acceptThread, .slots .acceptThread, .countIn,
          .slots (.createNewPlayer 7), .slots .logicThread, .slots .logicThread,
          .slots .logicThread, .slots .logicThread, .slots .logicThread, .countOut 1,
          .slots (.onRelease 1), .slots .destroyThread, .slots .destroyThread,
          .slots .destroyThread, .slots .destroyThread, .countOut 2] t ∧
      getSessionCount 3 t.slots = 2 ∧ countAliveSessions 3 t.slots = 1 ∧ t.sessionCount = 0 ∧
      SessionCounts 3 t := by
  obtain ⟨t, hr, hcounts⟩ : ∃ t, Run (fun s a t => step s a = .ok t) CountOk (init 3 0)
        [.slots (.onAccept 1), .slots .acceptThread, .slots .acceptThread, .countIn,
          .slots (.onAccept 2), .slots .acceptThread, .slots .acceptThread, .countIn,
          .slots (.createNewPlayer 7), .slots .logicThread, .slots .logicThread,
          .slots .logicThread, .slots .logicThread, .slots .logicThread, .countOut 1,
          .slots (.onRelease 1), .slots .destroyThread, .slots .destroyThread,
          .slots .destroyThread, .slots .destroyThread, .countOut 2] t ∧
      getSessionCount 3 t.slots = 2 ∧ countAliveSessions 3 t.slots = 1 ∧ t.sessionCount = 0 := by
    refine ⟨_, .cons rfl ⟨0, [1, 2], rfl, by decide⟩ <| .cons rfl trivial <| .cons rfl trivial <|
      .cons rfl trivial <| .cons rfl ⟨1, [2], rfl, by decide⟩ <| .cons rfl trivial <|
      .cons rfl trivial <| .cons rfl trivial <| .cons rfl trivial <| .cons rfl trivial <|
      .cons rfl trivial <| .cons rfl trivial <| .cons rfl trivial <| .cons rfl trivial <|
      .cons rfl trivial <| .cons rfl trivial <| .cons rfl trivial <| .cons rfl trivial <|
      .cons rfl trivial <| .cons rfl trivial <| .cons rfl trivial .nil, rfl, rfl, rfl⟩
  exact ⟨t, hr, hcounts.1, hcounts.2.1, hcounts.2.2, run_sessionCounts (by decide) hr⟩

end SessionCount

end IocpServer
