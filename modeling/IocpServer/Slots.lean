import IocpServer.Struct
import IocpServer.Lib.Run
import IocpServer.Lib.Table
import Mathlib.Data.List.Nodup

/-!
# Session slots and the players in them

A session and its player live under one slot index: `OnAccept` pops it from
`emptySessionMapStack`, `CreateNewPlayer` stores the player under it, and after `OnRelease` and
`RequestDestroyPlayer` either the destroy thread or `FlushFrame` gives it back.  The accept
thread, the destroy thread and the logic thread move one access to shared data at a time.

`RegisterSessionPlayer` asks only whether the slot holds *a* session, not whether it holds the
session the player is created for.

* `SlotOk` — the step condition: `RegisterSessionPlayer` writes to the session the player was
  created for, `RequestDestroyPlayer` does not look at a slot between that write and the store
  into `playerList`, and `OnAccept` pops an index and is given an id nobody waits for.
* `Inv` — every slot index has one owner: the stack, a session, a request or the thread that is
  giving it back.
* `run_identified` — **in every run whose steps meet the condition every active player is the
  one stored at its index, and every session names a player created for it.**
-/

set_option autoImplicit false

namespace IocpServer

open Lib

namespace Slots

/-- The fields of `SESSION` its identity depends on. -/
structure Session where
  sessionId : SessionId
  /-- `none` until `RegisterSessionPlayer` writes it. -/
  playerId : Option PlayerId

/-- The fields of `Player` its identity depends on. -/
structure Player where
  sessionId : SessionId
  playerId : PlayerId
  isDead : Bool
  isDestroyRequest : Bool

inductive AcceptPc where
  | idle
  /-- `OnAccept` has built the session `p`. -/
  | built (p : Nat) (id : SessionId)
  /-- Before `PushNewSession`. -/
  | mapped (p : Nat) (id : SessionId)

inductive LogicPc where
  | idle
  /-- `CreateNewPlayer`, before `RegisterSessionPlayer` looks at the slot. -/
  | register (id : SessionId) (p : Nat)
  /-- `RegisterSessionPlayer` reads the slot once more to write `playerId`. -/
  | registerRead (id : SessionId) (p : Nat)
  | registerWrite (id : SessionId) (p ses : Nat)
  /-- Before the store into `playerList`. -/
  | store (id : SessionId) (p : Nat)
  | pushActive (id : SessionId) (p : Nat)
  /-- `FlushFrame` has taken a destroy request. -/
  | flush (id : SessionId)
  | leave (p : Nat)
  | clear (p : Nat)
  | free (p i : Nat)
  | giveIndex (i : Nat)

inductive DestroyPc where
  | idle
  /-- `OnRelease`, the entry of `sessionMap` is null. -/
  | unmapped (p : Nat) (id : SessionId)
  /-- `RequestDestroyPlayer` begins. -/
  | freed (id : SessionId)
  | mark (id : SessionId) (p : Nat)
  | enqueue (id : SessionId)
  | giveIndex (i : Nat)

structure State where
  heap : Nat → Option Session
  sessionMap : Nat → Option Nat
  emptySessionMapStack : List Nat
  /-- The counter behind the unique ids. -/
  sessionId : Nat
  newSessionQueue : List SessionId
  destroyPlayerRequestQueue : List SessionId
  players : Nat → Option Player
  playerList : Nat → Option Nat
  activePlayerList : List Nat
  uniqueCharacterId : UInt32
  accept : AcceptPc
  logic : LogicPc
  destroy : DestroyPc
  /-- History: the players created so far and the ids they were created for. -/
  created : List (PlayerId × SessionId)

inductive Fault where
  | nullPointer
  | useAfterFree
  | notEnabled
  deriving DecidableEq

/-- What an idle thread begins (with the address the allocator returns), and the next step of a
thread at work. -/
inductive Action where
  | onAccept (p : Nat)
  | acceptThread
  | createNewPlayer (p : Nat)
  | flushFrame
  | logicThread
  /-- The destroy thread begins the release of a session it found in `sessionMap`. -/
  | onRelease (p : Nat)
  | destroyThread

/-- `emptySessionMapStack.Pop()`: 0 when the stack is empty. -/
def pop : List Nat → Nat × List Nat
  | [] => (0, [])
  | i :: stack => (i, stack)

def nextSessionId (s : State) : Nat := (s.sessionId + 1) % 2 ^ 64

/-- The id `OnAccept` gives its session. -/
def newId (s : State) : SessionId :=
  .pack (pop s.emptySessionMapStack).1 (nextSessionId s % 0x1FFFF)

def onAccept (s : State) (p : Nat) : Except Fault State :=
  match s.accept, s.heap p with
  | .idle, none =>
    .ok { s with
      heap := Function.update s.heap p (some ⟨newId s, none⟩)
      sessionId := nextSessionId s
      emptySessionMapStack := (pop s.emptySessionMapStack).2
      accept := .built p (newId s) }
  | _, _ => .error .notEnabled

def acceptStep (s : State) : Except Fault State :=
  match s.accept with
  | .idle => .error .notEnabled
  | .built p id =>
    .ok { s with
      sessionMap := Function.update s.sessionMap id.index (some p)
      accept := .mapped p id }
  | .mapped p _ =>
    match s.heap p with
    | none => .error .useAfterFree
    | some session =>
      .ok { s with newSessionQueue := s.newSessionQueue ++ [session.sessionId], accept := .idle }

def createNewPlayer (s : State) (p : Nat) : Except Fault State :=
  match s.logic, s.newSessionQueue, s.players p with
  | .idle, id :: queue, none =>
    let player : Player := ⟨id, ⟨id.index, s.uniqueCharacterId + 1⟩, false, false⟩
    .ok { s with
      newSessionQueue := queue
      uniqueCharacterId := s.uniqueCharacterId + 1
      players := Function.update s.players p (some player)
      created := s.created ++ [(player.playerId, player.sessionId)]
      logic := .register id p }
  | _, _, _ => .error .notEnabled

def flushFrame (s : State) : Except Fault State :=
  match s.logic, s.destroyPlayerRequestQueue with
  | .idle, id :: queue => .ok { s with destroyPlayerRequestQueue := queue, logic := .flush id }
  | _, _ => .error .notEnabled

def logicStep (s : State) : Except Fault State :=
  match s.logic with
  | .idle => .error .notEnabled
  | .register id p =>
    match s.sessionMap id.index with
    | none => .ok { s with players := Function.update s.players p none, logic := .idle }
    | some _ => .ok { s with logic := .registerRead id p }
  | .registerRead id p =>
    match s.sessionMap id.index with
    | none => .error .nullPointer
    | some ses => .ok { s with logic := .registerWrite id p ses }
  | .registerWrite id p ses =>
    match s.heap ses, s.players p with
    | some session, some player =>
      .ok { s with
        heap := Function.update s.heap ses (some { session with playerId := some player.playerId })
        logic := .store id p }
    | _, _ => .error .useAfterFree
  | .store id p =>
    match s.players p with
    | none => .error .useAfterFree
    | some player =>
      .ok { s with
        playerList := Function.update s.playerList player.playerId.index (some p)
        logic := .pushActive id p }
  | .pushActive _ p => .ok { s with activePlayerList := s.activePlayerList ++ [p], logic := .idle }
  | .flush id =>
    match s.playerList id.index with
    | none => .error .nullPointer
    | some p => .ok { s with logic := .leave p }
  | .leave p =>
    .ok { s with activePlayerList := s.activePlayerList.filter (· ≠ p), logic := .clear p }
  | .clear p =>
    match s.players p with
    | none => .error .useAfterFree
    | some player =>
      .ok { s with
        playerList := Function.update s.playerList player.playerId.index none
        logic := .free p player.playerId.index }
  | .free p i => .ok { s with players := Function.update s.players p none, logic := .giveIndex i }
  | .giveIndex i =>
    .ok { s with emptySessionMapStack := i :: s.emptySessionMapStack, logic := .idle }

def onRelease (s : State) (p : Nat) : Except Fault State :=
  match s.destroy, s.heap p with
  | .idle, some session =>
    if s.sessionMap session.sessionId.index = some p then
      .ok { s with
        sessionMap := Function.update s.sessionMap session.sessionId.index none
        destroy := .unmapped p session.sessionId }
    else .error .notEnabled
  | _, _ => .error .notEnabled

def destroyStep (s : State) : Except Fault State :=
  match s.destroy with
  | .idle => .error .notEnabled
  | .unmapped p id => .ok { s with heap := Function.update s.heap p none, destroy := .freed id }
  | .freed id =>
    match s.playerList id.index with
    | none => .ok { s with destroy := .giveIndex id.index }
    | some p => .ok { s with destroy := .mark id p }
  | .mark id p =>
    match s.players p with
    | none => .error .useAfterFree
    | some player =>
      .ok { s with
        players := Function.update s.players p
          (some { player with isDead := true, isDestroyRequest := true })
        destroy := .enqueue id }
  | .enqueue id =>
    .ok { s with
      destroyPlayerRequestQueue := s.destroyPlayerRequestQueue ++ [id]
      destroy := .idle }
  | .giveIndex i =>
    .ok { s with emptySessionMapStack := i :: s.emptySessionMapStack, destroy := .idle }

def step (s : State) : Action → Except Fault State
  | .onAccept p => onAccept s p
  | .acceptThread => acceptStep s
  | .createNewPlayer p => createNewPlayer s p
  | .flushFrame => flushFrame s
  | .logicThread => logicStep s
  | .onRelease p => onRelease s p
  | .destroyThread => destroyStep s

/-- A server without sessions and with the slots `0 .. maxSessionCount - 1`. -/
def init (maxSessionCount : Nat) (uniqueCharacterId : UInt32) : State where
  heap := fun _ => none
  sessionMap := fun _ => none
  emptySessionMapStack := List.range maxSessionCount
  sessionId := 0
  newSessionQueue := []
  destroyPlayerRequestQueue := []
  players := fun _ => none
  playerList := fun _ => none
  activePlayerList := []
  uniqueCharacterId := uniqueCharacterId
  accept := .idle
  logic := .idle
  destroy := .idle
  created := []

/-! ## The promise and its condition -/

/-- Sessions and players agree on who is who. -/
structure Identified (s : State) : Prop where
  /-- An active player is the one stored in `playerList` at its index. -/
  stored : ∀ p ∈ s.activePlayerList, ∃ player, s.players p = some player ∧
    s.playerList player.playerId.index = some p
  distinct : s.activePlayerList.Pairwise fun p q => ∀ player player', s.players p = some player →
    s.players q = some player' → player.playerId.index ≠ player'.playerId.index
  /-- The player a session names was created for the session's own id. -/
  named : ∀ p session playerId, s.heap p = some session → session.playerId = some playerId →
    (playerId, session.sessionId) ∈ s.created

/-- The ids whose player is not stored yet: `OnAccept` is about to push them, they wait in
`newSessionQueue`, or `CreateNewPlayer` is at work on them. -/
def pending (accept : AcceptPc) (newSessionQueue : List SessionId) (logic : LogicPc) :
    List SessionId :=
  (match accept with
    | .idle => []
    | .built _ id | .mapped _ id => [id]) ++ newSessionQueue ++
  match logic with
    | .register id _ | .registerRead id _ | .registerWrite id _ _ | .store id _ => [id]
    | _ => []

/-- The step condition. -/
def SlotOk (s : State) : Action → Prop
  | .onAccept _ =>
    (∃ i stack, s.emptySessionMapStack = i :: stack ∧ i < 2 ^ 16) ∧
      newId s ∉ pending s.accept s.newSessionQueue s.logic
  | .logicThread =>
    ∀ id p ses, s.logic = .registerWrite id p ses →
      ∃ session, s.heap ses = some session ∧ session.sessionId = id
  | .destroyThread =>
    ∀ id, s.destroy = .freed id → ∀ id' p, s.logic = .store id' p → id'.index ≠ id.index
  | _ => True

/-! ## The invariant -/

/-- Who answers for a slot index, and for which id. -/
inductive Owner where
  /-- `emptySessionMapStack`. -/
  | free
  /-- The session at `p`. -/
  | session (p : Nat) (id : SessionId)
  /-- The destroy thread, before it looks at `playerList`; then about to push the index. -/
  | released (id : SessionId)
  | returning
  /-- The destroy request. -/
  | requested (id : SessionId)
  /-- `FlushFrame`. -/
  | flushing

/-- A slot under this owner may hold the player created for `id`. -/
def Owned (id : SessionId) : Owner → Prop
  | .session _ id' | .released id' | .requested id' => id' = id
  | .flushing => True
  | .free | .returning => False

/-- The ids of the allocated sessions. -/
def State.ids (s : State) (p : Nat) : Option SessionId := (s.heap p).map Session.sessionId

/-- The ids of the allocated players. -/
def State.names (s : State) (p : Nat) : Option (PlayerId × SessionId) :=
  (s.players p).map fun player => (player.playerId, player.sessionId)

/-- The destroy requests on their way to `FlushFrame`. -/
def requests (destroy : DestroyPc) (queue : List SessionId) : List SessionId :=
  (match destroy with
    | .mark id _ | .enqueue id => [id]
    | _ => []) ++ queue

section

variable (owner : Nat → Owner) (ids : Nat → Option SessionId)
  (names : Nat → Option (PlayerId × SessionId)) (playerList : Nat → Option Nat)
  (activePlayerList : List Nat) (created : List (PlayerId × SessionId))

/-- `p` is a player created for `id` and not stored yet. -/
def Created (id : SessionId) (p : Nat) : Prop :=
  (∀ i, playerList i ≠ some p) ∧ ∃ playerId, names p = some (playerId, id) ∧
    playerId.index = id.index ∧ (playerId, id) ∈ created

def AcceptOk : AcceptPc → Prop
  | .idle => True
  | .built p id | .mapped p id => ids p = none ∨ ids p = some id

def LogicOk : LogicPc → Prop
  | .idle => True
  | .register id p | .registerRead id p | .registerWrite id p _ =>
    Created names playerList created id p
  | .store id p =>
    Created names playerList created id p ∧ playerList id.index = none ∧
      Owned id (owner id.index)
  | .pushActive _ p => p ∉ activePlayerList ∧ ∃ i, playerList i = some p
  | .flush id => owner id.index = .flushing
  | .leave p => ∃ i, playerList i = some p ∧ owner i = .flushing
  | .clear p => p ∉ activePlayerList ∧ ∃ i, playerList i = some p ∧ owner i = .flushing
  | .free p i => owner i = .flushing ∧ playerList i = none ∧ ∀ j, playerList j ≠ some p
  | .giveIndex i => owner i = .flushing ∧ playerList i = none

def DestroyOk : DestroyPc → Prop
  | .unmapped p id => ids p = some id
  | .freed id => owner id.index = .released id
  | .giveIndex i => owner i = .returning
  | _ => True

end

structure Inv (owner : Nat → Owner) (s : State) : Prop where
  stack_nodup : s.emptySessionMapStack.Nodup
  stack : ∀ i ∈ s.emptySessionMapStack, owner i = .free
  session : ∀ p id, s.ids p = some id → owner id.index = .session p id
  pending_nodup : (pending s.accept s.newSessionQueue s.logic).Nodup
  player : ∀ i p, s.playerList i = some p → ∃ playerId id, s.names p = some (playerId, id) ∧
    playerId.index = i ∧ id.index = i ∧ id ∉ pending s.accept s.newSessionQueue s.logic ∧
    Owned id (owner i)
  requests_nodup : (requests s.destroy s.destroyPlayerRequestQueue).Nodup
  requests : ∀ id ∈ requests s.destroy s.destroyPlayerRequestQueue, owner id.index = .requested id
  active_nodup : s.activePlayerList.Nodup
  active : ∀ p ∈ s.activePlayerList, ∃ i, s.playerList i = some p
  named : ∀ p session playerId, s.heap p = some session → session.playerId = some playerId →
    (playerId, session.sessionId) ∈ s.created
  accept : AcceptOk s.ids s.accept
  logic : LogicOk owner s.names s.playerList s.activePlayerList s.created s.logic
  destroy : DestroyOk owner s.ids s.destroy

variable {s t : State} {a : Action} {owner : Nat → Owner} {o x : Owner} {i j p q : Nat}
  {id : SessionId} {session : Session} {player : Player} {logic : LogicPc} {destroy : DestroyPc}
  {ids : Nat → Option SessionId} {names : Nat → Option (PlayerId × SessionId)}
  {playerList : Nat → Option Nat} {activePlayerList : List Nat}
  {created : List (PlayerId × SessionId)}

theorem ids_of_heap (h : s.heap p = some session) : s.ids p = some session.sessionId := by
  rw [State.ids, h]; rfl

theorem names_of_players (h : s.players p = some player) :
    s.names p = some (player.playerId, player.sessionId) := by
  rw [State.names, h]; rfl

/-- A session is written to and keeps its id. -/
theorem ids_update {session' : Session} (h : s.heap p = some session)
    (hid : session'.sessionId = session.sessionId) :
    (fun q => (Function.update s.heap p (some session') q).map Session.sessionId) = s.ids := by
  funext q
  by_cases hqp : q = p
  · rw [hqp, ids_of_heap h, Function.update_self, Option.map_some, hid]
  · rw [Function.update_of_ne hqp, State.ids]

/-- A player is written to and keeps its ids. -/
theorem names_update {player' : Player} (h : s.players p = some player)
    (hid : player'.playerId = player.playerId) (hsession : player'.sessionId = player.sessionId) :
    (fun q => (Function.update s.players p (some player') q).map fun player =>
      (player.playerId, player.sessionId)) = s.names := by
  funext q
  by_cases hqp : q = p
  · rw [hqp, names_of_players h, Function.update_self, Option.map_some, hid, hsession]
  · rw [Function.update_of_ne hqp, State.names]

/-- A slot of another owner keeps it. -/
theorem owner_of_ne (h : owner j = x) (hne : owner i ≠ x) : Function.update owner i o j = x := by
  rw [Function.update_of_ne, h]
  rintro rfl
  exact hne h

theorem LogicOk.setOwner (h : LogicOk owner names playerList activePlayerList created logic)
    (hi : owner i ≠ .flushing)
    (hstore : ∀ id p, logic = .store id p → id.index = i → Owned id (owner i) → Owned id o) :
    LogicOk (Function.update owner i o) names playerList activePlayerList created logic := by
  cases logic with
  | store id p =>
    refine ⟨h.1, h.2.1, ?_⟩
    by_cases hid : id.index = i
    · have howned := h.2.2
      rw [hid] at howned ⊢
      rw [Function.update_self]
      exact hstore id p rfl hid howned
    · rw [Function.update_of_ne hid]
      exact h.2.2
  | flush id => exact owner_of_ne h hi
  | leave p =>
    obtain ⟨j, hj, howner⟩ := h
    exact ⟨j, hj, owner_of_ne howner hi⟩
  | clear p =>
    obtain ⟨hp, j, hj, howner⟩ := h
    exact ⟨hp, j, hj, owner_of_ne howner hi⟩
  | free p j => exact ⟨owner_of_ne h.1 hi, h.2⟩
  | giveIndex j => exact ⟨owner_of_ne h.1 hi, h.2⟩
  | _ => exact h

theorem DestroyOk.setOwner (h : DestroyOk owner ids destroy) (hi : ∀ id, owner i ≠ .released id)
    (hreturning : owner i ≠ .returning) : DestroyOk (Function.update owner i o) ids destroy := by
  cases destroy with
  | freed id => exact owner_of_ne h (hi id)
  | giveIndex j => exact owner_of_ne h hreturning
  | _ => exact h

/-- The players stored under the other indices. -/
theorem Inv.player_of_ne (I : Inv owner s) {pending' : List SessionId}
    (hsub : pending' ⊆ pending s.accept s.newSessionQueue s.logic) (howned : ∀ p id,
      s.playerList i = some p → Owned id (owner i) → Owned id o) :
    ∀ j p, s.playerList j = some p → ∃ playerId id, s.names p = some (playerId, id) ∧
      playerId.index = j ∧ id.index = j ∧ id ∉ pending' ∧
      Owned id (Function.update owner i o j) := by
  intro j p hj
  obtain ⟨playerId, id, hp, hindex, hid, hpending, h⟩ := I.player j p hj
  refine ⟨playerId, id, hp, hindex, hid, fun hmem => hpending (hsub hmem), ?_⟩
  by_cases hji : j = i
  · subst hji
    rw [Function.update_self]
    exact howned p id hj h
  · rwa [Function.update_of_ne hji]

/-- Fewer ids wait. -/
theorem Inv.player_of_subset (I : Inv owner s) {pending' : List SessionId}
    (hsub : pending' ⊆ pending s.accept s.newSessionQueue s.logic) :
    ∀ j p, s.playerList j = some p → ∃ playerId id, s.names p = some (playerId, id) ∧
      playerId.index = j ∧ id.index = j ∧ id ∉ pending' ∧ Owned id (owner j) := by
  intro j p hj
  obtain ⟨playerId, id, hp, hindex, hid, hpending, h⟩ := I.player j p hj
  exact ⟨playerId, id, hp, hindex, hid, fun hmem => hpending (hsub hmem), h⟩

/-! ### The accept thread -/

theorem Inv.onAccept (I : Inv owner s) (hok : SlotOk s (.onAccept p))
    (h : Slots.onAccept s p = .ok t) : ∃ owner', Inv owner' t := by
  obtain ⟨⟨i, stack, hstack, hlt⟩, hnew⟩ := hok
  unfold Slots.onAccept at h
  split at h
  · rename_i haccept hp
    cases h
    have hnone : s.ids p = none := by rw [State.ids, hp]; rfl
    have hindex : (newId s).index = i := by
      rw [newId, hstack]
      exact Nat.mod_eq_of_lt hlt
    have hnodup := I.stack_nodup
    have hfree : owner i = .free := I.stack i (by rw [hstack]; exact List.mem_cons_self)
    rw [hstack, List.nodup_cons] at hnodup
    have hpop : (pop s.emptySessionMapStack).2 = stack := by rw [hstack]; rfl
    generalize newId s = id at *
    have hids : ∀ q id', (Function.update s.heap p (some (Session.mk id none)) q).map
        Session.sessionId = some id' → (q = p ∧ id' = id) ∨ (q ≠ p ∧ s.ids q = some id') := by
      intro q id' hq
      by_cases hqp : q = p
      · rw [hqp, Function.update_self] at hq
        exact Or.inl ⟨hqp, (Option.some.inj hq).symm⟩
      · rw [Function.update_of_ne hqp] at hq
        exact Or.inr ⟨hqp, hq⟩
    have hempty : ∀ q id', s.playerList i = some q → Owned id' (owner i) → Owned id' (.session p id) :=
      fun q id' _ howned => by rw [hfree] at howned; exact howned.elim
    refine ⟨Function.update owner i (.session p id), ?_⟩
    refine ⟨?_, fun j hj => ?_, fun q id' hq => ?_, ?_, fun j q hj => ?_, I.requests_nodup,
      fun id' hid' => ?_, I.active_nodup, I.active, fun q session playerId hq hname => ?_, ?_, ?_, ?_⟩
    · rw [hpop]; exact hnodup.2
    · rw [hpop] at hj
      rw [Function.update_of_ne fun he : j = i => hnodup.1 (he ▸ hj)]
      exact I.stack j (by rw [hstack]; exact List.mem_cons_of_mem _ hj)
    · rcases hids q id' hq with ⟨rfl, rfl⟩ | ⟨-, hq⟩
      · rw [hindex, Function.update_self]
      · exact owner_of_ne (I.session q id' hq) (by rw [hfree]; nofun)
    · have := I.pending_nodup
      rw [haccept] at this hnew
      exact List.nodup_cons.mpr ⟨hnew, this⟩
    · obtain ⟨playerId, id', hnames, hpid, hid', hmem, howned⟩ :=
        I.player_of_ne (o := .session p id) (List.Subset.refl _) hempty j q hj
      refine ⟨playerId, id', hnames, hpid, hid', fun hm => ?_, howned⟩
      rw [haccept] at hmem
      rcases List.mem_cons.mp hm with rfl | hm
      · obtain ⟨-, id', -, -, -, -, howned⟩ := I.player j q hj
        rw [← hid', hindex, hfree] at howned
        exact howned
      · exact hmem hm
    · exact owner_of_ne (I.requests id' hid') (by rw [hfree]; nofun)
    · rcases update_some_eq_some.mp hq with ⟨-, rfl⟩ | ⟨-, hq⟩
      · cases hname
      · exact I.named q session playerId hq hname
    · refine Or.inr ?_
      show (Function.update s.heap p _ p).map Session.sessionId = _
      rw [Function.update_self]; rfl
    · refine I.logic.setOwner (by rw [hfree]; nofun) fun id' q _ _ howned => ?_
      rw [hfree] at howned
      exact howned.elim
    · have hd := I.destroy.setOwner (o := .session p id) (i := i) (by rw [hfree]; nofun)
        (by rw [hfree]; nofun)
      cases hpc : s.destroy with
      | unmapped q id' =>
        rw [hpc] at hd
        have hqp : q ≠ p := by
          rintro rfl
          exact Option.some_ne_none _ (hd.symm.trans hnone)
        show (Function.update s.heap p _ q).map Session.sessionId = _
        rw [Function.update_of_ne hqp]
        exact hd
      | _ => rw [hpc] at hd; exact hd
  · cases h

theorem Inv.acceptStep (I : Inv owner s) (h : Slots.acceptStep s = .ok t) : Inv owner t := by
  have ha := I.accept
  have hnodup := I.pending_nodup
  have hplayer := I.player
  unfold Slots.acceptStep at h
  split at h
  all_goals rename_i hpc; rw [hpc] at ha hnodup hplayer
  · cases h
  · cases h
    exact { I with pending_nodup := hnodup, player := hplayer, accept := ha }
  · rename_i p id
    split at h
    · cases h
    · rename_i session hp
      cases h
      obtain rfl : session.sessionId = id := by
        rcases ha with ha | ha
        · rw [ids_of_heap hp] at ha; cases ha
        · rw [ids_of_heap hp] at ha; exact Option.some.inj ha
      have hperm : (pending .idle (s.newSessionQueue ++ [session.sessionId]) s.logic).Perm
          (pending (.mapped p session.sessionId) s.newSessionQueue s.logic) :=
        (@List.perm_append_comm _ s.newSessionQueue [session.sessionId]).append_right _
      exact { I with
        pending_nodup := hperm.nodup_iff.mpr hnodup
        player := fun j q hj => by
          obtain ⟨playerId, id, hq, hpid, hid, hmem, howned⟩ := hplayer j q hj
          exact ⟨playerId, id, hq, hpid, hid, fun hm => hmem (hperm.mem_iff.mp hm), howned⟩
        accept := trivial }

/-! ### The logic thread -/

/-- The logic thread moves on without touching a player. -/
theorem Inv.setLogic (I : Inv owner s) (logic : LogicPc)
    (hsub : (pending s.accept s.newSessionQueue logic).Sublist
      (pending s.accept s.newSessionQueue s.logic))
    (hlogic : LogicOk owner s.names s.playerList s.activePlayerList s.created logic) :
    Inv owner { s with logic := logic } :=
  { I with
    pending_nodup := I.pending_nodup.sublist hsub
    player := I.player_of_subset hsub.subset
    logic := hlogic }

/-- A player that is not stored is freed. -/
theorem Inv.freePlayer (I : Inv owner s) (hp : ∀ i, s.playerList i ≠ some p)
    (hlogic : ∀ names, LogicOk owner names s.playerList s.activePlayerList s.created logic)
    (hsub : (pending s.accept s.newSessionQueue logic).Sublist
      (pending s.accept s.newSessionQueue s.logic)) :
    Inv owner { s with players := Function.update s.players p none, logic := logic } :=
  { I with
    pending_nodup := I.pending_nodup.sublist hsub
    player := fun j q hj => by
      obtain ⟨playerId, id, hq, h⟩ := I.player_of_subset hsub.subset j q hj
      refine ⟨playerId, id, ?_, h⟩
      have hqp : q ≠ p := fun he => hp j (he ▸ hj)
      simp only [State.names, Function.update_of_ne hqp]
      exact hq
    logic := hlogic _ }

theorem Inv.createNewPlayer (I : Inv owner s) (h : Slots.createNewPlayer s p = .ok t) :
    Inv owner t := by
  unfold Slots.createNewPlayer at h
  split at h
  · rename_i id queue hpc hqueue hp
    have hnodup := I.pending_nodup
    have hplayer := I.player
    rw [hpc, hqueue] at hnodup hplayer
    have hperm : (pending s.accept queue (.register id p)).Perm
        (pending s.accept (id :: queue) .idle) := by
      simp only [pending, List.append_nil, List.append_assoc]
      exact List.Perm.append_left _ (List.perm_append_singleton id queue)
    have hnone : s.names p = none := by rw [State.names, hp]; rfl
    have hstored : ∀ j q, s.playerList j = some q → q ≠ p := by
      rintro j q hj rfl
      obtain ⟨_, _, hq, _⟩ := I.player j q hj
      rw [hnone] at hq
      cases hq
    dsimp only at h
    cases h
    exact { I with
      pending_nodup := hperm.nodup_iff.mpr hnodup
      player := fun j q hj => by
        obtain ⟨playerId, id', hq, hpid, hid, hmem, howned⟩ := hplayer j q hj
        refine ⟨playerId, id', ?_, hpid, hid, fun hm => hmem (hperm.mem_iff.mp hm), howned⟩
        simp only [State.names, Function.update_of_ne (hstored j q hj)]
        exact hq
      named := fun q session playerId hq hname =>
        List.mem_append_left _ (I.named q session playerId hq hname)
      logic := by
        refine ⟨fun i hi => hstored i p hi rfl, _, ?_, rfl, List.mem_append_right _ List.mem_cons_self⟩
        simp only [State.names, Function.update_self, Option.map_some] }
  · cases h

/-- `FlushFrame` takes a request. -/
theorem Inv.flushFrame (I : Inv owner s) (h : Slots.flushFrame s = .ok t) :
    ∃ owner', Inv owner' t := by
  unfold Slots.flushFrame at h
  split at h
  · rename_i id queue hpc hqueue
    cases h
    have hnodup := I.requests_nodup
    have hrequests := I.requests
    rw [hqueue] at hnodup hrequests
    have hperm : (Slots.requests s.destroy (id :: queue)).Perm
        (id :: Slots.requests s.destroy queue) :=
      List.perm_middle
    have howner := hrequests id (hperm.mem_iff.mpr List.mem_cons_self)
    rw [hperm.nodup_iff, List.nodup_cons] at hnodup
    have hsub : (pending s.accept s.newSessionQueue (.flush id)).Sublist
        (pending s.accept s.newSessionQueue s.logic) :=
      List.Sublist.append_left (List.nil_sublist _) _
    refine ⟨Function.update owner id.index .flushing, { I with
      stack := fun j hj => owner_of_ne (I.stack j hj) (by rw [howner]; nofun)
      session := fun q id' hq => owner_of_ne (I.session q id' hq) (by rw [howner]; nofun)
      pending_nodup := I.pending_nodup.sublist hsub
      player := I.player_of_ne hsub.subset fun _ _ _ _ => trivial
      requests_nodup := hnodup.2
      requests := fun id' hid' => owner_of_ne
        (hrequests id' (hperm.mem_iff.mpr (List.mem_cons_of_mem _ hid'))) fun he => ?_
      logic := Function.update_self ..
      destroy := I.destroy.setOwner (by rw [howner]; nofun) (by rw [howner]; nofun) }⟩
    rw [howner] at he
    cases he
    exact hnodup.1 hid'
  · cases h

/-- `RegisterSessionPlayer` writes to the session the player was created for. -/
theorem Inv.register (I : Inv owner s) (hpc : s.logic = .registerWrite id p q)
    (hq : s.heap q = some session) (hp : s.players p = some player)
    (hid : session.sessionId = id) :
    Inv owner { s with
      heap := Function.update s.heap q (some { session with playerId := some player.playerId })
      logic := .store id p } := by
  have hl := I.logic
  have hnodup := I.pending_nodup
  have hplayer := I.player
  rw [hpc] at hl hnodup hplayer
  obtain ⟨hunstored, playerId, hname, hindex, hcreated⟩ := hl
  rw [names_of_players hp] at hname
  cases hname
  have hids : ({ s with
      heap := Function.update s.heap q (some { session with playerId := some player.playerId })
      logic := .store player.sessionId p } : State).ids = s.ids := ids_update hq rfl
  have howner : owner player.sessionId.index = .session q player.sessionId :=
    I.session q _ (hid ▸ ids_of_heap hq)
  exact { I with
    session := hids ▸ I.session
    pending_nodup := hnodup
    player := hplayer
    named := fun q' session' playerId hq' hname => by
      rcases update_some_eq_some.mp hq' with ⟨-, rfl⟩ | ⟨-, hq'⟩
      · cases hname
        exact hid.symm ▸ hcreated
      · exact I.named q' session' playerId hq' hname
    accept := hids ▸ I.accept
    logic := by
      refine ⟨⟨hunstored, _, names_of_players hp, hindex, hcreated⟩, ?_, ?_⟩
      · -- a player stored here would be the one of this session, which still waits
        by_contra hne
        obtain ⟨q', hq'⟩ := Option.ne_none_iff_exists'.mp hne
        obtain ⟨_, id', _, _, _, hmem, howned⟩ := hplayer _ q' hq'
        rw [howner] at howned
        exact hmem (howned ▸ List.mem_append_right _ List.mem_cons_self)
      · rw [howner]; rfl
    destroy := hids ▸ I.destroy }

/-- `CreateNewPlayer` stores its player. -/
theorem Inv.store (I : Inv owner s) (hpc : s.logic = .store id p) (hp : s.players p = some player) :
    Inv owner { s with
      playerList := Function.update s.playerList player.playerId.index (some p)
      logic := .pushActive id p } := by
  have hl := I.logic
  have hnodup := I.pending_nodup
  have hplayer := I.player
  rw [hpc] at hl hnodup hplayer
  obtain ⟨⟨hunstored, playerId, hname, hindex, -⟩, hempty, howned⟩ := hl
  rw [names_of_players hp] at hname
  cases hname
  have hsplit : (pending s.accept s.newSessionQueue (.pushActive player.sessionId p)).Nodup ∧
      player.sessionId ∉ pending s.accept s.newSessionQueue (.pushActive player.sessionId p) := by
    have hperm : (pending s.accept s.newSessionQueue (.store player.sessionId p)).Perm
        (player.sessionId ::
          pending s.accept s.newSessionQueue (.pushActive player.sessionId p)) := by
      simp only [pending, List.append_nil]
      exact List.perm_append_singleton _ _
    rw [hperm.nodup_iff, List.nodup_cons] at hnodup
    exact ⟨hnodup.2, hnodup.1⟩
  have hsub : pending s.accept s.newSessionQueue (.pushActive player.sessionId p) ⊆
      pending s.accept s.newSessionQueue (.store player.sessionId p) :=
    (List.Sublist.append_left (List.nil_sublist _) _).subset
  have hother : ∀ j q, s.playerList j = some q → j ≠ player.playerId.index := by
    rintro j q hj rfl
    rw [hindex, hempty] at hj
    cases hj
  exact { I with
    pending_nodup := hsplit.1
    player := fun j q hj => by
      rcases update_some_eq_some.mp hj with ⟨rfl, rfl⟩ | ⟨-, hj⟩
      · exact ⟨_, _, names_of_players hp, rfl, hindex.symm, hsplit.2, hindex ▸ howned⟩
      · obtain ⟨playerId, id, hq, hpid, hid, hmem, howned⟩ := hplayer j q hj
        exact ⟨playerId, id, hq, hpid, hid, fun hm => hmem (hsub hm), howned⟩
    active := fun q hq => by
      obtain ⟨j, hj⟩ := I.active q hq
      exact ⟨j, by simp only [Function.update_of_ne (hother j q hj)]; exact hj⟩
    logic := by
      refine ⟨fun hmem => ?_, player.playerId.index, Function.update_self ..⟩
      obtain ⟨j, hj⟩ := I.active p hmem
      exact hunstored j hj }

/-- `FlushFrame` takes its player out of `playerList`. -/
theorem Inv.clear (I : Inv owner s) (hpc : s.logic = .clear p) (hp : s.players p = some player) :
    Inv owner { s with
      playerList := Function.update s.playerList player.playerId.index none
      logic := .free p player.playerId.index } := by
  have hl := I.logic
  rw [hpc] at hl
  obtain ⟨hinactive, i, hi, howner⟩ := hl
  have hat : ∀ j, s.playerList j = some p → j = player.playerId.index := by
    intro j hj
    obtain ⟨playerId, id, hname, hpid, -⟩ := I.player j p hj
    rw [names_of_players hp] at hname
    cases hname
    exact hpid.symm
  obtain rfl := hat i hi
  have hsub : (pending s.accept s.newSessionQueue (.free p player.playerId.index)).Sublist
      (pending s.accept s.newSessionQueue s.logic) :=
    List.Sublist.append_left (List.nil_sublist _) _
  exact { I with
    pending_nodup := I.pending_nodup.sublist hsub
    player := fun j q hj => I.player_of_subset hsub.subset j q (update_none_eq_some.mp hj).2
    active := fun q hq => by
      obtain ⟨j, hj⟩ := I.active q hq
      refine ⟨j, ?_⟩
      have hji : j ≠ player.playerId.index := by
        rintro rfl
        rw [hi] at hj
        cases hj
        exact hinactive hq
      simp only [Function.update_of_ne hji]
      exact hj
    logic := by
      refine ⟨howner, Function.update_self .., fun j hj => ?_⟩
      obtain ⟨hji, hj⟩ := update_none_eq_some.mp hj
      exact hji (hat j hj) }

/-- An index goes back to the stack. -/
theorem Inv.giveIndex (I : Inv owner s) (hfree : owner i ≠ .free)
    (hsession : ∀ p id, owner i ≠ .session p id) (hrequested : ∀ id, owner i ≠ .requested id)
    (hempty : s.playerList i = none) {logic : LogicPc} {destroy : DestroyPc}
    (hsub : (pending s.accept s.newSessionQueue logic).Sublist
      (pending s.accept s.newSessionQueue s.logic))
    (hrequests : Slots.requests destroy s.destroyPlayerRequestQueue =
      Slots.requests s.destroy s.destroyPlayerRequestQueue)
    (hlogic : LogicOk (Function.update owner i .free) s.names s.playerList s.activePlayerList
      s.created logic)
    (hdestroy : DestroyOk (Function.update owner i .free) s.ids destroy) :
    Inv (Function.update owner i .free) { s with
      emptySessionMapStack := i :: s.emptySessionMapStack, logic := logic, destroy := destroy } :=
  { I with
    stack_nodup := List.nodup_cons.mpr ⟨fun hmem => hfree (I.stack i hmem), I.stack_nodup⟩
    stack := fun j hj => by
      by_cases hji : j = i
      · rw [hji, Function.update_self]
      · rw [Function.update_of_ne hji]
        exact I.stack j ((List.mem_cons.mp hj).resolve_left hji)
    session := fun q id hq => owner_of_ne (I.session q id hq) (hsession q id)
    pending_nodup := I.pending_nodup.sublist hsub
    player := I.player_of_ne hsub.subset fun p _ hp => by rw [hempty] at hp; cases hp
    requests_nodup := hrequests ▸ I.requests_nodup
    requests := fun id hid => owner_of_ne (I.requests id (hrequests ▸ hid)) (hrequested id)
    logic := hlogic
    destroy := hdestroy }

theorem Inv.logicStep (I : Inv owner s) (hok : SlotOk s .logicThread)
    (h : Slots.logicStep s = .ok t) : ∃ owner', Inv owner' t := by
  have hl := I.logic
  unfold Slots.logicStep at h
  split at h
  all_goals rename_i hpc; rw [hpc] at hl
  · cases h
  · split at h
    · cases h
      exact ⟨owner, I.freePlayer hl.1 (fun _ => trivial)
        (List.Sublist.append_left (List.nil_sublist _) _)⟩
    · cases h
      exact ⟨owner, I.setLogic (.registerRead _ _) (by rw [hpc]; exact .refl _) hl⟩
  · split at h
    · cases h
    · cases h
      exact ⟨owner, I.setLogic (.registerWrite _ _ _) (by rw [hpc]; exact .refl _) hl⟩
  · split at h
    · rename_i session player hq hp
      cases h
      obtain ⟨session', hq', hid⟩ := hok _ _ _ hpc
      rw [hq] at hq'
      cases hq'
      exact ⟨owner, I.register hpc hq hp hid⟩
    · cases h
  · split at h
    · cases h
    · rename_i player hp
      cases h
      exact ⟨owner, I.store hpc hp⟩
  · rename_i id p
    cases h
    refine ⟨owner, { I.setLogic .idle (List.Sublist.append_left (List.nil_sublist _) _) trivial with
      active_nodup := ?_
      active := fun q hq => ?_ }⟩
    · exact I.active_nodup.append (List.nodup_singleton p) (List.disjoint_singleton.mpr hl.1)
    · rcases List.mem_append.mp hq with hq | hq
      · exact I.active q hq
      · obtain rfl := List.mem_singleton.mp hq
        exact hl.2
  · split at h
    · cases h
    · rename_i p hp
      cases h
      exact ⟨owner, I.setLogic (.leave p) (List.Sublist.append_left (List.nil_sublist _) _)
        ⟨_, hp, hl⟩⟩
  · rename_i p
    cases h
    refine ⟨owner, { I.setLogic .idle (List.Sublist.append_left (List.nil_sublist _) _) trivial with
      active_nodup := I.active_nodup.filter _
      active := fun q hq => I.active q (List.mem_filter.mp hq).1
      logic := ⟨fun hmem => ?_, hl⟩ }⟩
    simpa using (List.mem_filter.mp hmem).2
  · split at h
    · cases h
    · rename_i player hp
      cases h
      exact ⟨owner, I.clear hpc hp⟩
  · cases h
    exact ⟨owner, I.freePlayer hl.2.2 (fun _ => ⟨hl.1, hl.2.1⟩)
      (List.Sublist.append_left (List.nil_sublist _) _)⟩
  · rename_i i
    cases h
    refine ⟨_, I.giveIndex (i := i) (by rw [hl.1]; nofun) (by rw [hl.1]; nofun)
      (by rw [hl.1]; nofun) hl.2 (List.Sublist.append_left (List.nil_sublist _) _) rfl trivial
      (I.destroy.setOwner (by rw [hl.1]; nofun) (by rw [hl.1]; nofun))⟩

/-! ### The destroy thread -/

theorem Inv.onRelease (I : Inv owner s) (h : Slots.onRelease s p = .ok t) : Inv owner t := by
  unfold Slots.onRelease at h
  split at h
  · rename_i session hpc hp
    split at h
    · cases h
      have hrequests := I.requests
      have hnodup := I.requests_nodup
      rw [hpc] at hrequests hnodup
      exact { I with
        requests_nodup := hnodup, requests := hrequests, destroy := ids_of_heap hp }
    · cases h
  · cases h

/-- `OnRelease` frees the session. -/
theorem Inv.freeSession (I : Inv owner s) (hpc : s.destroy = .unmapped p id) :
    Inv (Function.update owner id.index (.released id))
      { s with heap := Function.update s.heap p none, destroy := .freed id } := by
  have hd := I.destroy
  have hrequests := I.requests
  have hnodup := I.requests_nodup
  rw [hpc] at hd hrequests hnodup
  have howner := I.session p id hd
  have hleft : ∀ q id', ({ s with heap := Function.update s.heap p none, destroy := .freed id } :
      State).ids q = some id' → q ≠ p ∧ s.ids q = some id' := by
    intro q id' hq
    by_cases hqp : q = p
    · simp only [State.ids, hqp, Function.update_self, Option.map_none, reduceCtorEq] at hq
    · simp only [State.ids, Function.update_of_ne hqp] at hq
      exact ⟨hqp, hq⟩
  exact { I with
    stack := fun j hj => owner_of_ne (I.stack j hj) (by rw [howner]; nofun)
    session := fun q id' hq => by
      obtain ⟨hqp, hq⟩ := hleft q id' hq
      refine owner_of_ne (I.session q id' hq) fun he => hqp ?_
      rw [howner] at he
      cases he
      rfl
    player := I.player_of_ne (List.Subset.refl _) fun _ _ _ ho => by rw [howner] at ho; exact ho
    requests_nodup := hnodup
    requests := fun id' hid' => owner_of_ne (hrequests id' hid') (by rw [howner]; nofun)
    named := fun q session playerId hq hname => by
      exact I.named q session playerId (update_none_eq_some.mp hq).2 hname
    accept := by
      have ha := I.accept
      cases hpc' : s.accept with
      | idle => trivial
      | built q id' | mapped q id' =>
        rw [hpc'] at ha
        by_cases hqp : q = p
        · refine Or.inl ?_
          simp only [State.ids, hqp, Function.update_self, Option.map_none]
        · simp only [AcceptOk, State.ids, Function.update_of_ne hqp]
          exact ha
    logic := I.logic.setOwner (by rw [howner]; nofun) fun id' q _ _ ho => by
      rw [howner] at ho; exact ho
    destroy := Function.update_self .. }

theorem Inv.destroyStep (I : Inv owner s) (hok : SlotOk s .destroyThread)
    (h : Slots.destroyStep s = .ok t) : ∃ owner', Inv owner' t := by
  have hd := I.destroy
  have hrequests := I.requests
  have hnodup := I.requests_nodup
  unfold Slots.destroyStep at h
  split at h
  all_goals rename_i hpc; rw [hpc] at hd hrequests hnodup
  · cases h
  · cases h
    exact ⟨_, I.freeSession hpc⟩
  · rename_i id
    have howner : owner id.index = .released id := hd
    have hstore : ∀ id' p, s.logic = .store id' p → id'.index = id.index → False :=
      fun id' p hpc' hid => hok id hpc id' p hpc' hid
    split at h
    · rename_i hempty
      cases h
      refine ⟨Function.update owner id.index .returning, { I with
        stack := fun j hj => owner_of_ne (I.stack j hj) (by rw [howner]; nofun)
        session := fun q id' hq => owner_of_ne (I.session q id' hq) (by rw [howner]; nofun)
        player := I.player_of_ne (List.Subset.refl _) fun p _ hp => by
          rw [hempty] at hp; cases hp
        requests_nodup := hnodup
        requests := fun id' hid' => owner_of_ne (hrequests id' hid') (by rw [howner]; nofun)
        logic := I.logic.setOwner (by rw [howner]; nofun) fun id' p hpc' hid =>
          (hstore id' p hpc' hid).elim
        destroy := Function.update_self .. }⟩
    · cases h
      refine ⟨Function.update owner id.index (.requested id), { I with
        stack := fun j hj => owner_of_ne (I.stack j hj) (by rw [howner]; nofun)
        session := fun q id' hq => owner_of_ne (I.session q id' hq) (by rw [howner]; nofun)
        player := I.player_of_ne (List.Subset.refl _) fun _ _ _ ho => by
          rw [howner] at ho; exact ho
        requests_nodup := List.nodup_cons.mpr ⟨fun hmem => ?_, hnodup⟩
        requests := fun id' hid' => ?_
        logic := I.logic.setOwner (by rw [howner]; nofun) fun id' p hpc' hid =>
          (hstore id' p hpc' hid).elim
        destroy := trivial }⟩
      · have := hrequests id hmem
        rw [howner] at this
        cases this
      · rcases List.mem_cons.mp hid' with rfl | hid'
        · exact Function.update_self ..
        · exact owner_of_ne (hrequests id' hid') (by rw [howner]; nofun)
  · rename_i id p
    split at h
    · cases h
    · rename_i player hp
      cases h
      have hnames := @names_update s p player
        { player with isDead := true, isDestroyRequest := true } hp rfl rfl
      refine ⟨owner, { I with
        player := fun j q hj => ?_
        requests_nodup := hnodup
        requests := hrequests
        logic := ?_
        destroy := trivial }⟩
      · obtain ⟨playerId, id', hq, h⟩ := I.player j q hj
        exact ⟨playerId, id', (congrFun hnames q).trans hq, h⟩
      · have hl := I.logic
        rw [← hnames] at hl
        exact hl
  · rename_i id
    cases h
    have hperm : (Slots.requests .idle (s.destroyPlayerRequestQueue ++ [id])).Perm
        (Slots.requests (.enqueue id) s.destroyPlayerRequestQueue) :=
      List.perm_append_singleton id s.destroyPlayerRequestQueue
    exact ⟨owner, { I with
      requests_nodup := hperm.nodup_iff.mpr hnodup
      requests := fun id' hid' => hrequests id' (hperm.mem_iff.mp hid')
      destroy := trivial }⟩
  · rename_i i
    cases h
    have howner : owner i = .returning := hd
    have hempty : s.playerList i = none := by
      by_contra hne
      obtain ⟨q, hq⟩ := Option.ne_none_iff_exists'.mp hne
      obtain ⟨_, _, _, _, _, _, ho⟩ := I.player i q hq
      rw [howner] at ho
      exact ho
    refine ⟨_, I.giveIndex (i := i) (by rw [howner]; nofun) (by rw [howner]; nofun)
      (by rw [howner]; nofun) hempty (.refl _) (by rw [hpc]; rfl) (I.logic.setOwner
        (by rw [howner]; nofun) fun id p _ _ ho => ?_) trivial⟩
    rw [howner] at ho
    exact ho.elim

/-! ## Runs -/

theorem Inv.step (I : Inv owner s) (hok : SlotOk s a) (h : Slots.step s a = .ok t) :
    ∃ owner', Inv owner' t := by
  cases a with
  | onAccept p => exact I.onAccept hok h
  | acceptThread => exact ⟨owner, I.acceptStep h⟩
  | createNewPlayer p => exact ⟨owner, I.createNewPlayer h⟩
  | flushFrame => exact I.flushFrame h
  | logicThread => exact I.logicStep hok h
  | onRelease p => exact ⟨owner, I.onRelease h⟩
  | destroyThread => exact I.destroyStep hok h

theorem Inv.init (maxSessionCount : Nat) (uniqueCharacterId : UInt32) :
    Inv (fun _ => .free) (Slots.init maxSessionCount uniqueCharacterId) :=
  ⟨List.nodup_range, fun _ _ => rfl, nofun, List.nodup_nil, nofun, List.nodup_nil, nofun,
    List.nodup_nil, nofun, nofun, trivial, trivial, trivial⟩

theorem Inv.identified (I : Inv owner s) : Identified s := by
  have hstored : ∀ p ∈ s.activePlayerList, ∃ player, s.players p = some player ∧
      s.playerList player.playerId.index = some p := by
    intro p hp
    obtain ⟨i, hi⟩ := I.active p hp
    obtain ⟨playerId, id, hname, hindex, -⟩ := I.player i p hi
    obtain ⟨player, hplayer, heq⟩ := Option.map_eq_some_iff.mp hname
    cases heq
    exact ⟨player, hplayer, hindex ▸ hi⟩
  refine ⟨hstored, I.active_nodup.imp_of_mem fun hp hq hne player player' hpl hpl' he => ?_, I.named⟩
  obtain ⟨x, hx, hpx⟩ := hstored _ hp
  obtain ⟨y, hy, hqy⟩ := hstored _ hq
  rw [hpl] at hx
  rw [hpl'] at hy
  cases hx
  cases hy
  rw [he, hqy] at hpx
  exact hne (Option.some.inj hpx).symm

/-- **Session/player identity.**  In every run of accepts, releases and the logic thread whose
steps meet the condition, every active player is the one stored at its index, no two share one,
and every session names only a player created for its own id. -/
theorem run_identified {maxSessionCount : Nat} {uniqueCharacterId : UInt32} {as : List Action}
    (hr : Run (fun s a t => step s a = .ok t) SlotOk (init maxSessionCount uniqueCharacterId)
      as t) : Identified t := by
  obtain ⟨owner, I⟩ : ∃ owner, Inv owner t :=
    hr.invariant (I := fun s => ∃ owner, Inv owner s) ⟨_, Inv.init ..⟩
      fun _ _ _ ⟨_, I⟩ hok hstep => I.step hok hstep
  exact I.identified

/-- A session is accepted, gets its player and is released; `FlushFrame` is yet to come. -/
theorem run_identified_one_session :
    ∃ t, Run (fun s a t => step s a = .ok t) SlotOk (init 2 0)
        [.onAccept 1, .acceptThread, .acceptThread, .createNewPlayer 7, .logicThread, .logicThread,
          .logicThread, .logicThread, .logicThread, .onRelease 1, .destroyThread, .destroyThread,
          .destroyThread, .destroyThread] t ∧
      t.activePlayerList = [7] ∧ Identified t := by
  obtain ⟨t, hrun, hactive⟩ : ∃ t : State, Run (fun s a t => step s a = .ok t) SlotOk (init 2 0)
        [.onAccept 1, .acceptThread, .acceptThread, .createNewPlayer 7, .logicThread, .logicThread,
          .logicThread, .logicThread, .logicThread, .onRelease 1, .destroyThread, .destroyThread,
          .destroyThread, .destroyThread] t ∧ t.activePlayerList = [7] :=
    ⟨_, .cons rfl ⟨⟨0, [1], rfl, by decide⟩, nofun⟩ <| .cons rfl trivial <| .cons rfl trivial <|
      .cons rfl trivial <| .cons rfl (by nofun) <| .cons rfl (by nofun) <|
      .cons rfl (by rintro id p ses ⟨⟩; exact ⟨_, rfl, rfl⟩) <| .cons rfl (by nofun) <|
      .cons rfl (by nofun) <| .cons rfl trivial <| .cons rfl (by nofun) <| .cons rfl (by nofun) <|
      .cons rfl (by nofun) <| .cons rfl (by nofun) .nil, rfl⟩
  exact ⟨t, hrun, hactive, run_identified hrun⟩

/-- The first session is released before the logic thread comes to its id, and its slot goes to a
second one.  `CreateNewPlayer` then makes a player for each id under the same index: the first
is registered with the second session, and is active and no longer stored in the end. -/
theorem stale_id_registered :
    ¬ ∀ maxSessionCount uniqueCharacterId as t,
      Run (fun s a t => step s a = .ok t) anyStep (init maxSessionCount uniqueCharacterId) as t →
        Identified t := by
  intro h
  have hid := h 1 0 [.onAccept 1, .acceptThread, .acceptThread, .onRelease 1, .destroyThread,
    .destroyThread, .destroyThread, .onAccept 2, .acceptThread, .acceptThread,
    .createNewPlayer 7, .logicThread, .logicThread, .logicThread, .logicThread, .logicThread,
    .createNewPlayer 8, .logicThread, .logicThread, .logicThread, .logicThread, .logicThread] _
    (runFn_iff_run.mp rfl)
  obtain ⟨player, hplayer, hstored⟩ := hid.stored 7 List.mem_cons_self
  cases hplayer
  cases hstored

end Slots

end IocpServer
