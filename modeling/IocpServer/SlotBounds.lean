import IocpServer.PacketRouting

/-!
# Indices into `sessionMap` and `playerList`

Both tables are vectors of `maxSessionCount` entries that the code indexes without a check, with
indices from the stack, from ids in five queues, from players and from packets.  `Pop` returns 0
when the stack is empty, and a session without a player has the index 0 beside its packets.

To the steps of `PacketRouting` come here those that look a session up by its id: the workers,
`SendThread`, `SessionDestroyThread` and what the logic thread calls for the session of a player.

* `lookup` — the look into `sessionMap` that they share.
* `Memory` — what lies behind the two tables; `State.on` — a state with it.
* `InRange` — the invariant: every index that is kept anywhere is below the bound.
* `step_on` — a step of a state in range is the same whatever lies behind the tables.
* `run_within_tables` — **no run changes what lies behind the tables, and no run depends on it.**
-/

set_option autoImplicit false

namespace IocpServer

open Lib Slots

namespace SlotBounds

structure State where
  routing : PacketRouting.State
  sendRequestQueue : List SessionId
  destroySessionRequestQueue : List SessionId
  /-- History: what the lookups have found. -/
  found : List (Option Nat)

inductive Action where
  /-- A step of the slots, a received packet, or a packet for the logic thread. -/
  | routing (a : PacketRouting.Action)
  /-- A worker has a completion of the session at `p`. -/
  | workerThread (p : Nat)
  /-- Somebody at work on the session at `p` requests a send, or its destruction. -/
  | requestSend (p : Nat)
  | requestDestroy (p : Nat)
  /-- `SendThread` takes a request; `again` tells whether it puts it back. -/
  | sendThread (again : Bool)
  /-- `SessionDestroyThread` takes a request; `again`, when the session is still in use. -/
  | sessionDestroyThread (again : Bool)
  /-- The logic thread calls these for the session of the player at `q`: `last` and `first` tell
  whether `ioCount` or `isDeleteRequest` makes them request the destruction, `canSend` whether the
  exchange finds 1. -/
  | addRefSession (q : Nat)
  | releaseRefSession (q : Nat) (last : Bool)
  | sendPacket (q : Nat) (canSend : Bool)
  | onClientLeave (q : Nat) (first : Bool)

/-- `sessionMap[id.value.index]`, and the comparison of the ids; `after`, if it is the session. -/
def lookup (s : State) (id : SessionId) (after : State → SessionId → State) :
    Except Fault State :=
  match s.routing.slots.sessionMap id.index with
  | none => .ok { s with found := s.found ++ [none] }
  | some p =>
    match s.routing.slots.heap p with
    | none => .error .useAfterFree
    | some session =>
      if session.sessionId ≠ id then .ok { s with found := s.found ++ [none] }
      else .ok (after { s with found := s.found ++ [some p] } session.sessionId)

/-- `sendRequestQueue.Enqueue`, if it is called. -/
def State.sendAgain (request : Bool) (s : State) (id : SessionId) : State :=
  if request then { s with sendRequestQueue := s.sendRequestQueue ++ [id] } else s

/-- `destroySessionRequestQueue.Enqueue`, if it is called. -/
def State.destroyAgain (request : Bool) (s : State) (id : SessionId) : State :=
  if request then { s with destroySessionRequestQueue := s.destroySessionRequestQueue ++ [id] }
  else s

def addRefSession (s : State) (id : SessionId) : Except Fault State := lookup s id fun s _ => s

def releaseRefSession (s : State) (id : SessionId) (last : Bool) : Except Fault State :=
  lookup s id (.destroyAgain last)

/-- `SendPacket`, with `TryAcquireSession`. -/
def sendPacket (s : State) (id : SessionId) (canSend : Bool) : Except Fault State :=
  lookup s id (.sendAgain canSend)

def onClientLeave (s : State) (id : SessionId) (first : Bool) : Except Fault State :=
  lookup s id (.destroyAgain first)

def sendThread (s : State) (again : Bool) : Except Fault State :=
  match s.sendRequestQueue with
  | [] => .error .notEnabled
  | id :: queue => lookup { s with sendRequestQueue := queue } id (.sendAgain again)

/-- The destroy thread on a request.  `OnRelease` is a step of the slots. -/
def sessionDestroyThread (s : State) (again : Bool) : Except Fault State :=
  match s.routing.slots.destroy, s.destroySessionRequestQueue with
  | .idle, id :: queue =>
    lookup { s with destroySessionRequestQueue := queue } id (.destroyAgain again)
  | _, _ => .error .notEnabled

/-- A call for the session at `p`, under its own id. -/
def ofSession (s : State) (p : Nat) (call : SessionId → Except Fault State) :
    Except Fault State :=
  match s.routing.slots.heap p with
  | none => .error .useAfterFree
  | some session => call session.sessionId

/-- A call for the session of the player at `q`. -/
def ofPlayer (s : State) (q : Nat) (call : SessionId → Except Fault State) :
    Except Fault State :=
  match s.routing.slots.players q with
  | none => .error .useAfterFree
  | some player => call player.sessionId

def step (s : State) : Action → Except Fault State
  | .routing a =>
    match PacketRouting.step s.routing a with
    | .error fault => .error fault
    | .ok routing => .ok { s with routing := routing }
  | .workerThread p => ofSession s p fun id => lookup s id fun s _ => s
  | .requestSend p => ofSession s p fun id => .ok (s.sendAgain true id)
  | .requestDestroy p => ofSession s p fun id => .ok (s.destroyAgain true id)
  | .sendThread again => sendThread s again
  | .sessionDestroyThread again => sessionDestroyThread s again
  | .addRefSession q => ofPlayer s q (addRefSession s)
  | .releaseRefSession q last => ofPlayer s q fun id => releaseRefSession s id last
  | .sendPacket q canSend => ofPlayer s q fun id => sendPacket s id canSend
  | .onClientLeave q first => ofPlayer s q fun id => onClientLeave s id first

def init (maxSessionCount : Nat) (uniqueCharacterId : UInt32) : State :=
  ⟨PacketRouting.init maxSessionCount uniqueCharacterId, [], [], []⟩

/-! ## What lies behind the tables -/

/-- The memory behind the entries of the two tables. -/
structure Memory where
  sessionMap : Nat → Option Nat
  playerList : Nat → Option Nat

/-- The slots, with `n` entries in each table and `m` behind them. -/
def slotsOn (n : Nat) (m : Memory) (x : Slots.State) : Slots.State :=
  { x with
    sessionMap := patch n m.sessionMap x.sessionMap
    playerList := patch n m.playerList x.playerList }

def routingOn (n : Nat) (m : Memory) (s : PacketRouting.State) : PacketRouting.State :=
  { s with slots := slotsOn n m s.slots }

def State.on (n : Nat) (m : Memory) (s : State) : State :=
  { s with routing := routingOn n m s.routing }

/-- Behind `n` entries the tables of `s` are `m`. -/
def Holds (n : Nat) (m : Memory) (s : State) : Prop :=
  ∀ i, n ≤ i → s.routing.slots.sessionMap i = m.sessionMap i ∧
    s.routing.slots.playerList i = m.playerList i

/-! ## The invariant -/

variable {n : Nat} {m m' : Memory} {x y : Slots.State} {b : Slots.Action} {s t : State} {a : Action}
  {p i : Nat} {id : SessionId}

def AcceptIn (n : Nat) : AcceptPc → Prop
  | .built _ id | .mapped _ id => id.index < n
  | .idle => True

def LogicIn (n : Nat) : LogicPc → Prop
  | .register id _ | .registerRead id _ | .registerWrite id _ _ | .flush id => id.index < n
  | .free _ i | .giveIndex i => i < n
  | _ => True

def DestroyIn (n : Nat) : DestroyPc → Prop
  | .unmapped _ id | .freed id | .mark id _ | .enqueue id => id.index < n
  | .giveIndex i => i < n
  | .idle => True

/-- The ids of a session are below the bound. -/
def SessionIn (n : Nat) (session : Session) : Prop :=
  session.sessionId.index < n ∧ ∀ playerId, session.playerId = some playerId → playerId.index < n

/-- Those of a player. -/
def PlayerIn (n : Nat) (player : Slots.Player) : Prop :=
  player.playerId.index < n ∧ player.sessionId.index < n

structure InRange (n : Nat) (x : Slots.State) : Prop where
  stack : ∀ i ∈ x.emptySessionMapStack, i < n
  heap : ∀ p session, x.heap p = some session → SessionIn n session
  newSessions : ∀ id ∈ x.newSessionQueue, id.index < n
  requests : ∀ id ∈ x.destroyPlayerRequestQueue, id.index < n
  players : ∀ p player, x.players p = some player → PlayerIn n player
  accept : AcceptIn n x.accept
  logic : LogicIn n x.logic
  destroy : DestroyIn n x.destroy

theorem InRange.init (uniqueCharacterId : UInt32) : InRange n (Slots.init n uniqueCharacterId) :=
  ⟨fun _ hi => List.mem_range.mp hi, nofun, nofun, nofun, nofun, trivial, trivial, trivial⟩

/-- The index of a new session, also where `Pop` finds nothing. -/
theorem InRange.newId_lt (B : InRange n x) (hpos : 0 < n) : (newId x).index < n := by
  have htop : (pop x.emptySessionMapStack).1 < n := by
    cases hs : x.emptySessionMapStack with
    | nil => exact hpos
    | cons i stack => exact B.stack i (hs ▸ List.mem_cons_self)
  show (pop x.emptySessionMapStack).1 % 2 ^ 16 < n
  exact Nat.lt_of_le_of_lt (Nat.mod_le _ _) htop

theorem InRange.popped (B : InRange n x) : ∀ i ∈ (pop x.emptySessionMapStack).2, i < n := by
  intro i hi
  refine B.stack i ?_
  cases hs : x.emptySessionMapStack with
  | nil =>
    rw [hs] at hi
    cases hi
  | cons j stack =>
    rw [hs] at hi
    exact List.mem_cons_of_mem j hi

theorem InRange.onAccept (B : InRange n x) (hnew : (newId x).index < n)
    (h : Slots.onAccept x p = .ok y) : InRange n y := by
  unfold Slots.onAccept at h
  split at h <;> cases h
  refine { B with stack := B.popped, heap := fun q session hq => ?_, accept := hnew }
  rcases update_some_eq_some.mp hq with ⟨-, rfl⟩ | ⟨-, hq⟩
  · exact ⟨hnew, nofun⟩
  · exact B.heap q session hq

theorem InRange.acceptStep (B : InRange n x) (h : Slots.acceptStep x = .ok y) : InRange n y := by
  unfold Slots.acceptStep at h
  have haccept := B.accept
  split at h
  · cases h
  · rename_i q id hpc
    rw [hpc] at haccept
    cases h
    exact { B with accept := haccept }
  · split at h <;> cases h
    rename_i session hq
    refine { B with newSessions := fun id hid => ?_, accept := trivial }
    rcases List.mem_append.mp hid with hid | hid
    · exact B.newSessions id hid
    · rw [List.mem_singleton.mp hid]
      exact (B.heap _ session hq).1

theorem InRange.createNewPlayer (B : InRange n x) (h : Slots.createNewPlayer x p = .ok y) :
    InRange n y := by
  unfold Slots.createNewPlayer at h
  split at h <;> cases h
  rename_i id queue _ hqueue _
  have hnew := B.newSessions
  rw [hqueue] at hnew
  have hid := hnew id List.mem_cons_self
  refine { B with
    newSessions := fun id' hid' => hnew id' (List.mem_cons_of_mem id hid')
    players := fun q player hq => ?_
    logic := hid }
  rcases update_some_eq_some.mp hq with ⟨-, rfl⟩ | ⟨-, hq⟩
  · exact ⟨hid, hid⟩
  · exact B.players q player hq

theorem InRange.flushFrame (B : InRange n x) (h : Slots.flushFrame x = .ok y) : InRange n y := by
  unfold Slots.flushFrame at h
  split at h <;> cases h
  rename_i id queue _ hqueue
  have hrequests := B.requests
  rw [hqueue] at hrequests
  exact { B with
    requests := fun id' hid' => hrequests id' (List.mem_cons_of_mem id hid')
    logic := hrequests id List.mem_cons_self }

theorem InRange.giveIndex (B : InRange n x) (hi : i < n) :
    ∀ j ∈ i :: x.emptySessionMapStack, j < n := by
  intro j hj
  rcases List.mem_cons.mp hj with rfl | hj
  · exact hi
  · exact B.stack j hj

/-- A player is freed. -/
theorem InRange.freePlayer (B : InRange n x) {q : Nat} {player : Slots.Player}
    (h : Function.update x.players p none q = some player) : PlayerIn n player :=
  B.players q player (update_none_eq_some.mp h).2

theorem InRange.logicStep (B : InRange n x) (h : Slots.logicStep x = .ok y) : InRange n y := by
  unfold Slots.logicStep at h
  have hlogic := B.logic
  split at h
  all_goals try rename_i hpc
  all_goals try rw [hpc] at hlogic
  · cases h
  · split at h <;> cases h
    · exact { B with players := fun q player hq => B.freePlayer hq, logic := trivial }
    · exact { B with logic := hlogic }
  · split at h <;> cases h
    exact { B with logic := hlogic }
  · split at h <;> cases h
    rename_i session player hsession hplayer
    refine { B with heap := fun q session' hq => ?_, logic := trivial }
    rcases update_some_eq_some.mp hq with ⟨-, rfl⟩ | ⟨-, hq⟩
    · refine ⟨(B.heap _ session hsession).1, fun playerId hname => ?_⟩
      rw [← Option.some.inj hname]
      exact (B.players _ player hplayer).1
    · exact B.heap q session' hq
  · split at h <;> cases h
    exact { B with logic := trivial }
  · cases h
    exact { B with logic := trivial }
  · split at h <;> cases h
    exact { B with logic := trivial }
  · cases h
    exact { B with logic := trivial }
  · split at h <;> cases h
    rename_i player hplayer
    exact { B with logic := (B.players _ player hplayer).1 }
  · cases h
    exact { B with players := fun q player hq => B.freePlayer hq, logic := hlogic }
  · cases h
    exact { B with stack := B.giveIndex hlogic, logic := trivial }

theorem InRange.onRelease (B : InRange n x) (h : Slots.onRelease x p = .ok y) : InRange n y := by
  unfold Slots.onRelease at h
  split at h
  · rename_i session _ hp
    split at h <;> cases h
    exact { B with destroy := (B.heap p session hp).1 }
  · cases h

theorem InRange.destroyStep (B : InRange n x) (h : Slots.destroyStep x = .ok y) :
    InRange n y := by
  unfold Slots.destroyStep at h
  have hdestroy := B.destroy
  split at h
  all_goals try rename_i hpc
  all_goals try rw [hpc] at hdestroy
  · cases h
  · cases h
    exact { B with
      heap := fun q session hq => B.heap q session (update_none_eq_some.mp hq).2
      destroy := hdestroy }
  · split at h <;> cases h <;> exact { B with destroy := hdestroy }
  · split at h <;> cases h
    rename_i player hplayer
    refine { B with players := fun q player' hq => ?_, destroy := hdestroy }
    rcases update_some_eq_some.mp hq with ⟨-, rfl⟩ | ⟨-, hq⟩
    · exact B.players _ player hplayer
    · exact B.players q player' hq
  · cases h
    refine { B with requests := fun id hid => ?_, destroy := trivial }
    rcases List.mem_append.mp hid with hid | hid
    · exact B.requests id hid
    · rw [List.mem_singleton.mp hid]
      exact hdestroy
  · cases h
    exact { B with stack := B.giveIndex hdestroy, destroy := trivial }

/-- **A step keeps the indices in range**, if that of a new session is. -/
theorem InRange.step (B : InRange n x) (hnew : ∀ p, b = .onAccept p → (newId x).index < n)
    (h : Slots.step x b = .ok y) : InRange n y := by
  cases b with
  | onAccept p => exact B.onAccept (hnew p rfl) h
  | acceptThread => exact B.acceptStep h
  | createNewPlayer p => exact B.createNewPlayer h
  | flushFrame => exact B.flushFrame h
  | logicThread => exact B.logicStep h
  | onRelease p => exact B.onRelease h
  | destroyThread => exact B.destroyStep h

/-! ## A step over other memory -/

/-- **A step of the slots does not depend on what lies behind the tables**, and leaves it. -/
theorem slots_step_on (B : InRange n x) :
    Slots.step (slotsOn n m x) b = (Slots.step x b).map (slotsOn n m) := by
  have haccept := B.accept
  have hlogic := B.logic
  have hdestroy := B.destroy
  cases b with
  | onAccept p =>
    simp only [Slots.step, Slots.onAccept, slotsOn]
    split <;> rfl
  | acceptThread =>
    simp only [Slots.step, Slots.acceptStep, slotsOn]
    cases hpc : x.accept with
    | idle => rfl
    | built p id =>
      rw [hpc] at haccept
      dsimp only
      rw [← patch_update (show id.index < n from haccept)]
      rfl
    | mapped p id =>
      dsimp only
      split <;> rfl
  | createNewPlayer p =>
    simp only [Slots.step, Slots.createNewPlayer, slotsOn]
    split <;> rfl
  | flushFrame =>
    simp only [Slots.step, Slots.flushFrame, slotsOn]
    split <;> rfl
  | logicThread =>
    simp only [Slots.step, Slots.logicStep, slotsOn]
    cases hpc : x.logic with
    | register id p | registerRead id p | flush id =>
      rw [hpc] at hlogic
      simp only [patch_of_lt (show id.index < n from hlogic)]
      split <;> rfl
    | registerWrite id p ses =>
      dsimp only
      split <;> rfl
    | store id p | clear p =>
      dsimp only
      cases hp : x.players p with
      | none => rfl
      | some player =>
        dsimp only
        rw [← patch_update (B.players p player hp).1]
        rfl
    | _ => rfl
  | onRelease p =>
    simp only [Slots.step, Slots.onRelease, slotsOn]
    cases hpc : x.destroy with
    | idle =>
      cases hp : x.heap p with
      | none => rfl
      | some session =>
        have hindex := (B.heap p session hp).1
        simp only [patch_of_lt hindex]
        split
        · rw [← patch_update hindex]
          rfl
        · rfl
    | _ => rfl
  | destroyThread =>
    simp only [Slots.step, Slots.destroyStep, slotsOn]
    cases hpc : x.destroy with
    | freed id =>
      rw [hpc] at hdestroy
      simp only [patch_of_lt (show id.index < n from hdestroy)]
      split <;> rfl
    | mark id p =>
      dsimp only
      split <;> rfl
    | _ => rfl

/-- The ids beside the packets are below the bound as well. -/
structure RoutingIn (n : Nat) (s : PacketRouting.State) : Prop where
  slots : InRange n s.slots
  queue : ∀ q ∈ s.packetQueue, q.info.playerId.index < n

theorem routing_step_on {s : PacketRouting.State} {a : PacketRouting.Action} (B : RoutingIn n s) :
    PacketRouting.step (routingOn n m s) a = (PacketRouting.step s a).map (routingOn n m) := by
  cases a with
  | slots b =>
    have hslots : (routingOn n m s).slots = slotsOn n m s.slots := rfl
    simp only [PacketRouting.step, hslots, slots_step_on B.slots]
    cases Slots.step s.slots b <;> rfl
  | onMessage p packet =>
    simp only [PacketRouting.step, PacketRouting.onMessage, routingOn, slotsOn]
    split <;> rfl
  | processPackets =>
    simp only [PacketRouting.step, PacketRouting.processPackets, routingOn, slotsOn]
    split
    · rename_i q queue _ hqueue
      simp only [patch_of_lt (B.queue q (hqueue ▸ List.mem_cons_self))]
      split
      · rfl
      · split
        · rfl
        · split <;> rfl
    · rfl

theorem RoutingIn.step {s t : PacketRouting.State} {a : PacketRouting.Action} (B : RoutingIn n s)
    (hpos : 0 < n) (h : PacketRouting.step s a = .ok t) : RoutingIn n t := by
  cases a with
  | slots b =>
    simp only [PacketRouting.step] at h
    split at h <;> cases h
    rename_i slots hstep
    exact ⟨B.slots.step (fun _ _ => B.slots.newId_lt hpos) hstep, B.queue⟩
  | onMessage p packet =>
    simp only [PacketRouting.step, PacketRouting.onMessage] at h
    split at h <;> cases h
    rename_i session hp
    refine ⟨B.slots, fun q hq => ?_⟩
    rcases List.mem_append.mp hq with hq | hq
    · exact B.queue q hq
    · rw [List.mem_singleton.mp hq]
      show (session.playerId.getD PacketRouting.noPlayer).index < n
      cases hname : session.playerId with
      | none => exact hpos
      | some playerId => exact (B.slots.heap p session hp).2 playerId hname
  | processPackets =>
    simp only [PacketRouting.step, PacketRouting.processPackets] at h
    split at h
    · rename_i queued queue _ hqueue
      have hrest : ∀ q ∈ queue, q.info.playerId.index < n := fun q hq =>
        B.queue q (hqueue ▸ List.mem_cons_of_mem queued hq)
      split at h
      · cases h
        exact ⟨B.slots, hrest⟩
      · split at h
        · cases h
        · split at h <;> cases h <;> exact ⟨B.slots, hrest⟩
    · cases h

/-- And those in the queues of requests. -/
structure Bounded (n : Nat) (s : State) : Prop where
  routing : RoutingIn n s.routing
  sends : ∀ id ∈ s.sendRequestQueue, id.index < n
  destroys : ∀ id ∈ s.destroySessionRequestQueue, id.index < n

theorem Bounded.init (uniqueCharacterId : UInt32) : Bounded n (SlotBounds.init n uniqueCharacterId) :=
  ⟨⟨InRange.init uniqueCharacterId, nofun⟩, nofun, nofun⟩

/-- The memory behind the tables has no part in it. -/
theorem Bounded.on (B : Bounded n s) : Bounded n (s.on n m) where
  routing := { slots := { B.routing.slots with }, queue := B.routing.queue }
  sends := B.sends
  destroys := B.destroys

theorem Bounded.sendAgain {request : Bool} (B : Bounded n s) (hid : id.index < n) :
    Bounded n (s.sendAgain request id) := by
  unfold State.sendAgain
  split
  · refine { B with sends := fun id' hid' => ?_ }
    rcases List.mem_append.mp hid' with hid' | hid'
    · exact B.sends id' hid'
    · rw [List.mem_singleton.mp hid']
      exact hid
  · exact B

theorem Bounded.destroyAgain {request : Bool} (B : Bounded n s) (hid : id.index < n) :
    Bounded n (s.destroyAgain request id) := by
  unfold State.destroyAgain
  split
  · refine { B with destroys := fun id' hid' => ?_ }
    rcases List.mem_append.mp hid' with hid' | hid'
    · exact B.destroys id' hid'
    · rw [List.mem_singleton.mp hid']
      exact hid
  · exact B

theorem sendAgain_on {request : Bool} :
    (s.on n m).sendAgain request id = (s.sendAgain request id).on n m := by
  unfold State.sendAgain
  split <;> rfl

theorem destroyAgain_on {request : Bool} :
    (s.on n m).destroyAgain request id = (s.destroyAgain request id).on n m := by
  unfold State.destroyAgain
  split <;> rfl

/-- A call that has the result `r`, and `r'` over the memory `m`: it does not look there, and keeps
the bound. -/
def Indifferent (n : Nat) (m : Memory) (r r' : Except Fault State) : Prop :=
  r' = r.map (State.on n m) ∧ ∀ t, r = .ok t → Bounded n t

theorem Indifferent.ok (B : Bounded n s) : Indifferent n m (.ok s) (.ok (s.on n m)) :=
  ⟨rfl, fun _ h => Except.ok.inj h ▸ B⟩

theorem Indifferent.error {fault : Fault} : Indifferent n m (.error fault) (.error fault) :=
  ⟨rfl, nofun⟩

/-- **A lookup under an id in range.** -/
theorem Bounded.lookup {after : State → SessionId → State} (B : Bounded n s) (hid : id.index < n)
    (hon : ∀ s id, after (s.on n m) id = (after s id).on n m)
    (hafter : ∀ s, Bounded n s → Bounded n (after s id)) :
    Indifferent n m (SlotBounds.lookup s id after) (SlotBounds.lookup (s.on n m) id after) := by
  have hread : (s.on n m).routing.slots.sessionMap id.index =
      s.routing.slots.sessionMap id.index := patch_of_lt hid
  have hheap : (s.on n m).routing.slots.heap = s.routing.slots.heap := rfl
  have hlog : ∀ entry, Bounded n { s with found := s.found ++ [entry] } := fun _ => { B with }
  unfold SlotBounds.lookup
  rw [hread, hheap]
  split
  · exact .ok (hlog none)
  · rename_i p _
    split
    · exact .error
    · split
      · exact .ok (hlog none)
      · rename_i hsame
        rw [not_not.mp hsame]
        have hsame := Indifferent.ok (m := m) (hafter _ (hlog (some p)))
        rw [← hon] at hsame
        exact hsame

theorem Bounded.ofSession {call call' : SessionId → Except Fault State} (B : Bounded n s)
    (hcall : ∀ id, id.index < n → Indifferent n m (call id) (call' id)) :
    Indifferent n m (SlotBounds.ofSession s p call) (SlotBounds.ofSession (s.on n m) p call') := by
  show Indifferent n m (SlotBounds.ofSession s p call) (match s.routing.slots.heap p with
    | none => .error .useAfterFree
    | some session => call' session.sessionId)
  unfold SlotBounds.ofSession
  split
  · exact .error
  · rename_i session hp
    exact hcall _ (B.routing.slots.heap p session hp).1

theorem Bounded.ofPlayer {call call' : SessionId → Except Fault State} (B : Bounded n s)
    (hcall : ∀ id, id.index < n → Indifferent n m (call id) (call' id)) :
    Indifferent n m (SlotBounds.ofPlayer s p call) (SlotBounds.ofPlayer (s.on n m) p call') := by
  show Indifferent n m (SlotBounds.ofPlayer s p call) (match s.routing.slots.players p with
    | none => .error .useAfterFree
    | some player => call' player.sessionId)
  unfold SlotBounds.ofPlayer
  split
  · exact .error
  · rename_i player hp
    exact hcall _ (B.routing.slots.players p player hp).2

theorem Bounded.lookupSend (B : Bounded n s) (hid : id.index < n) (request : Bool) :
    Indifferent n m (SlotBounds.lookup s id (.sendAgain request))
      (SlotBounds.lookup (s.on n m) id (.sendAgain request)) :=
  B.lookup hid (fun _ _ => sendAgain_on) fun _ B => B.sendAgain hid

theorem Bounded.lookupDestroy (B : Bounded n s) (hid : id.index < n) (request : Bool) :
    Indifferent n m (SlotBounds.lookup s id (.destroyAgain request))
      (SlotBounds.lookup (s.on n m) id (.destroyAgain request)) :=
  B.lookup hid (fun _ _ => destroyAgain_on) fun _ B => B.destroyAgain hid

theorem Bounded.sendThread {again : Bool} (B : Bounded n s) :
    Indifferent n m (SlotBounds.sendThread s again) (SlotBounds.sendThread (s.on n m) again) := by
  show Indifferent n m (SlotBounds.sendThread s again) (match s.sendRequestQueue with
    | [] => .error .notEnabled
    | id :: queue =>
      SlotBounds.lookup (State.on n m { s with sendRequestQueue := queue }) id (.sendAgain again))
  unfold SlotBounds.sendThread
  split
  · exact .error
  · rename_i id queue hqueue
    have hids : ∀ id' ∈ id :: queue, id'.index < n := hqueue ▸ B.sends
    have B' : Bounded n { s with sendRequestQueue := queue } :=
      { B with sends := fun id' hid' => hids id' (List.mem_cons_of_mem id hid') }
    exact B'.lookupSend (hids id List.mem_cons_self) again

theorem Bounded.sessionDestroyThread {again : Bool} (B : Bounded n s) :
    Indifferent n m (SlotBounds.sessionDestroyThread s again)
      (SlotBounds.sessionDestroyThread (s.on n m) again) := by
  show Indifferent n m (SlotBounds.sessionDestroyThread s again)
    (match s.routing.slots.destroy, s.destroySessionRequestQueue with
      | .idle, id :: queue =>
        SlotBounds.lookup (State.on n m { s with destroySessionRequestQueue := queue }) id
          (.destroyAgain again)
      | _, _ => .error .notEnabled)
  unfold SlotBounds.sessionDestroyThread
  split
  · rename_i id queue _ hqueue
    have hids : ∀ id' ∈ id :: queue, id'.index < n := hqueue ▸ B.destroys
    have B' : Bounded n { s with destroySessionRequestQueue := queue } :=
      { B with destroys := fun id' hid' => hids id' (List.mem_cons_of_mem id hid') }
    exact B'.lookupDestroy (hids id List.mem_cons_self) again
  · exact .error

/-- **One step over other memory.** -/
theorem Bounded.step_on (B : Bounded n s) (hpos : 0 < n) :
    Indifferent n m (step s a) (step (s.on n m) a) := by
  cases a with
  | routing a =>
    show Indifferent n m (step s (.routing a))
      (match PacketRouting.step (routingOn n m s.routing) a with
        | .error fault => .error fault
        | .ok routing => .ok { s with routing := routing })
    rw [routing_step_on B.routing, step]
    split
    · rename_i fault h
      rw [h]
      exact .error
    · rename_i routing h
      rw [h]
      exact .ok { B with routing := B.routing.step hpos h }
  | workerThread p =>
    exact B.ofSession fun id hid => B.lookup hid (fun _ _ => rfl) fun _ B => B
  | requestSend p =>
    show Indifferent n m (SlotBounds.ofSession s p fun id => .ok (s.sendAgain true id))
      (SlotBounds.ofSession (s.on n m) p fun id => .ok ((s.on n m).sendAgain true id))
    refine B.ofSession fun id hid => ?_
    rw [sendAgain_on]
    exact .ok (B.sendAgain hid)
  | requestDestroy p =>
    show Indifferent n m (SlotBounds.ofSession s p fun id => .ok (s.destroyAgain true id))
      (SlotBounds.ofSession (s.on n m) p fun id => .ok ((s.on n m).destroyAgain true id))
    refine B.ofSession fun id hid => ?_
    rw [destroyAgain_on]
    exact .ok (B.destroyAgain hid)
  | sendThread again => exact B.sendThread
  | sessionDestroyThread again => exact B.sessionDestroyThread
  | addRefSession q =>
    exact B.ofPlayer fun id hid => B.lookup hid (fun _ _ => rfl) fun _ B => B
  | releaseRefSession q last => exact B.ofPlayer fun id hid => B.lookupDestroy hid last
  | sendPacket q canSend => exact B.ofPlayer fun id hid => B.lookupSend hid canSend
  | onClientLeave q first => exact B.ofPlayer fun id hid => B.lookupDestroy hid first

/-! ## Runs -/

theorem on_on : (s.on n m).on n m' = s.on n m' := by
  show { s with routing := { s.routing with slots := { s.routing.slots with
    sessionMap := patch n m'.sessionMap (patch n m.sessionMap s.routing.slots.sessionMap)
    playerList := patch n m'.playerList (patch n m.playerList s.routing.slots.playerList) } } } = _
  rw [patch_patch, patch_patch]
  rfl

theorem holds_on : Holds n m (s.on n m) := fun _ hi => ⟨patch_of_le hi, patch_of_le hi⟩

/-- A run in range goes the same way over any memory. -/
theorem Bounded.runOver {as : List Action} (B : Bounded n s) (hpos : 0 < n)
    (hr : Run (fun s a t => step s a = .ok t) anyStep s as t) : Bounded n t ∧
      Run (fun s a t => step s a = .ok t) anyStep (s.on n m) as (t.on n m) := by
  induction hr with
  | nil => exact ⟨B, .nil⟩
  | snoc _ _ hstep ih =>
    obtain ⟨hsame, hbound⟩ := ih.1.step_on hpos
    refine ⟨hbound _ hstep, ih.2.snoc trivial ?_⟩
    rw [hsame, hstep]
    rfl

/-- A run over some memory is such a run. -/
theorem Bounded.run_of_over {as : List Action} {u : State} (B : Bounded n s) (hpos : 0 < n)
    (hr : Run (fun s a t => step s a = .ok t) anyStep (s.on n m) as u) : ∃ t, u = t.on n m ∧
      Run (fun s a t => step s a = .ok t) anyStep s as t := by
  induction hr with
  | nil => exact ⟨s, rfl, .nil⟩
  | @snoc _ v u a _ _ hstep ih =>
    obtain ⟨t, rfl, hrun⟩ := ih
    have Bt : Bounded n t := (B.runOver (m := m) hpos hrun).1
    obtain ⟨hsame, -⟩ := Bt.step_on (m := m) (a := a) hpos
    rw [hsame] at hstep
    cases h : step t a with
    | error fault =>
      rw [h] at hstep
      cases hstep
    | ok t' =>
      rw [h] at hstep
      cases hstep
      exact ⟨t', rfl, hrun.snoc trivial h⟩

/-- **No access beyond the tables.**  With at least one slot, in every run of accepts, releases,
received packets, requests and lookups of all threads, also one with more connections than slots and
with ids nobody knows any more: every index that is kept anywhere is below `maxSessionCount`, what
lies in memory behind so many entries of `sessionMap` and `playerList` is what lay there, and over any
other memory the same steps lead to the same state. -/
theorem run_within_tables {maxSessionCount : Nat} {uniqueCharacterId : UInt32} {as : List Action}
    (hpos : 0 < maxSessionCount)
    (hr : Run (fun s a t => step s a = .ok t) anyStep
      ((init maxSessionCount uniqueCharacterId).on maxSessionCount m) as s) :
    Bounded maxSessionCount s ∧ Holds maxSessionCount m s ∧
      ∀ m', Run (fun s a t => step s a = .ok t) anyStep
        ((init maxSessionCount uniqueCharacterId).on maxSessionCount m') as
        (s.on maxSessionCount m') := by
  obtain ⟨t, rfl, hrun⟩ := (Bounded.init uniqueCharacterId).run_of_over hpos hr
  have B : Bounded maxSessionCount t :=
    ((Bounded.init uniqueCharacterId).runOver (m := m) hpos hrun).1
  refine ⟨B.on, holds_on, fun m' => ?_⟩
  rw [on_on]
  exact ((Bounded.init uniqueCharacterId).runOver hpos hrun).2

/-- A second connection to a server with one slot: `Pop` finds nothing, the session goes under index
0, and a request for the first one finds nothing.  Pointers to that lie behind the tables. -/
theorem run_within_tables_no_slot : ∃ s,
    Run (fun s a t => step s a = .ok t) anyStep ((init 1 0).on 1 ⟨fun _ => some 1, fun _ => some 1⟩)
        [.routing (.slots (.onAccept 1)), .routing (.slots .acceptThread),
          .routing (.slots .acceptThread), .requestDestroy 1, .routing (.slots (.onAccept 2)),
          .routing (.slots .acceptThread), .sessionDestroyThread false] s ∧
      s.found = [none] ∧ Holds 1 ⟨fun _ => some 1, fun _ => some 1⟩ s := by
  have hr := runFn_iff_run.mp (rfl : runFn step ((init 1 0).on 1 ⟨fun _ => some 1, fun _ => some 1⟩)
    [.routing (.slots (.onAccept 1)), .routing (.slots .acceptThread),
      .routing (.slots .acceptThread), .requestDestroy 1, .routing (.slots (.onAccept 2)),
      .routing (.slots .acceptThread), .sessionDestroyThread false] = .ok _)
  exact ⟨_, hr, rfl, (run_within_tables (by decide) hr).2.1⟩

end SlotBounds

end IocpServer
