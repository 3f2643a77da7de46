import IocpServer.Slots

/-!
# Whose player a packet goes to

`OnMessage` puts the `playerId` that its session holds at that moment beside every packet, and
`ProcessPackets` looks for the player under that id, some time later: the session may have no
player yet, its player may be gone, and the slot may have been given to others.  The threads of
`Slots` go on meanwhile.

A session without a player has the id 0 in slot 0, and the player of slot 0 is asked for it.

* `names_step` — what a step of the slots does to the ids of players.
* `RouteOk` — the step condition: that of `Slots`, and the counter behind the character ids does
  not come round.
* `run_routed` — **in every run whose steps meet the condition a handler is called only for the
  player of the session the packet came in on, and the packets handled are some of those received,
  in their order and each once.**
-/

set_option autoImplicit false

namespace IocpServer

open Lib Slots

namespace PacketRouting

structure Packet where
  packetType : UInt8
  packetBuffer : CPacket

/-- An entry of `packetQueue`.  `sender` and `registered` are history: the session it came in on,
and whether that had a player. -/
structure Queued where
  info : IncomingPacketInfo
  sender : SessionId
  registered : Bool

/-- A call of a handler. -/
structure Handled where
  player : Slots.Player
  queued : Queued

structure State where
  slots : Slots.State
  packetQueue : List Queued
  /-- History: the packets `OnMessage` found, with their sessions. -/
  received : List (SessionId × Packet)
  handled : List Handled

inductive Action where
  /-- Another step of the accept thread, the logic thread or the destroy thread. -/
  | slots (a : Slots.Action)
  /-- A worker finds a packet of the session at `p`. -/
  | onMessage (p : Nat) (packet : Packet)
  /-- The logic thread takes a packet from the queue. -/
  | processPackets

/-- The `playerId` of a new session. -/
def noPlayer : PlayerId := ⟨0, 0⟩

def onMessage (s : State) (p : Nat) (packet : Packet) : Except Fault State :=
  match s.slots.heap p with
  | none => .error .useAfterFree
  | some session =>
    let info := ⟨session.playerId.getD noPlayer, packet.packetBuffer, packet.packetType⟩
    .ok { s with
      packetQueue := s.packetQueue ++ [⟨info, session.sessionId, session.playerId.isSome⟩]
      received := s.received ++ [(session.sessionId, packet)] }

def processPackets (s : State) : Except Fault State :=
  match s.slots.logic, s.packetQueue with
  | .idle, queued :: packetQueue =>
    match s.slots.playerList queued.info.playerId.index with
    | none => .ok { s with packetQueue := packetQueue }
    | some p =>
      match s.slots.players p with
      | none => .error .useAfterFree
      | some player =>
        if player.playerId ≠ queued.info.playerId then .ok { s with packetQueue := packetQueue }
        else
          .ok { s with
            packetQueue := packetQueue
            handled := s.handled ++ [⟨player, queued⟩] }
  | _, _ => .error .notEnabled

def step (s : State) : Action → Except Fault State
  | .slots a =>
    match Slots.step s.slots a with
    | .error fault => .error fault
    | .ok slots => .ok { s with slots := slots }
  | .onMessage p packet => onMessage s p packet
  | .processPackets => processPackets s

def init (maxSessionCount : Nat) (uniqueCharacterId : UInt32) : State :=
  ⟨Slots.init maxSessionCount uniqueCharacterId, [], [], []⟩

/-! ## The promise and its condition -/

/-- The packet of an entry, with the session it came in on. -/
def Queued.packet (q : Queued) : SessionId × Packet :=
  (q.sender, ⟨q.info.packetType, q.info.packetBuffer⟩)

structure Routed (s : State) : Prop where
  /-- The player was created for the session that the packet came in on, and had been registered
  with it by then. -/
  own : ∀ h ∈ s.handled, h.player.sessionId = h.queued.sender ∧ h.queued.registered = true
  order : (s.handled.map fun h => h.queued.packet).Sublist s.received

/-- The step condition. -/
def RouteOk (s : State) : Action → Prop
  | .slots a =>
    SlotOk s.slots a ∧ ∀ p, a = .createNewPlayer p → s.slots.uniqueCharacterId.toNat + 1 < 2 ^ 32
  | _ => True

/-! ## The ids of players -/

variable {x y : Slots.State} {b : Slots.Action} {s t : State} {a : Action} {p : Nat}
  {c : PlayerId × SessionId}

theorem names_clear {q : Nat} (h : (Function.update x.players q none p).map (fun player =>
    (player.playerId, player.sessionId)) = some c) : x.names p = some c := by
  by_cases hpq : p = q
  · subst hpq
    rw [Function.update_self] at h
    cases h
  · rwa [Function.update_of_ne hpq] at h

/-- The players allocated behind a step were there, and nobody was created. -/
def SameNames (x y : Slots.State) : Prop :=
  y.created = x.created ∧ y.uniqueCharacterId = x.uniqueCharacterId ∧
    ∀ p c, y.names p = some c → x.names p = some c

/-- **A step of the slots creates a player, or adds nobody.** -/
theorem names_step (h : Slots.step x b = .ok y) : SameNames x y ∨
    ∃ p id, b = .createNewPlayer p ∧
      y.created = x.created ++ [(⟨id.index, x.uniqueCharacterId + 1⟩, id)] ∧
      y.uniqueCharacterId = x.uniqueCharacterId + 1 ∧
      ∀ q c, y.names q = some c → x.names q = some c ∨ c ∈ y.created := by
  have same : ∀ {z : Slots.State}, z.created = x.created →
      z.uniqueCharacterId = x.uniqueCharacterId → z.names = x.names → SameNames x z :=
    fun hcreated hcount hnames => ⟨hcreated, hcount, fun p c hc => by rwa [hnames] at hc⟩
  cases b with
  | onAccept q =>
    simp only [Slots.step, Slots.onAccept] at h
    split at h <;> cases h
    exact Or.inl (same rfl rfl rfl)
  | acceptThread =>
    simp only [Slots.step, Slots.acceptStep] at h
    split at h
    · cases h
    · cases h
      exact Or.inl (same rfl rfl rfl)
    · split at h <;> cases h
      exact Or.inl (same rfl rfl rfl)
  | createNewPlayer q =>
    simp only [Slots.step, Slots.createNewPlayer] at h
    split at h <;> cases h
    rename_i id queue _ _ _
    refine Or.inr ⟨q, id, rfl, rfl, rfl, fun r c hr => ?_⟩
    by_cases hrq : r = q
    · subst hrq
      simp only [Slots.State.names, Function.update_self, Option.map_some, Option.some.injEq] at hr
      exact Or.inr (List.mem_append_right _ (List.mem_singleton.mpr hr.symm))
    · simp only [Slots.State.names, Function.update_of_ne hrq] at hr
      exact Or.inl hr
  | flushFrame =>
    simp only [Slots.step, Slots.flushFrame] at h
    split at h <;> cases h
    exact Or.inl (same rfl rfl rfl)
  | logicThread =>
    left
    simp only [Slots.step, Slots.logicStep] at h
    split at h
    · cases h
    · split at h <;> cases h
      · exact ⟨rfl, rfl, fun _ _ hc => names_clear hc⟩
      · exact same rfl rfl rfl
    · split at h <;> cases h
      exact same rfl rfl rfl
    · split at h <;> cases h
      exact same rfl rfl rfl
    · split at h <;> cases h
      exact same rfl rfl rfl
    · cases h
      exact same rfl rfl rfl
    · split at h <;> cases h
      exact same rfl rfl rfl
    · cases h
      exact same rfl rfl rfl
    · split at h <;> cases h
      exact same rfl rfl rfl
    · cases h
      exact ⟨rfl, rfl, fun _ _ hc => names_clear hc⟩
    · cases h
      exact same rfl rfl rfl
  | onRelease q =>
    simp only [Slots.step, Slots.onRelease] at h
    split at h
    · split at h <;> cases h
      exact Or.inl (same rfl rfl rfl)
    · cases h
  | destroyThread =>
    left
    simp only [Slots.step, Slots.destroyStep] at h
    split at h
    · cases h
    · cases h
      exact same rfl rfl rfl
    · split at h <;> cases h <;> exact same rfl rfl rfl
    · split at h <;> cases h
      rename_i hp
      exact same rfl rfl (names_update hp rfl rfl)
    · cases h
      exact same rfl rfl rfl
    · cases h
      exact same rfl rfl rfl

/-! ## The invariant -/

/-- Whoever is allocated was created, each under a character id of its own, and none under 0. -/
structure Minted (x : Slots.State) : Prop where
  players : ∀ p c, x.names p = some c → c ∈ x.created
  drawn : ∀ c ∈ x.created, 0 < c.1.characterId.toNat ∧
    c.1.characterId.toNat ≤ x.uniqueCharacterId.toNat
  nodup : (x.created.map fun c => c.1.characterId).Nodup

theorem Minted.init (maxSessionCount : Nat) (uniqueCharacterId : UInt32) :
    Minted (Slots.init maxSessionCount uniqueCharacterId) :=
  ⟨nofun, nofun, List.nodup_nil⟩

theorem Minted.step (M : Minted x) (h : Slots.step x b = .ok y)
    (hok : ∀ p, b = .createNewPlayer p → x.uniqueCharacterId.toNat + 1 < 2 ^ 32) : Minted y := by
  rcases names_step h with ⟨hcreated, hcount, hnames⟩ | ⟨p, id, hb, hcreated, hcount, hnames⟩
  · refine ⟨fun p c hc => ?_, fun c hc => ?_, ?_⟩
    · rw [hcreated]
      exact M.players p c (hnames p c hc)
    · rw [hcreated] at hc
      rw [hcount]
      exact M.drawn c hc
    · rw [hcreated]
      exact M.nodup
  · have hnext : (x.uniqueCharacterId + 1).toNat = x.uniqueCharacterId.toNat + 1 := by
      have := hok p hb
      rw [UInt32.toNat_add, UInt32.toNat_one, Nat.mod_eq_of_lt this]
    refine ⟨fun q c hc => ?_, fun c hc => ?_, ?_⟩
    · rcases hnames q c hc with hold | hnew
      · rw [hcreated]
        exact List.mem_append_left _ (M.players q c hold)
      · exact hnew
    · rw [hcount, hnext]
      rw [hcreated, List.mem_append, List.mem_singleton] at hc
      rcases hc with hc | rfl
      · have := M.drawn c hc
        omega
      · rw [hnext]
        omega
    · rw [hcreated, List.map_append, List.map_singleton, List.nodup_append]
      refine ⟨M.nodup, List.nodup_singleton _, ?_⟩
      rintro _ hold _ hnew heq
      obtain ⟨c, hc, rfl⟩ := List.mem_map.mp hold
      obtain rfl := List.mem_singleton.mp hnew
      have hle := (M.drawn c hc).2
      rw [heq, hnext] at hle
      omega

/-- Two players created under one id are one. -/
theorem Minted.session_eq (M : Minted x) {playerId : PlayerId} {id id' : SessionId}
    (h : (playerId, id) ∈ x.created) (h' : (playerId, id') ∈ x.created) : id = id' :=
  congrArg Prod.snd (List.inj_on_of_nodup_map M.nodup h h' rfl)

/-- The id beside a packet was that of its session's player, if it had one. -/
def Queued.Marked (x : Slots.State) (q : Queued) : Prop :=
  if q.registered then (q.info.playerId, q.sender) ∈ x.created else q.info.playerId = noPlayer

structure Inv (s : State) : Prop where
  slots : ∃ owner, Slots.Inv owner s.slots
  minted : Minted s.slots
  queue : ∀ q ∈ s.packetQueue, q.Marked s.slots
  own : ∀ h ∈ s.handled, h.player.sessionId = h.queued.sender ∧ h.queued.registered = true
  order : (s.handled.map (fun h => h.queued.packet) ++ s.packetQueue.map Queued.packet).Sublist
    s.received

theorem Inv.init (maxSessionCount : Nat) (uniqueCharacterId : UInt32) :
    Inv (init maxSessionCount uniqueCharacterId) :=
  ⟨⟨_, Slots.Inv.init maxSessionCount uniqueCharacterId⟩, Minted.init _ _, nofun, nofun, .slnil⟩

theorem Queued.Marked.step {q : Queued} (h : q.Marked x) (hstep : Slots.step x b = .ok y) :
    q.Marked y := by
  have hsub : x.created ⊆ y.created := by
    rcases names_step hstep with ⟨hcreated, -⟩ | ⟨p, id, -, hcreated, -⟩
    · rw [hcreated]
      exact List.Subset.refl _
    · rw [hcreated]
      exact List.subset_append_left _ _
  unfold Queued.Marked at h ⊢
  split
  · rename_i hregistered
    rw [if_pos hregistered] at h
    exact hsub h
  · rename_i hregistered
    rwa [if_neg hregistered] at h

/-- The player found under the id beside a packet is the session's. -/
theorem Inv.found (I : Inv s) {q : Queued} {player : Slots.Player} (hq : q.Marked s.slots)
    (hp : s.slots.players p = some player) (hid : player.playerId = q.info.playerId) :
    player.sessionId = q.sender ∧ q.registered = true := by
  have hcreated := I.minted.players p _ (names_of_players hp)
  unfold Queued.Marked at hq
  split at hq
  · rename_i hregistered
    rw [hid] at hcreated
    exact ⟨I.minted.session_eq hcreated hq, hregistered⟩
  · have hpos := (I.minted.drawn _ hcreated).1
    rw [show (player.playerId, player.sessionId).1 = noPlayer from hid.trans hq] at hpos
    exact absurd hpos (by decide)

theorem Inv.onMessage {packet : Packet} (I : Inv s)
    (h : PacketRouting.onMessage s p packet = .ok t) : Inv t := by
  unfold PacketRouting.onMessage at h
  split at h <;> cases h
  rename_i session hp
  refine { I with queue := fun q hq => ?_, order := ?_ }
  · rcases List.mem_append.mp hq with hq | hq
    · exact I.queue q hq
    · obtain rfl := List.mem_singleton.mp hq
      cases hname : session.playerId with
      | none => rfl
      | some playerId =>
        obtain ⟨owner, hslots⟩ := I.slots
        exact hslots.named p session playerId hp hname
  · rw [List.map_append, ← List.append_assoc]
    exact I.order.append_right _

theorem Inv.processPackets (I : Inv s) (h : PacketRouting.processPackets s = .ok t) : Inv t := by
  unfold PacketRouting.processPackets at h
  split at h
  · rename_i queued packetQueue _ hqueue
    have hmarked : ∀ q ∈ packetQueue, q.Marked s.slots := fun q hq =>
      I.queue q (hqueue ▸ List.mem_cons_of_mem queued hq)
    have horder := I.order
    rw [hqueue, List.map_cons] at horder
    have hdropped : Inv { s with packetQueue := packetQueue } := by
      refine { I with queue := hmarked, order := List.Sublist.trans ?_ horder }
      exact (List.sublist_cons_self _ _).append_left _
    split at h
    · cases h
      exact hdropped
    · rename_i p _
      split at h
      · cases h
      · rename_i player hp
        split at h
        · cases h
          exact hdropped
        · rename_i hid
          cases h
          refine { I with queue := hmarked, own := fun h hh => ?_, order := ?_ }
          · rcases List.mem_append.mp hh with hh | hh
            · exact I.own h hh
            · obtain rfl := List.mem_singleton.mp hh
              have hfirst : queued ∈ s.packetQueue := by
                rw [hqueue]
                exact List.mem_cons_self
              exact I.found (I.queue queued hfirst) hp (not_not.mp hid)
          · rw [List.map_append, List.append_assoc]
            exact horder
  · cases h

theorem Inv.step (I : Inv s) (hok : RouteOk s a) (h : PacketRouting.step s a = .ok t) : Inv t := by
  cases a with
  | slots b =>
    simp only [PacketRouting.step] at h
    split at h <;> cases h
    rename_i slots hstep
    obtain ⟨owner, hslots⟩ := I.slots
    refine { I with slots := hslots.step hok.1 hstep, minted := ?_, queue := fun q hq => ?_ }
    · exact I.minted.step hstep hok.2
    · exact (I.queue q hq).step hstep
  | onMessage p packet => exact I.onMessage h
  | processPackets => exact I.processPackets h

/-- **Packet routing.**  In every run of accepts, releases, received packets and the logic thread
whose steps meet the condition, every packet a handler is called with came in on the session its
player was created for, behind the player's registration; and the packets handled are a subsequence
of those received. -/
theorem run_routed {maxSessionCount : Nat} {uniqueCharacterId : UInt32} {as : List Action}
    (hr : Run (fun s a t => step s a = .ok t) RouteOk (init maxSessionCount uniqueCharacterId)
      as t) : Routed t := by
  have I : Inv t := hr.invariant (Inv.init ..) fun _ _ _ I hok hstep => I.step hok hstep
  exact ⟨I.own, (List.sublist_append_left _ _).trans I.order⟩

/-- A packet comes in before the first session has its player, and one behind that: the first is
put before the player of slot 0, which is the session's own by then, and dropped. -/
theorem run_routed_early_packet :
    ∃ t, Run (fun s a t => step s a = .ok t) RouteOk (init 2 0)
        [.slots (.onAccept 1), .slots .acceptThread, .onMessage 1 ⟨252, .ofBytes [1]⟩,
          .slots .acceptThread, .slots (.createNewPlayer 7), .slots .logicThread,
          .slots .logicThread, .slots .logicThread, .slots .logicThread, .slots .logicThread,
          .onMessage 1 ⟨252, .ofBytes [2]⟩, .processPackets, .processPackets] t ∧
      t.received.length = 2 ∧ t.handled.map (fun h => h.queued.packet.2.packetBuffer.buffer 0) = [2] ∧
      Routed t := by
  obtain ⟨t, hrun, hreceived, hhandled⟩ : ∃ t : State,
      Run (fun s a t => step s a = .ok t) RouteOk (init 2 0)
        [.slots (.onAccept 1), .slots .acceptThread, .onMessage 1 ⟨252, .ofBytes [1]⟩,
          .slots .acceptThread, .slots (.createNewPlayer 7), .slots .logicThread,
          .slots .logicThread, .slots .logicThread, .slots .logicThread, .slots .logicThread,
          .onMessage 1 ⟨252, .ofBytes [2]⟩, .processPackets, .processPackets] t ∧
      t.received.length = 2 ∧
        t.handled.map (fun h => h.queued.packet.2.packetBuffer.buffer 0) = [2] := by
    refine ⟨_, .cons rfl ⟨⟨⟨0, [1], rfl, by decide⟩, nofun⟩, nofun⟩ <|
      .cons rfl ⟨trivial, nofun⟩ <| .cons rfl trivial <| .cons rfl ⟨trivial, nofun⟩ <|
      .cons rfl ⟨trivial, ?_⟩ <| .cons rfl ⟨by nofun, nofun⟩ <| .cons rfl ⟨by nofun, nofun⟩ <|
      .cons rfl ⟨by rintro id p ses ⟨⟩; exact ⟨_, rfl, rfl⟩, nofun⟩ <|
      .cons rfl ⟨by nofun, nofun⟩ <| .cons rfl ⟨by nofun, nofun⟩ <| .cons rfl trivial <|
      .cons rfl trivial <| .cons rfl trivial .nil, rfl, rfl⟩
    rintro p ⟨⟩
    decide
  exact ⟨t, hrun, hreceived, hhandled, run_routed hrun⟩

end PacketRouting

end IocpServer
