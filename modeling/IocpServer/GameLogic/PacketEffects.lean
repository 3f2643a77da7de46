import IocpServer.GameLogic.Sightings

/-!
# What a packet does to a position

A handler stores one position, may send `SC_SYNC` and may put the player on `movingPlayerList`;
what it does behind that (the sector check, the messages, the hit) moves nobody.

* `Handled` — a position stored, with what is sent and listed at the time.
* `PacketEffect` — what a packet does: it is a `CS_MOVE_START`, it is a `CS_MOVE_STOP` or an attack,
  or it moves nobody.
* `outcome_processPacket` — **`ProcessPackets` has one of these effects.**
-/

set_option autoImplicit false

namespace IocpServer

open Lib

namespace GameLogic

variable {g : Grid} {w w₁ w' : World} {p q : Nat} {player : Player} {f : Player → Player}
  {packetBuffer : CPacket} {locals : Locals} {ipi : IncomingPacketInfo} {now : Int32}

/-- Nobody moves, and what was sent stays sent. -/
structure Follows (w w' : World) : Prop where
  pos : w'.read Player.pos = w.read Player.pos
  moving : w'.movingPlayerList = w.movingPlayerList
  sent : w.sent <+: w'.sent

/-- The position `new` is stored in the player at `p`. -/
structure Handled (w : World) (p : Nat) (player : Player) (new : Pos) (sync : Bool)
    (moving : List Nat) (w' : World) : Prop where
  self : w'.read Player.pos p = some new
  other : ∀ q, q ≠ p → w'.read Player.pos q = w.read Player.pos q
  moving : w'.movingPlayerList = moving
  sent : w.sent ++ (if sync then [syncMessage player] else []) <+: w'.sent

inductive PacketEffect (w : World) (ipi : IncomingPacketInfo) (locals : Locals) (w' : World) : Prop
  | start {p : Nat} {player : Player} (hp : Addressed w ipi p player)
      (htype : ipi.packetType = dfPacketCsMoveStart)
      (h : Handled w p player (startPosition player (readMove ipi.packetBuffer locals))
        (tooFar player (readMove ipi.packetBuffer locals))
        (if player.isMoving then w.movingPlayerList else w.movingPlayerList ++ [p]) w')
  | stop {p : Nat} {player : Player} (hp : Addressed w ipi p player) (htype : IsStop ipi.packetType)
      (h : Handled w p player (stopPosition player (readMove ipi.packetBuffer locals))
        (mustSync player (readMove ipi.packetBuffer locals)) w.movingPlayerList w')
  | none (h : ∀ p player, Addressed w ipi p player →
        ipi.packetType ≠ dfPacketCsMoveStart ∧ ¬ IsStop ipi.packetType) (hf : Follows w w')

/-! ## Behind the store -/

theorem Follows.refl : Follows w w := ⟨rfl, rfl, List.prefix_rfl⟩

theorem Quiet.pos (hf : Quiet f) (player : Player) : (f player).pos = player.pos := by
  have hspot := (hf player).1
  simp only [Player.spot, Spot.mk.injEq] at hspot
  exact Prod.ext hspot.1 hspot.2.1

theorem follows_writes : WriteInvariant (Follows w) (fun _ => True) where
  fault := fun _ _ => trivial
  send := fun _ msgs h => ⟨h.pos, h.moving, h.sent.trans (List.prefix_append _ msgs)⟩
  write := fun _ _ _ hf h => ⟨(read_modify hf.pos).trans h.pos, h.moving, h.sent⟩

theorem Follows.checkSector {prevX prevY : UInt16} (h : Follows w w') :
    Outcome (Follows w) (fun _ => True) (checkSector g w' p prevX prevY) := by
  refine outcome_checkSector_moved h fun prev curr msgs => ?_
  refine ⟨?_, h.moving, h.sent.trans (List.prefix_append _ msgs)⟩
  show ((w'.leave p prev).enter g p curr).read Player.pos = _
  rw [read_enter fun _ _ => rfl, read_leave fun _ _ => rfl, h.pos]

theorem Handled.follows {new : Pos} {sync : Bool} {moving : List Nat}
    (h : Handled w p player new sync moving w₁) (h' : Follows w₁ w') :
    Handled w p player new sync moving w' := by
  refine ⟨?_, fun q hq => ?_, h'.moving.trans h.moving, h.sent.trans h'.sent⟩
  · rw [h'.pos]
    exact h.self
  · rw [h'.pos]
    exact h.other q hq

/-- A position is stored, behind `SC_SYNC` or not. -/
theorem Handled.store {new : Pos} {sync : Bool} (hp : w.players p = some player)
    (hf : (f player).pos = new) :
    Handled w p player new sync w.movingPlayerList
      ((if sync then w.send [syncMessage player] else w).modify p f) := by
  rw [send_if]
  refine ⟨?_, fun q hq => ?_, rfl, List.prefix_rfl⟩
  · rw [World.read, modify_players_self, send_players, hp]
    exact congrArg some hf
  · rw [World.read, modify_players_ne hq, send_players]
    rfl

/-! ## Handlers -/

theorem outcome_packetProcMoveStart (hp : w.players p = some player) :
    Outcome (Handled w p player (startPosition player (readMove packetBuffer locals))
        (tooFar player (readMove packetBuffer locals))
        (if player.isMoving then w.movingPlayerList else w.movingPlayerList ++ [p]))
      (fun _ => True) (packetProcMoveStart g w p packetBuffer locals) := by
  unfold packetProcMoveStart
  rw [deref_ok hp]
  have hlisted : ∀ {moving : Bool} {new : Pos} {sync : Bool} {w₁ : World},
      Handled w p player new sync w.movingPlayerList w₁ →
        Handled w p player new sync
          (if moving then w.movingPlayerList else w.movingPlayerList ++ [p])
          (if moving then w₁ else { w₁ with movingPlayerList := w₁.movingPlayerList ++ [p] }) := by
    intro moving new sync w₁ h
    cases moving with
    | true => exact h
    | false => exact ⟨h.self, h.other, congrArg (· ++ [p]) h.moving, h.sent⟩
  refine (Follows.refl.checkSector).bind ?_
  intro w₂ hfollows
  apply outcome_any.bind
  intro moved _
  refine Outcome.weaken (follows_writes.broadcast hfollows outcome_sendAOI) ?_ fun _ h => h
  intro w' hfollows'
  exact (hlisted (Handled.store hp rfl)).follows hfollows'

theorem outcome_packetProcMoveStop (hp : w.players p = some player) :
    Outcome (Handled w p player (stopPosition player (readMove packetBuffer locals))
        (mustSync player (readMove packetBuffer locals)) w.movingPlayerList)
      (fun _ => True) (packetProcMoveStop g w p packetBuffer locals) := by
  unfold packetProcMoveStop
  rw [deref_ok hp]
  refine (Follows.refl.checkSector).bind ?_
  intro w₂ hfollows
  apply outcome_any.bind
  intro moved _
  refine Outcome.weaken (follows_writes.broadcast hfollows outcome_sendAOI) ?_ fun _ h => h
  intro w' hfollows'
  exact (Handled.store hp rfl).follows hfollows'

theorem outcome_packetProcAttack {attack : AttackType} (hp : w.players p = some player) :
    Outcome (Handled w p player (stopPosition player (readMove packetBuffer locals))
        (mustSync player (readMove packetBuffer locals)) w.movingPlayerList)
      (fun _ => True) (packetProcAttack attack g w p packetBuffer locals) := by
  unfold packetProcAttack
  rw [deref_ok hp]
  apply ((@follows_writes w).read outcome_deref).bind
  intro moved _
  apply ((@follows_writes w).read outcome_sendAOI).bind
  intro msgs _
  refine Outcome.weaken (follows_writes.checkDamagedPlayer
    (follows_writes.send _ msgs Follows.refl)) ?_ fun _ h => h
  intro w' hfollows
  exact (Handled.store hp rfl).follows hfollows

/-- **The effect of a packet.** -/
theorem outcome_processPacket :
    Outcome (PacketEffect w ipi locals) (fun _ => True) (processPacket g w ipi locals now) := by
  have hreceived : ∀ {p : Nat}, Follows w (received w p now) :=
    follows_writes.write w _ _ (fun _ => ⟨rfl, fun hd => hd⟩) Follows.refl
  have hback : ∀ {p : Nat} {player : Player} {new : Pos} {sync : Bool} {moving : List Nat}
      {w' : World},
      Handled (received w p now) p { player with lastRecvTime := now } new sync moving w' →
        Handled w p player new sync moving w' := by
    intro p player new sync moving w' h
    refine ⟨h.self, fun q hq => ?_, h.moving, h.sent⟩
    rw [h.other q hq, hreceived.pos]
  have honly : ∀ {p q : Nat} {player other : Player}, Addressed w ipi p player →
      Addressed w ipi q other → q = p ∧ other = player := by
    intro p q player other hp hq
    cases hp.1.symm.trans hq.1
    cases hp.2.1.symm.trans hq.2.1
    exact ⟨rfl, rfl⟩
  apply outcome_packet trivial
  · exact fun hnone => PacketEffect.none (fun p player hp => absurd hp (hnone p player)) Follows.refl
  · intro p player hp htype
    refine (outcome_packetProcMoveStart (received_self hp.2.1)).weaken (fun w' h => ?_) fun _ h => h
    exact PacketEffect.start hp htype (hback h)
  · intro p player hp htype
    refine (outcome_packetProcMoveStop (received_self hp.2.1)).weaken (fun w' h => ?_) fun _ h => h
    exact PacketEffect.stop hp (Or.inl htype) (hback h)
  · intro attack p player hp htype
    refine (outcome_packetProcAttack (received_self hp.2.1)).weaken (fun w' h => ?_) fun _ h => h
    exact PacketEffect.stop hp (htype ▸ isStop_attack) (hback h)
  · intro p player hp htype
    unfold packetProcEcho
    rw [deref_ok (received_self hp.2.1)]
    refine PacketEffect.none (fun q other hq => ?_) (follows_writes.send _ _ hreceived)
    rw [htype]
    exact ⟨by decide, not_isStop_echo⟩
  · intro p player hp hstart hstop
    exact PacketEffect.none (fun q other hq => ⟨hstart, hstop⟩) hreceived

end GameLogic

end IocpServer
