import IocpServer.GameLogic.Untouched

/-!
# Who a player is and which way it looks

`sessionId`, `playerId` and `faceDirection` of a player are written when it is created; later only
`PacketProcMoveStart` writes to one of them, `faceDirection`.

* `facing` — the `faceDirection` behind a call.
* `figure_step` — **every call keeps session, id and `faceDirection` of every player but for that
  one write.**
-/

set_option autoImplicit false

namespace IocpServer

open Lib

namespace GameLogic

structure Figure where
  sessionId : SessionId
  playerId : PlayerId
  faceDirection : UInt8

def Player.figure (player : Player) : Figure :=
  ⟨player.sessionId, player.playerId, player.faceDirection⟩

/-- The packet is a `CS_MOVE_START` of the player at `p`. -/
def Starts (w : World) (ipi : IncomingPacketInfo) (p : Nat) (player : Player) : Prop :=
  ipi.packetType = dfPacketCsMoveStart ∧ w.playerList ipi.playerId.index = some p ∧
    player.playerId = ipi.playerId

instance (w : World) (ipi : IncomingPacketInfo) (p : Nat) (player : Player) :
    Decidable (Starts w ipi p player) :=
  inferInstanceAs (Decidable (_ ∧ _ ∧ _))

/-- The `faceDirection` of the player at `p` behind a call. -/
def facing (w : World) (p : Nat) (player : Player) : Action → UInt8
  | .packet ipi locals _ =>
    if Starts w ipi p player then
      turned (readMove ipi.packetBuffer locals).direction player.faceDirection
    else player.faceDirection
  | _ => player.faceDirection

variable {g : Grid} {w w₁ w' : World} {p q : Nat} {player player' : Player} {f : Player → Player}
  {packetBuffer : CPacket} {locals : Locals} {ipi : IncomingPacketInfo} {now : Int32}
  {attack : AttackType} {msgs : List Sending}

/-! ## Calls that keep all figures -/

/-- Every player that is still there is who it was and looks where it looked. -/
def KeepsFigures (w w' : World) : Prop :=
  ∀ q player', w'.players q = some player' →
    ∃ player, w.players q = some player ∧ player'.figure = player.figure

theorem figure_untouched : Untouched Player.figure :=
  ⟨fun _ _ => rfl, fun _ _ _ => rfl, fun _ _ _ _ => rfl, fun _ _ => rfl, fun _ _ => rfl⟩

theorem KeepsFigures.refl : KeepsFigures w w := Keeps.refl

/-! ## Packets -/

/-- What a packet leaves of the figures. -/
def PacketFigures (w : World) (ipi : IncomingPacketInfo) (locals : Locals) (now : Int32)
    (w' : World) : Prop :=
  ∀ q player', w'.players q = some player' → ∃ player, w.players q = some player ∧
    player'.figure =
      { player.figure with faceDirection := facing w q player (.packet ipi locals now) }

/-- A packet that is no `CS_MOVE_START` of a current player. -/
theorem KeepsFigures.packet (h : KeepsFigures w w')
    (hnot : ∀ q player, w.players q = some player → ¬Starts w ipi q player) :
    PacketFigures w ipi locals now w' := by
  intro q player' hq
  obtain ⟨player, hp, heq⟩ := h q player' hq
  refine ⟨player, hp, ?_⟩
  rw [facing, if_neg (hnot q player hp)]
  exact heq

theorem figures_received : KeepsFigures w (received w p now) :=
  Keeps.refl.modify fun _ => rfl

/-- `PacketProcMoveStart` turns its player. -/
theorem figures_packetProcMoveStart (hp : Addressed w ipi p player)
    (htype : ipi.packetType = dfPacketCsMoveStart) :
    Outcome (PacketFigures w ipi locals now) (fun _ => True)
      (packetProcMoveStart g (received w p now) p ipi.packetBuffer locals) := by
  have hp' := @received_self w p player now hp.2.1
  rw [packetProcMoveStart_eq hp']
  generalize hmove : readMove ipi.packetBuffer locals = move
  have hstored : PacketFigures w ipi locals now (startStored (received w p now) p
      { player with lastRecvTime := now } move) := by
    intro q player' hq
    by_cases hqp : q = p
    · subst hqp
      rw [startStored_self hp'] at hq
      cases hq
      refine ⟨player, hp.2.1, ?_⟩
      rw [facing, if_pos ⟨htype, hp.1, hp.2.2⟩, hmove]
      rfl
    · rw [startStored_ne hqp, received_ne hqp] at hq
      refine ⟨player', hq, ?_⟩
      rw [facing, if_neg fun hstarts => hqp (Option.some.inj (hstarts.2.1.symm.trans hp.1))]
      rfl
  have hkeeps : ∀ {w₂}, KeepsFigures (startStored (received w p now) p
      { player with lastRecvTime := now } move) w₂ → PacketFigures w ipi locals now w₂ := by
    intro w₂ h q player₂ hq
    obtain ⟨player₁, hq₁, heq₁⟩ := h q player₂ hq
    obtain ⟨player, hq, heq⟩ := hstored q player₁ hq₁
    exact ⟨player, hq, heq₁.trans heq⟩
  apply (Keeps.refl.checkSector figure_untouched).bind
  intro w₂ h
  exact h.broadcast.weaken (fun _ h => hkeeps h) fun _ h => h

theorem figures_processPacket :
    Outcome (PacketFigures w ipi locals now) (fun _ => True)
      (processPacket g w ipi locals now) := by
  have hnot : ipi.packetType ≠ dfPacketCsMoveStart → ∀ {w'}, KeepsFigures w w' →
      PacketFigures w ipi locals now w' :=
    fun htype _ h => h.packet fun _ _ _ hstarts => htype hstarts.1
  refine outcome_packet trivial (fun hnone => ?_) (fun p player hp htype => ?_)
    (fun p player hp htype => ?_) (fun attack p player hp htype => ?_)
    (fun p player hp htype => ?_) (fun p player hp htype _ => ?_)
  · exact KeepsFigures.refl.packet fun q player hq hstarts =>
      hnone q player ⟨hstarts.2.1, hq, hstarts.2.2⟩
  · exact figures_packetProcMoveStart hp htype
  · refine (keeps_packetProcMoveStop figure_untouched (received_self hp.2.1)).weaken
      (fun _ h => hnot (by rw [htype]; decide) ?_) fun _ h => h
    exact Keeps.trans figures_received h
  · refine (keeps_packetProcAttack figure_untouched (received_self hp.2.1)).weaken
      (fun _ h => hnot ?_ ?_) fun _ h => h
    · rw [htype]
      cases attack <;> decide
    · exact Keeps.trans figures_received h
  · refine (keeps_packetProcEcho Player.figure (received_self hp.2.1)).weaken
      (fun _ h => hnot (by rw [htype]; decide) ?_) fun _ h => h
    exact Keeps.trans figures_received h
  · exact hnot htype figures_received

/-! ## Players come -/

/-- A player created by the call. -/
def Creates (w : World) (q : Nat) (figure : Figure) : Action → Prop
  | .createNewPlayer id p randX randY now registered =>
    q = p ∧ registered = true ∧ w.players p = none ∧
      figure = (newPlayer w id randX randY now).figure
  | _ => False

theorem figures_createNewPlayer {id : SessionId} {randX randY : Nat} {registered : Bool} :
    Outcome (fun w' => ∀ q player', w'.players q = some player' →
        w.players q = some player' ∨
          Creates w q player'.figure (.createNewPlayer id p randX randY now registered))
      (fun _ => True) (createNewPlayer g w id p randX randY now registered) :=
  keeps_createNewPlayer figure_untouched

/-- **Where the figures behind a call come from.** -/
theorem figure_step {a : Action} (h : step g w a = .ok w') (hq : w'.players q = some player') :
    (∃ player, w.players q = some player ∧
        player'.figure = { player.figure with faceDirection := facing w q player a }) ∨
      Creates w q player'.figure a := by
  have hkeeps : KeepsFigures w w' → (∀ player, facing w q player a = player.faceDirection) →
      ∃ player, w.players q = some player ∧
        player'.figure = { player.figure with faceDirection := facing w q player a } := by
    intro hk hface
    obtain ⟨player, hp, heq⟩ := hk q player' hq
    refine ⟨player, hp, ?_⟩
    rw [hface, heq]
    rfl
  cases a with
  | createNewPlayer id p randX randY now registered =>
    refine (figures_createNewPlayer.of_ok h q player' hq).imp_left fun hp => ?_
    exact ⟨player', hp, rfl⟩
  | packet ipi locals now => exact Or.inl (figures_processPacket.of_ok h q player' hq)
  | updateGameWorld timer =>
    exact Or.inl (hkeeps ((keeps_updateGameWorld figure_untouched).of_ok h) fun _ => rfl)
  | flushFrame => exact Or.inl (hkeeps ((keeps_flushFrame figure_untouched).of_ok h) fun _ => rfl)
  | requestDestroyPlayer id =>
    exact Or.inl (hkeeps ((keeps_requestDestroyPlayer figure_untouched).of_ok h) fun _ => rfl)

end GameLogic

end IocpServer
