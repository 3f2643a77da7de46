import IocpServer.GameLogic.AttackTarget
import IocpServer.GameLogic.PacketEffects

/-!
# The stores of the handlers

Each movement handler first writes to its player, and sends `SC_SYNC` or not; then come the sector
check, the broadcast and the hit.  `startStored` and `stopStored` are the worlds behind these
writes.

* `packetProcMoveStart_eq`, `packetProcMoveStop_eq`, `packetProcAttack_eq` — **the handlers from
  there on.**
-/

set_option autoImplicit false

namespace IocpServer

open Lib

namespace GameLogic

/-- The `faceDirection` a `CS_MOVE_START` leaves. -/
def turned (direction faceDirection : UInt8) : UInt8 :=
  if direction ≠ dfPacketMoveDirDD ∧ direction ≠ dfPacketMoveDirUU then direction
  else faceDirection

/-- What `PacketProcMoveStart` stores in the player. -/
def started (player : Player) (move : CSMoveInfo) : Player :=
  { player with
    x := (startPosition player move).1
    y := (startPosition player move).2
    direction := move.direction
    isMoving := true
    faceDirection := turned move.direction player.faceDirection }

/-- The world behind the stores of `PacketProcMoveStart`. -/
def startStored (w : World) (p : Nat) (player : Player) (move : CSMoveInfo) : World :=
  { (w.send (if tooFar player move then [syncMessage player] else [])).modify p (started · move) with
    movingPlayerList :=
      if player.isMoving then w.movingPlayerList else w.movingPlayerList ++ [p] }

/-- The world behind the stores of the other movement handlers. -/
def stopStored (w : World) (p : Nat) (player : Player) (move : CSMoveInfo) : World :=
  (w.send (if mustSync player move then [syncMessage player] else [])).modify p (stop · move)

variable {g : Grid} {w : World} {p q : Nat} {player : Player} {move : CSMoveInfo}
  {packetBuffer : CPacket} {locals : Locals} {attack : AttackType} {ipi : IncomingPacketInfo}
  {now : Int32}

@[simp] theorem startStored_self (hp : w.players p = some player) :
    (startStored w p player move).players p = some (started player move) := by
  show ((w.send _).modify p _).players p = _
  rw [modify_players_self, send_players, hp]
  rfl

@[simp] theorem startStored_ne (h : q ≠ p) :
    (startStored w p player move).players q = w.players q :=
  modify_players_ne h

@[simp] theorem stopStored_self (hp : w.players p = some player) :
    (stopStored w p player move).players p = some (stop player move) := by
  rw [stopStored, modify_players_self, send_players, hp]
  rfl

@[simp] theorem stopStored_ne (h : q ≠ p) :
    (stopStored w p player move).players q = w.players q :=
  modify_players_ne h

/-- Broadcasting from the player at `p`, as the handlers end. -/
def broadcast (g : Grid) (w : World) (p : Nat)
    (message : UInt32 → UInt8 → UInt16 → UInt16 → ScMessage) : Except Fault World := do
  let moved ← w.deref p
  let msgs ← sendAOI g w p
    (message moved.playerId.characterId moved.direction moved.x moved.y) false
  return w.send msgs

theorem packetProcMoveStart_eq (hp : w.players p = some player) :
    packetProcMoveStart g w p packetBuffer locals = (do
      let w ← checkSector g (startStored w p player (readMove packetBuffer locals)) p
        player.x player.y
      broadcast g w p .moveStart) := by
  unfold packetProcMoveStart
  rw [deref_ok hp]
  show (do
    let w ← checkSector g (if player.isMoving then _ else _) p player.x player.y
    broadcast g w p .moveStart) = _
  congr 2
  rw [send_if, startStored]
  split <;> rfl

theorem packetProcMoveStop_eq (hp : w.players p = some player) :
    packetProcMoveStop g w p packetBuffer locals = (do
      let w ← checkSector g (stopStored w p player (readMove packetBuffer locals)) p
        player.x player.y
      broadcast g w p .moveStop) := by
  unfold packetProcMoveStop
  rw [deref_ok hp, stopStored, ← send_if]
  rfl

theorem packetProcAttack_eq (hp : w.players p = some player) :
    packetProcAttack attack g w p packetBuffer locals = (do
      let w ← broadcast g (stopStored w p player (readMove packetBuffer locals)) p attack.message
      checkDamagedPlayer g w p attack) := by
  unfold packetProcAttack broadcast
  rw [deref_ok hp, stopStored, ← send_if]
  simp only [bind_assoc, pure_bind]
  rfl

theorem packetProcEcho_eq (hp : w.players p = some player) :
    packetProcEcho w p packetBuffer locals =
      .ok (w.send [(player.sessionId, .echo (packetBuffer.extractUInt32 locals.time).1)]) := by
  unfold packetProcEcho
  rw [deref_ok hp]
  rfl

/-- A broadcast only sends. -/
theorem outcome_broadcast {message : UInt32 → UInt8 → UInt16 → UInt16 → ScMessage} :
    Outcome (fun w' => ∃ msgs, w' = w.send msgs) (fun _ => True) (broadcast g w p message) := by
  unfold broadcast
  apply outcome_any.bind
  intro moved _
  apply outcome_any.bind
  intro msgs _
  exact ⟨msgs, rfl⟩

end GameLogic

end IocpServer
