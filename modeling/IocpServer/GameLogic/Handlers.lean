import IocpServer.GameLogic.Broadcast

/-!
# The packet handlers

`PacketProcMoveStart`, `PacketProcMoveStop`, `PacketProcAttack1` to `3` with
`CheckDamagedPlayer`, `PacketProcEcho`, and the part of `ProcessPackets` that chooses between them.

The three attack handlers differ in their message and in the rectangle and damage of
`CheckDamagedPlayer`: they are `packetProcAttack` at the three values of `AttackType`.

* `startPosition`, `stopPosition` — the position a handler stores for the packet's coordinates.
-/

set_option autoImplicit false

namespace IocpServer

open Lib

namespace GameLogic

/-- What the stack left in the local variables of a handler. -/
structure Locals where
  direction : UInt8
  x : UInt16
  y : UInt16
  time : UInt32

structure CSMoveInfo where
  direction : UInt8
  x : UInt16
  y : UInt16

/-- `*packetBuffer >> direction >> x >> y`. -/
def readMove (packetBuffer : CPacket) (locals : Locals) : CSMoveInfo :=
  let direction := packetBuffer.extractUInt8 locals.direction
  let x := direction.2.extractUInt16 locals.x
  let y := x.2.extractUInt16 locals.y
  ⟨direction.1, x.1, y.1⟩

/-- The packet's position is further than `dfERROR_RANGE` from the player's. -/
def tooFar (player : Player) (move : CSMoveInfo) : Bool :=
  dfErrorRange < ((player.x.toNat : Int) - move.x.toNat).natAbs ||
    dfErrorRange < ((player.y.toNat : Int) - move.y.toNat).natAbs

def syncMessage (player : Player) : Sending :=
  (player.sessionId, .sync player.playerId.characterId player.x player.y)

/-- The position `PacketProcMoveStart` stores. -/
def startPosition (player : Player) (move : CSMoveInfo) : UInt16 × UInt16 :=
  if tooFar player move then (player.x, player.y) else (move.x, move.y)

/-- `PacketProcMoveStart`.  It asks for no `isSynced` and sets none. -/
def packetProcMoveStart (g : Grid) (w : World) (p : Nat) (packetBuffer : CPacket)
    (locals : Locals) : Except Fault World := do
  let player ← w.deref p
  let move := readMove packetBuffer locals
  let w := if tooFar player move then w.send [syncMessage player] else w
  let w := w.modify p fun player => { player with
    x := (startPosition player move).1
    y := (startPosition player move).2
    direction := move.direction
    isMoving := true
    faceDirection :=
      if move.direction ≠ dfPacketMoveDirDD ∧ move.direction ≠ dfPacketMoveDirUU then
        move.direction
      else player.faceDirection }
  let w :=
    if player.isMoving then w else { w with movingPlayerList := w.movingPlayerList ++ [p] }
  let w ← checkSector g w p player.x player.y
  let moved ← w.deref p
  let msgs ← sendAOI g w p
    (.moveStart moved.playerId.characterId moved.direction moved.x moved.y) false
  return w.send msgs

/-- `player->isSynced == false` and the position is too far away. -/
def mustSync (player : Player) (move : CSMoveInfo) : Bool :=
  !player.isSynced && tooFar player move

/-- The position the other handlers store. -/
def stopPosition (player : Player) (move : CSMoveInfo) : UInt16 × UInt16 :=
  if mustSync player move then (player.x, player.y) else (move.x, move.y)

/-- What `PacketProcMoveStop` and the attack handlers store in the player. -/
def stop (player : Player) (move : CSMoveInfo) : Player :=
  { player with
    isSynced := player.isSynced || mustSync player move
    x := (stopPosition player move).1
    y := (stopPosition player move).2
    direction := move.direction
    isMoving := false }

/-- `PacketProcMoveStop`. -/
def packetProcMoveStop (g : Grid) (w : World) (p : Nat) (packetBuffer : CPacket)
    (locals : Locals) : Except Fault World := do
  let player ← w.deref p
  let move := readMove packetBuffer locals
  let w := if mustSync player move then w.send [syncMessage player] else w
  let w := w.modify p fun player => stop player move
  let w ← checkSector g w p player.x player.y
  let moved ← w.deref p
  let msgs ← sendAOI g w p
    (.moveStop moved.playerId.characterId moved.direction moved.x moved.y) false
  return w.send msgs

inductive AttackType where
  | attack1
  | attack2
  | attack3

namespace AttackType

def rangeX : AttackType → Int
  | attack1 => 80
  | attack2 => 90
  | attack3 => 100

def rangeY : AttackType → Int
  | attack1 => 10
  | attack2 => 10
  | attack3 => 20

def damage : AttackType → UInt8
  | attack1 => 1
  | attack2 => 2
  | attack3 => 3

def message : AttackType → UInt32 → UInt8 → UInt16 → UInt16 → ScMessage
  | attack1 => .attack1
  | attack2 => .attack2
  | attack3 => .attack3

end AttackType

/-- The side `CheckDamagedPlayer` looks to; `none` where it returns at once. -/
def isLeft (faceDirection : UInt8) : Option Bool :=
  if faceDirection = dfPacketMoveDirLL ∨ faceDirection = dfPacketMoveDirLU ∨
      faceDirection = dfPacketMoveDirLD then some true
  else if faceDirection = dfPacketMoveDirRU ∨ faceDirection = dfPacketMoveDirRR ∨
      faceDirection = dfPacketMoveDirRD then some false
  else none

/-- `SEARCH_ATTACK_RANGE`, and the test of a position against it. -/
def inAttackRange (attack : AttackType) (left : Bool) (player other : Player) : Bool :=
  let xMin : Int := if left then player.x.toNat - attack.rangeX else player.x.toNat
  let xMax : Int := if left then player.x.toNat else player.x.toNat + attack.rangeX
  let yMax : Int := player.y.toNat + attack.rangeY
  let yMin : Int := player.y.toNat - attack.rangeY
  !(other.x.toNat < xMin || other.x.toNat > xMax || other.y.toNat < yMin || other.y.toNat > yMax)

/-- The first player of a list that the attack hits. -/
def findTarget (w : World) (attack : AttackType) (left : Bool) (player : Player) :
    List Nat → Except Fault (Option Nat)
  | [] => return none
  | q :: qs => do
    let other ← w.deref q
    if inAttackRange attack left player other then return some q
    else findTarget w attack left player qs

/-- The hit on `q`, and the `SC_DAMAGE` around it. -/
def strike (g : Grid) (w : World) (attack : AttackType) (player : Player) (q : Nat) :
    Except Fault World := do
  let w := w.modify q fun other =>
    { other with hp := if other.hp < attack.damage then 0 else other.hp - attack.damage }
  let other ← w.deref q
  let msgs ← sendAOI g w q
    (.damage player.playerId.characterId other.playerId.characterId other.hp) true
  return w.send msgs

/-- The sector in front of the player, where `CheckDamagedPlayer` looks when nobody in the
player's own is hit.  Here the player itself is not skipped. -/
def strikeAhead (g : Grid) (w : World) (attack : AttackType) (left : Bool) (player : Player) :
    Except Fault World :=
  let ahead : Int := if left then -g.sectorTileSize else g.sectorTileSize
  match g.getSectorIndex (player.x.toNat + ahead) player.y.toNat with
  | none => return w
  | some index => do
    match ← findTarget w attack left player (w.sectors index) with
    | none => return w
    | some q => strike g w attack player q

/-- `CheckDamagedPlayer`. -/
def checkDamagedPlayer (g : Grid) (w : World) (p : Nat) (attack : AttackType) :
    Except Fault World := do
  let player ← w.deref p
  match isLeft player.faceDirection with
  | none => return w
  | some left => do
    let i ← player.sector
    match ← findTarget w attack left player ((w.sectors i).filter (· ≠ p)) with
    | some q => strike g w attack player q
    | none => strikeAhead g w attack left player

/-- `PacketProcAttack1`, `2` and `3`. -/
def packetProcAttack (attack : AttackType) (g : Grid) (w : World) (p : Nat)
    (packetBuffer : CPacket) (locals : Locals) : Except Fault World := do
  let player ← w.deref p
  let move := readMove packetBuffer locals
  let w := if mustSync player move then w.send [syncMessage player] else w
  -- no `SectorUpdate` here
  let w := w.modify p fun player => stop player move
  let moved ← w.deref p
  let msgs ← sendAOI g w p
    (attack.message moved.playerId.characterId moved.direction moved.x moved.y) false
  checkDamagedPlayer g (w.send msgs) p attack

def packetProcAttack1 := packetProcAttack .attack1
def packetProcAttack2 := packetProcAttack .attack2
def packetProcAttack3 := packetProcAttack .attack3

/-- `PacketProcEcho`. -/
def packetProcEcho (w : World) (p : Nat) (packetBuffer : CPacket) (locals : Locals) :
    Except Fault World := do
  let player ← w.deref p
  let time := (packetBuffer.extractUInt32 locals.time).1
  return w.send [(player.sessionId, .echo time)]

def dfPacketCsMoveStart : UInt8 := 10
def dfPacketCsMoveStop : UInt8 := 12
def dfPacketCsAttack1 : UInt8 := 20
def dfPacketCsAttack2 : UInt8 := 22
def dfPacketCsAttack3 : UInt8 := 24
def dfPacketCsEcho : UInt8 := 252

/-- The `switch` of `ProcessPackets`. -/
def dispatch (g : Grid) (w : World) (p : Nat) (packetType : UInt8) (packetBuffer : CPacket)
    (locals : Locals) : Except Fault World :=
  if packetType = dfPacketCsMoveStart then packetProcMoveStart g w p packetBuffer locals
  else if packetType = dfPacketCsMoveStop then packetProcMoveStop g w p packetBuffer locals
  else if packetType = dfPacketCsAttack1 then packetProcAttack1 g w p packetBuffer locals
  else if packetType = dfPacketCsAttack2 then packetProcAttack2 g w p packetBuffer locals
  else if packetType = dfPacketCsAttack3 then packetProcAttack3 g w p packetBuffer locals
  else if packetType = dfPacketCsEcho then packetProcEcho w p packetBuffer locals
  else return w

/-- `ProcessPackets` for one packet.  The second comparison of the character ids repeats part of
the first. -/
def processPacket (g : Grid) (w : World) (ipi : IncomingPacketInfo) (locals : Locals)
    (now : Int32) : Except Fault World :=
  match w.playerList ipi.playerId.index with
  | none => return w
  | some p => do
    let player ← w.deref p
    if player.playerId ≠ ipi.playerId then return w
    else
      let w := w.modify p fun player => { player with lastRecvTime := now }
      dispatch g w p ipi.packetType ipi.packetBuffer locals

end GameLogic

end IocpServer
