import IocpServer.GameLogic.Handlers

/-!
# The logic thread's loop

`CreateNewPlayer`, `UpdateGameWorld`, `FlushFrame`, and `RequestDestroyPlayer`, which the destroy
thread calls.

* `step` — the calls the loop and the destroy thread make, one after the other.
* `tickPosition_bounds` — where `UPDATE_MOVE_CHARACTER` can put a player.
-/

set_option autoImplicit false

namespace IocpServer

open Lib

namespace GameLogic

/-! ## Players come -/

/-- The player `CreateNewPlayer` builds from two values of `rand()`. -/
def newPlayer (w : World) (id : SessionId) (randX randY : Nat) (now : Int32) : Player :=
  let x := UInt16.ofNat (randX % 6300 + 1)
  let direction := if x ≥ 3150 then dfPacketMoveDirLL else dfPacketMoveDirRR
  { sessionId := id
    playerId := ⟨id.index, w.uniqueCharacterId + 1⟩
    x := x
    y := UInt16.ofNat (randY % 6300 + 1)
    currentSector := none
    direction := direction
    faceDirection := direction
    hp := 100
    isSynced := false
    isMoving := false
    lastRecvTime := now
    isDestroyRequest := false
    isDead := false }

/-- `CreateNewPlayer`, at the address `p` the allocator returns; `registered` is what
`RegisterSessionPlayer` returns. -/
def createNewPlayer (g : Grid) (w : World) (id : SessionId) (p randX randY : Nat) (now : Int32)
    (registered : Bool) : Except Fault World :=
  match w.players p with
  | some _ => throw .notEnabled
  | none => do
    let player := newPlayer w id randX randY now
    let w := { w with uniqueCharacterId := w.uniqueCharacterId + 1 }
    if !registered then return w
    else
      let index ← g.sectorAt player.x.toNat player.y.toNat
      let w := (w.alloc p player).enter g p index
      let w := w.store p player.playerId.index
      let w := { w with activePlayerList := w.activePlayerList ++ [p] }
      let w := w.send [(id, .createMyCharacter player.playerId.characterId player.direction
        player.x player.y player.hp)]
      let msgs ← makeSectorSpawnPackets g w p
      return w.send msgs

/-! ## The tick -/

def chunkSize : Nat := 3000

/-- `UpdateGameWorld` looks at one active player. -/
def checkAlive (timer : Int32) (w : World) (p : Nat) : Except Fault World := do
  let player ← w.deref p
  if (timer > player.lastRecvTime ∧ timer > player.lastRecvTime + dfNetworkPacketRecvTimeout) ∨
      player.hp = 0 then
    return w.modify p fun player => { player with isDead := true, isMoving := false }
  else return w

/-- Where the player's direction leads in one tick; `none` for a direction that is none. -/
def nextPosition (player : Player) : Option (Int × Int) :=
  let x : Int := player.x.toNat
  let y : Int := player.y.toNat
  if player.direction = dfPacketMoveDirLL then some (x - dfSpeedPlayerX, y)
  else if player.direction = dfPacketMoveDirLU then some (x - dfSpeedPlayerX, y - dfSpeedPlayerY)
  else if player.direction = dfPacketMoveDirUU then some (x, y - dfSpeedPlayerY)
  else if player.direction = dfPacketMoveDirRU then some (x + dfSpeedPlayerX, y - dfSpeedPlayerY)
  else if player.direction = dfPacketMoveDirRR then some (x + dfSpeedPlayerX, y)
  else if player.direction = dfPacketMoveDirRD then some (x + dfSpeedPlayerX, y + dfSpeedPlayerY)
  else if player.direction = dfPacketMoveDirDD then some (x, y + dfSpeedPlayerY)
  else if player.direction = dfPacketMoveDirLD then some (x - dfSpeedPlayerX, y + dfSpeedPlayerY)
  else none

/-- `UPDATE_MOVE_CHARACTER`: the position behind the tick. -/
def tickPosition (player : Player) : UInt16 × UInt16 :=
  match nextPosition player with
  | none => (player.x, player.y)
  | some (x, y) =>
    if 0 ≤ x ∧ 0 ≤ y ∧ x < dfRangeMoveRight ∧ y < dfRangeMoveBottom then
      (UInt16.ofNat x.toNat, UInt16.ofNat y.toNat)
    else (player.x, player.y)

/-- `UpdateGameWorld` moves one player. -/
def movePlayer (g : Grid) (w : World) (p : Nat) : Except Fault World := do
  let player ← w.deref p
  let w := w.modify p fun player => { player with
    x := (tickPosition player).1
    y := (tickPosition player).2 }
  checkSector g w p player.x player.y

/-- One pass of the second loop of `UpdateGameWorld`: the world and `processed`. -/
def moveEntry (g : Grid) (totalMove : Nat) (s : World × Nat) (i : Nat) :
    Except Fault (World × Nat) := do
  let (w, processed) := s
  if chunkSize ≤ processed then return s
  else
    let p := w.movingPlayerList.getD ((w.moveCursor + i) % totalMove) 0
    let player ← w.deref p
    if player.isDead || !player.isMoving then return s
    else
      let w ← movePlayer g w p
      return (w, processed + 1)

/-- `UpdateGameWorld`. -/
def updateGameWorld (g : Grid) (w : World) (timer : Int32) : Except Fault World := do
  let totalPlayer := w.activePlayerList.length
  let totalMove := w.movingPlayerList.length
  let checked := min chunkSize totalPlayer
  let w ← (List.range checked).foldlM (fun w i =>
    checkAlive timer w
      (w.activePlayerList.getD ((w.aliveCheckCursor + i) % totalPlayer) 0)) w
  let w := if 0 < totalPlayer then
    { w with aliveCheckCursor := (w.aliveCheckCursor + checked) % totalPlayer } else w
  let (w, processed) ← (List.range totalMove).foldlM (moveEntry g totalMove) (w, 0)
  return if 0 < totalMove then { w with moveCursor := (w.moveCursor + processed) % totalMove } else w

/-! ## Players go -/

/-- `RequestDestroyPlayer`. -/
def requestDestroyPlayer (w : World) (id : SessionId) : Except Fault World :=
  match w.playerList id.index with
  | none => return w
  | some p => do
    let _ ← w.deref p
    let w := w.modify p fun player => { player with isDead := true, isDestroyRequest := true }
    return { w with destroyPlayerRequestQueue := w.destroyPlayerRequestQueue ++ [id] }

/-- `FlushFrame` asks for the release of the dead. -/
def scanDead (w : World) (p : Nat) : Except Fault World := do
  let player ← w.deref p
  if player.isDead && !player.isDestroyRequest then
    let w := w.modify p fun player => { player with isDestroyRequest := true }
    return { w with left := w.left ++ [player.sessionId] }
  else return w

/-- `FlushFrame` purges `movingPlayerList`. -/
def purgeMoving (w : World) : Except Fault World := do
  let moving ← w.movingPlayerList.mapM fun p => do
    let player ← w.deref p
    return (p, player.isMoving && !player.isDead)
  return { w with movingPlayerList := (moving.filter (·.2)).map (·.1) }

/-- `FlushFrame` destroys the player of one request. -/
def destroyPlayer (g : Grid) (w : World) (id : SessionId) : Except Fault World :=
  match w.playerList id.index with
  | none => throw .nullPointer
  | some p => do
    let player ← w.deref p
    let msgs ← sendAOI g w p (.deleteCharacter player.playerId.characterId) false
    let w := (w.send msgs).leaveSector p player
    let w := { w with activePlayerList := w.activePlayerList.filter (· ≠ p) }
    return w.free p player.playerId.index

/-- `FlushFrame`. -/
def flushFrame (g : Grid) (w : World) : Except Fault World := do
  let w ← w.activePlayerList.foldlM scanDead w
  let w ← purgeMoving w
  let w ← w.destroyPlayerRequestQueue.foldlM (destroyPlayer g) w
  return { w with destroyPlayerRequestQueue := [] }

/-! ## Steps -/

inductive Action where
  | createNewPlayer (id : SessionId) (p randX randY : Nat) (now : Int32) (registered : Bool)
  | packet (ipi : IncomingPacketInfo) (locals : Locals) (now : Int32)
  | updateGameWorld (timer : Int32)
  | flushFrame
  /-- The destroy thread. -/
  | requestDestroyPlayer (id : SessionId)

def step (g : Grid) (w : World) : Action → Except Fault World
  | .createNewPlayer id p randX randY now registered =>
    createNewPlayer g w id p randX randY now registered
  | .packet ipi locals now => processPacket g w ipi locals now
  | .updateGameWorld timer => updateGameWorld g w timer
  | .flushFrame => flushFrame g w
  | .requestDestroyPlayer id => requestDestroyPlayer w id

/-- A world without players. -/
def init (uniqueCharacterId : UInt32) : World where
  players := fun _ => none
  playerList := fun _ => none
  activePlayerList := []
  movingPlayerList := []
  sectors := fun _ => []
  destroyPlayerRequestQueue := []
  uniqueCharacterId := uniqueCharacterId
  aliveCheckCursor := 0
  moveCursor := 0
  sent := []
  left := []

/-! ## Lemmas -/

/-- The tick leaves a player where it is or puts it inside the map. -/
theorem tickPosition_bounds (player : Player) :
    tickPosition player = (player.x, player.y) ∨
      (tickPosition player).1.toNat < 6400 ∧ (tickPosition player).2.toNat < 6400 := by
  unfold tickPosition
  split
  · exact Or.inl rfl
  · rename_i x y _
    split
    · rename_i h
      obtain ⟨hx, hy, hright, hbottom⟩ := h
      unfold dfRangeMoveRight at hright
      unfold dfRangeMoveBottom at hbottom
      right
      simp only [UInt16.toNat_ofNat']
      omega
    · exact Or.inl rfl

/-- A new player stands inside the map. -/
theorem newPlayer_bounds (w : World) (id : SessionId) (randX randY : Nat) (now : Int32) :
    (newPlayer w id randX randY now).x.toNat < 6400 ∧
      (newPlayer w id randX randY now).y.toNat < 6400 := by
  simp only [newPlayer, UInt16.toNat_ofNat']
  omega

end GameLogic

end IocpServer
