import IocpServer.GameLogic.World

/-!
# Sending to the sectors around a player

`SendAOI`, `SendAOIToSelf`, `MakeSectorSpawnPackets` and `SectorUpdate`.  The first three only
read the world and return what they send.

* `sectorSets` — `prevSet` and `currSet` when the double loop of `SectorUpdate` ends.
* `outcome_sectorUpdate` — `SectorUpdate` leaves the sector of the previous position, enters the
  one of the current position and sends; it indexes `sectors` with -1 only if one of the two
  positions is outside the grid.
* `outcome_checkSector`, `outcome_checkSector_moved` — the same for the test in front of it.
-/

set_option autoImplicit false

namespace IocpServer

open Lib

namespace GameLogic

/-- `player->currentSector`, where the code follows the pointer. -/
def Player.sector (player : Player) : Except Fault Nat :=
  match player.currentSector with
  | none => .error .nullPointer
  | some i => .ok i

/-- `SendAOI`: the same message to everybody in the sector of `p` and in those around it. -/
def sendAOI (g : Grid) (w : World) (p : Nat) (msg : ScMessage) (sendMe : Bool) :
    Except Fault (List Sending) := do
  let player ← w.deref p
  let i ← player.sector
  -- it is the sender's `isDead` that the loops test
  let here := (w.sectors i).filter fun q => !(player.isDead || (!sendMe && q = p))
  let around := ((g.around player.x player.y).flatMap w.sectors).filter fun _ => !player.isDead
  (here ++ around).mapM fun q => do
    let other ← w.deref q
    return (other.sessionId, msg)

/-- What `SendAOIToSelf` tells `p` about `q`. -/
def introduce (w : World) (player : Player) (q : Nat) : Except Fault (List Sending) := do
  let other ← w.deref q
  let id := other.playerId.characterId
  if other.isDead then return []
  else
    return [(player.sessionId,
        .createOtherCharacter id other.direction other.x other.y other.hp)] ++
      if other.isMoving then
        [(player.sessionId, .moveStart id other.direction other.x other.y)]
      else []

/-- `SendAOIToSelf`. -/
def sendAOIToSelf (g : Grid) (w : World) (p : Nat) : Except Fault (List Sending) := do
  let player ← w.deref p
  let i ← player.sector
  let here := (w.sectors i).filter (· ≠ p)
  let around := (g.around player.x player.y).flatMap w.sectors
  let msgs ← (here ++ around).mapM (introduce w player)
  return msgs.flatten

/-- `MakeSectorSpawnPackets`. -/
def makeSectorSpawnPackets (g : Grid) (w : World) (p : Nat) : Except Fault (List Sending) := do
  let player ← w.deref p
  let msgs ← sendAOI g w p (.createOtherCharacter player.playerId.characterId player.direction
    player.x player.y player.hp) false
  let own ← sendAOIToSelf g w p
  return msgs ++ own

/-- One of the two symmetric halves of a pass: the sector `i`, if any, leaves `other` when it is
there and joins `mine` otherwise. -/
def toggle (g : Grid) (i : Option Nat) (mine other : List Nat) : List Nat × List Nat :=
  match i with
  | none => (mine, other)
  | some i => if i ∈ other then (mine, other.filter (· ≠ i)) else (g.setInsert i mine, other)

/-- `prevSet` and `currSet` of `SectorUpdate`. -/
def sectorSets (g : Grid) (prevX prevY x y : UInt16) : List Nat × List Nat :=
  Grid.block.foldl (fun (prevSet, currSet) (h, w) =>
    let hv := h * g.sectorTileSize
    let wv := w * g.sectorTileSize
    let (prevSet, currSet) :=
      toggle g (g.getSectorIndex (prevX.toNat + wv) (prevY.toNat + hv)) prevSet currSet
    let (currSet, prevSet) :=
      toggle g (g.getSectorIndex (x.toNat + wv) (y.toNat + hv)) currSet prevSet
    (prevSet, currSet)) ([], [])

/-- What `SectorUpdate` sends when `player` comes into the view of the player at `q`. -/
def appear (w : World) (player : Player) (q : Nat) : Except Fault (List Sending) := do
  let other ← w.deref q
  let id := player.playerId.characterId
  let otherId := other.playerId.characterId
  if other.isDead then return []
  else
    return [(player.sessionId,
        .createOtherCharacter otherId other.direction other.x other.y other.hp),
      (other.sessionId,
        .createOtherCharacter id player.direction player.x player.y player.hp)] ++
      (if player.isMoving then
        [(other.sessionId, .moveStart id player.direction player.x player.y)] else []) ++
      if other.isMoving then
        [(player.sessionId, .moveStart otherId other.direction other.x other.y)] else []

/-- What it sends when `player` goes out of the view of the player at `q`. -/
def disappear (w : World) (player : Player) (q : Nat) : Except Fault (List Sending) := do
  let other ← w.deref q
  if other.isDead then return []
  else
    return [(player.sessionId, .deleteCharacter other.playerId.characterId),
      (other.sessionId, .deleteCharacter player.playerId.characterId)]

/-- The messages of `SectorUpdate`. -/
def sectorMessages (g : Grid) (w : World) (p : Nat) (prevX prevY : UInt16) :
    Except Fault (List Sending) := do
  let player ← w.deref p
  let sets := sectorSets g prevX prevY player.x player.y
  let created ← (sets.2.flatMap w.sectors).mapM (appear w player)
  let deleted ← (sets.1.flatMap w.sectors).mapM (disappear w player)
  return created.flatten ++ deleted.flatten

/-- `SectorUpdate`. -/
def sectorUpdate (g : Grid) (w : World) (p : Nat) (prevX prevY : UInt16) : Except Fault World := do
  let player ← w.deref p
  let prevIndex ← g.sectorAt prevX.toNat prevY.toNat
  let currIndex ← g.sectorAt player.x.toNat player.y.toNat
  let w := (w.leave p prevIndex).enter g p currIndex
  let msgs ← sectorMessages g w p prevX prevY
  return w.send msgs

/-- The handlers' and the tick's
`if (player->currentSector != &sectors[index]) SectorUpdate(player, prevX, prevY)`. -/
def checkSector (g : Grid) (w : World) (p : Nat) (prevX prevY : UInt16) : Except Fault World := do
  let player ← w.deref p
  let index ← g.sectorAt player.x.toNat player.y.toNat
  if player.currentSector ≠ some index then sectorUpdate g w p prevX prevY else return w

/-! ## Lemmas -/

variable {g : Grid} {w : World} {p i j : Nat} {player : Player} {msg : ScMessage} {sendMe : Bool}
  {prevX prevY : UInt16}

/-- Following pointers never indexes `sectors`. -/
theorem outcome_deref : Outcome (fun _ => True) (· ≠ .sectorIndex) (w.deref p) := by
  unfold World.deref
  split <;> simp

theorem outcome_sector : Outcome (fun _ => True) (· ≠ .sectorIndex) player.sector := by
  unfold Player.sector
  split <;> simp

theorem outcome_sendAOI :
    Outcome (fun _ => True) (· ≠ .sectorIndex) (sendAOI g w p msg sendMe) := by
  apply outcome_deref.bind
  intro player _
  apply outcome_sector.bind
  intro i _
  apply Outcome.mapM
  intro q _
  apply outcome_deref.bind
  intro other _
  trivial

theorem outcome_introduce {q : Nat} :
    Outcome (fun _ => True) (· ≠ .sectorIndex) (introduce w player q) := by
  apply outcome_deref.bind
  intro other _
  apply Outcome.ite
  · intro _
    trivial
  · intro _
    trivial

theorem outcome_sendAOIToSelf :
    Outcome (fun _ => True) (· ≠ .sectorIndex) (sendAOIToSelf g w p) := by
  apply outcome_deref.bind
  intro player _
  apply outcome_sector.bind
  intro i _
  apply (Outcome.mapM fun q _ => outcome_introduce).bind
  intro msgs _
  trivial

theorem outcome_makeSectorSpawnPackets :
    Outcome (fun _ => True) (· ≠ .sectorIndex) (makeSectorSpawnPackets g w p) := by
  apply outcome_deref.bind
  intro player _
  apply outcome_sendAOI.bind
  intro msgs _
  apply outcome_sendAOIToSelf.bind
  intro own _
  trivial

theorem outcome_appear {q : Nat} :
    Outcome (fun _ => True) (· ≠ .sectorIndex) (appear w player q) := by
  apply outcome_deref.bind
  intro other _
  apply Outcome.ite
  · intro _
    trivial
  · intro _
    trivial

theorem outcome_disappear {q : Nat} :
    Outcome (fun _ => True) (· ≠ .sectorIndex) (disappear w player q) := by
  apply outcome_deref.bind
  intro other _
  apply Outcome.ite
  · intro _
    trivial
  · intro _
    trivial

theorem outcome_sectorMessages :
    Outcome (fun _ => True) (· ≠ .sectorIndex) (sectorMessages g w p prevX prevY) := by
  apply outcome_deref.bind
  intro player _
  apply (Outcome.mapM fun q _ => outcome_appear).bind
  intro created _
  apply (Outcome.mapM fun q _ => outcome_disappear).bind
  intro deleted _
  trivial

/-- `SectorUpdate` moves `p` from the set of its previous position to that of its position. -/
def Updated (g : Grid) (w : World) (p : Nat) (prevX prevY : UInt16) (player : Player) (w' : World) :
    Prop :=
  ∃ prev curr msgs, g.getSectorIndex prevX.toNat prevY.toNat = some prev ∧
    g.getSectorIndex player.x.toNat player.y.toNat = some curr ∧
    w' = ((w.leave p prev).enter g p curr).send msgs

/-- A fault that is `sectors[-1]` only if one of the positions is outside the grid. -/
def Outside (g : Grid) (prevX prevY x y : UInt16) (e : Fault) : Prop :=
  e = .sectorIndex → g.getSectorIndex prevX.toNat prevY.toNat = none ∨
    g.getSectorIndex x.toNat y.toNat = none

theorem outside_of_ne {e : Fault} {x y : UInt16} (h : e ≠ .sectorIndex) :
    Outside g prevX prevY x y e := fun he => absurd he h

theorem outcome_sectorAt {x y : Int} :
    Outcome (fun i => g.getSectorIndex x y = some i)
      (fun e => e = .sectorIndex → g.getSectorIndex x y = none) (g.sectorAt x y) := by
  unfold Grid.sectorAt
  split
  · rename_i h
    intro _
    exact h
  · rename_i h
    exact h

/-- **`SectorUpdate`.** -/
theorem outcome_sectorUpdate (hp : w.players p = some player) :
    Outcome (Updated g w p prevX prevY player) (Outside g prevX prevY player.x player.y)
      (sectorUpdate g w p prevX prevY) := by
  unfold sectorUpdate
  rw [deref_ok hp]
  have hprev := @outcome_sectorAt g prevX.toNat prevY.toNat
  have hcurr := @outcome_sectorAt g player.x.toNat player.y.toNat
  apply (hprev.weaken (fun _ h => h) fun e he h => Or.inl (he h)).bind
  intro prev hprev
  apply (hcurr.weaken (fun _ h => h) fun e he h => Or.inr (he h)).bind
  intro curr hcurr
  apply (outcome_sectorMessages.weaken (fun _ h => h) fun e he => outside_of_ne he).bind
  intro msgs _
  exact ⟨prev, curr, msgs, hprev, hcurr, rfl⟩

/-- **The test in front of `SectorUpdate`.**  Nothing happens to a player in the sector of its
position. -/
theorem outcome_checkSector (hp : w.players p = some player) :
    Outcome (fun w' =>
        (∃ curr, g.getSectorIndex player.x.toNat player.y.toNat = some curr ∧
          player.currentSector = some curr ∧ w' = w) ∨
        Updated g w p prevX prevY player w')
      (Outside g prevX prevY player.x player.y) (checkSector g w p prevX prevY) := by
  unfold checkSector
  rw [deref_ok hp]
  have hcurr := @outcome_sectorAt g player.x.toNat player.y.toNat
  apply (hcurr.weaken (fun _ h => h) fun e he h => Or.inr (he h)).bind
  intro curr hcurr
  apply Outcome.ite
  · intro _
    exact (outcome_sectorUpdate hp).weaken (fun _ h => Or.inr h) fun _ h => h
  · intro hsame
    rw [not_not] at hsame
    exact Or.inl ⟨curr, hcurr, hsame, rfl⟩

/-- What holds with the player in its old sector and in any new one holds behind the test. -/
theorem outcome_checkSector_moved {P : World → Prop} (hstay : P w)
    (hmove : ∀ prev curr msgs, P (((w.leave p prev).enter g p curr).send msgs)) :
    Outcome P (fun _ => True) (checkSector g w p prevX prevY) := by
  cases hp : w.players p with
  | none =>
    unfold checkSector
    rw [deref_none hp]
    trivial
  | some player =>
    refine (outcome_checkSector hp).weaken ?_ fun _ _ => trivial
    rintro w' (⟨curr, -, -, rfl⟩ | ⟨prev, curr, msgs, -, -, rfl⟩)
    · exact hstay
    · exact hmove prev curr msgs

end GameLogic

end IocpServer
