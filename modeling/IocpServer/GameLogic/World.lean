import IocpServer.Struct
import IocpServer.Lib.Outcome
import IocpServer.Lib.Table
import Mathlib.Data.List.Perm.Basic

/-!
# The world of the logic thread

The state `GameLogic` works on: the `Player` objects, the tables and lists of pointers to them,
and the sectors.  An address is a number; a freed `Player` is no longer in `players`.

* `Grid.getSectorIndex` — the sector of a position; `none` is -1.
* `World.enter`, `World.leave` — a sector's set of players and the players' `currentSector`.
* `mem_sectors_enter`, `mem_sectors_leave` — who is in which set afterwards.
-/

set_option autoImplicit false

namespace IocpServer

open Lib

namespace GameLogic

/-- What a `MakePacket...` function builds. -/
inductive ScMessage where
  | createMyCharacter (id : UInt32) (direction : UInt8) (x y : UInt16) (hp : UInt8)
  | createOtherCharacter (id : UInt32) (direction : UInt8) (x y : UInt16) (hp : UInt8)
  | deleteCharacter (id : UInt32)
  | moveStart (id : UInt32) (direction : UInt8) (x y : UInt16)
  | moveStop (id : UInt32) (direction : UInt8) (x y : UInt16)
  | attack1 (id : UInt32) (direction : UInt8) (x y : UInt16)
  | attack2 (id : UInt32) (direction : UInt8) (x y : UInt16)
  | attack3 (id : UInt32) (direction : UInt8) (x y : UInt16)
  | damage (attackId damageId : UInt32) (hp : UInt8)
  | sync (id : UInt32) (x y : UInt16)
  | echo (time : UInt32)
  deriving DecidableEq

/-- A call of `SendPacket`. -/
abbrev Sending := SessionId × ScMessage

/-- `Player`. -/
structure Player where
  sessionId : SessionId
  playerId : PlayerId
  x : UInt16
  y : UInt16
  /-- The index in `sectors`; `none` is `nullptr`. -/
  currentSector : Option Nat
  direction : UInt8
  faceDirection : UInt8
  hp : UInt8
  isSynced : Bool
  isMoving : Bool
  lastRecvTime : Int32
  isDestroyRequest : Bool
  isDead : Bool

/-- What `SetInitValue` reads from the configuration, and how an `unordered_set` orders its
elements after an insertion. -/
structure Grid where
  sectorTileSize : Nat
  sectorRow : Nat
  sectorCol : Nat
  insert : Nat → List Nat → List Nat
  tileSize_pos : 0 < sectorTileSize
  insert_perm : ∀ p players, p ∉ players → (insert p players).Perm (p :: players)

structure World where
  /-- The allocated players. -/
  players : Nat → Option Player
  playerList : Nat → Option Nat
  activePlayerList : List Nat
  movingPlayerList : List Nat
  sectors : Nat → List Nat
  destroyPlayerRequestQueue : List SessionId
  uniqueCharacterId : UInt32
  aliveCheckCursor : Nat
  moveCursor : Nat
  /-- History: the calls of `SendPacket`, and of `OnClientLeave`. -/
  sent : List Sending
  left : List SessionId

inductive Fault where
  /-- `sectors[-1]`. -/
  | sectorIndex
  | nullPointer
  | useAfterFree
  | notEnabled
  deriving DecidableEq

def dfRangeMoveRight : Int := 6400
def dfRangeMoveBottom : Int := 6400
def dfErrorRange : Nat := 200
def dfNetworkPacketRecvTimeout : Int32 := 30000
def dfSpeedPlayerX : Int := 6
def dfSpeedPlayerY : Int := 4

def dfPacketMoveDirLL : UInt8 := 0
def dfPacketMoveDirLU : UInt8 := 1
def dfPacketMoveDirUU : UInt8 := 2
def dfPacketMoveDirRU : UInt8 := 3
def dfPacketMoveDirRR : UInt8 := 4
def dfPacketMoveDirRD : UInt8 := 5
def dfPacketMoveDirDD : UInt8 := 6
def dfPacketMoveDirLD : UInt8 := 7

namespace Grid

/-- The grid of `config.txt`. -/
def config (insert : Nat → List Nat → List Nat)
    (insert_perm : ∀ p players, p ∉ players → (insert p players).Perm (p :: players)) : Grid where
  sectorTileSize := 128
  sectorRow := 50
  sectorCol := 50
  insert := insert
  tileSize_pos := by decide
  insert_perm := insert_perm

/-- That grid, with sets that grow at their end. -/
def appending : Grid :=
  config (fun p players => players ++ [p]) fun p players _ => List.perm_append_singleton p players

variable (g : Grid)

/-- `GetSectorIndex`; C's division rounds towards 0. -/
def getSectorIndex (x y : Int) : Option Nat :=
  let xIndex := x.tdiv g.sectorTileSize
  let yIndex := y.tdiv g.sectorTileSize
  if x < 0 ∨ y < 0 ∨ xIndex < 0 ∨ yIndex < 0 ∨ xIndex ≥ g.sectorCol ∨ yIndex ≥ g.sectorRow then none
  else some (yIndex * g.sectorCol + xIndex).toNat

/-- The sector of a position, where the code indexes `sectors` without a check. -/
def sectorAt (x y : Int) : Except Fault Nat :=
  match g.getSectorIndex x y with
  | none => .error .sectorIndex
  | some i => .ok i

/-- `unordered_set::insert`. -/
def setInsert (p : Nat) (players : List Nat) : List Nat :=
  if p ∈ players then players else g.insert p players

/-- The pairs `(h, w)` of the double loops over -1, 0, 1. -/
def block : List (Int × Int) :=
  [(-1, -1), (-1, 0), (-1, 1), (0, -1), (0, 0), (0, 1), (1, -1), (1, 0), (1, 1)]

/-- The sectors around a position, without its own, as `SendAOI` visits them. -/
def around (x y : UInt16) : List Nat :=
  (block.filter (· ≠ (0, 0))).filterMap fun (h, w) =>
    g.getSectorIndex (x.toNat + w * g.sectorTileSize) (y.toNat + h * g.sectorTileSize)

end Grid

namespace World

def deref (w : World) (p : Nat) : Except Fault Player :=
  match w.players p with
  | none => .error .useAfterFree
  | some player => .ok player

/-- Write to the player at `p`. -/
def modify (w : World) (p : Nat) (f : Player → Player) : World :=
  { w with players := Function.update w.players p ((w.players p).map f) }

def send (w : World) (msgs : List Sending) : World := { w with sent := w.sent ++ msgs }

/-- `sectors[i].Enter(p)`. -/
def enter (g : Grid) (w : World) (p i : Nat) : World :=
  { w with sectors := Function.update w.sectors i (g.setInsert p (w.sectors i)) }.modify p
    fun player => { player with currentSector := some i }

/-- `sectors[i].Leave(p)`. -/
def leave (w : World) (p i : Nat) : World :=
  { w with sectors := Function.update w.sectors i ((w.sectors i).filter (· ≠ p)) }.modify p
    fun player => { player with currentSector := none }

/-- `if (player->currentSector) player->currentSector->Leave(player)`. -/
def leaveSector (w : World) (p : Nat) (player : Player) : World :=
  match player.currentSector with
  | none => w
  | some i => w.leave p i

/-- A player is built at `p`. -/
def alloc (w : World) (p : Nat) (player : Player) : World :=
  { w with players := Function.update w.players p (some player) }

/-- `playerList[i] = p`. -/
def store (w : World) (p i : Nat) : World :=
  { w with playerList := Function.update w.playerList i (some p) }

/-- `playerList[i] = nullptr`, and `p` is freed. -/
def free (w : World) (p i : Nat) : World :=
  { w with
    playerList := Function.update w.playerList i none
    players := Function.update w.players p none }

end World

/-! ## Lemmas -/

variable {g : Grid} {w : World} {p q i j : Nat} {f : Player → Player} {player : Player}
  {msgs : List Sending} {x y : Int}

theorem getSectorIndex_eq_some :
    g.getSectorIndex x y = some i ↔ 0 ≤ x ∧ 0 ≤ y ∧ x / g.sectorTileSize < g.sectorCol ∧
      y / g.sectorTileSize < g.sectorRow ∧
      i = (y / g.sectorTileSize * g.sectorCol + x / g.sectorTileSize).toNat := by
  have hpos : (0 : Int) < g.sectorTileSize := by exact_mod_cast g.tileSize_pos
  unfold Grid.getSectorIndex
  constructor
  · intro h
    dsimp only at h
    split at h
    · cases h
    · rename_i hin
      simp only [not_or, not_lt, ge_iff_le, not_le] at hin
      obtain ⟨hx, hy, -, -, hcol, hrow⟩ := hin
      rw [Int.tdiv_eq_ediv_of_nonneg hx] at hcol h
      rw [Int.tdiv_eq_ediv_of_nonneg hy] at hrow h
      exact ⟨hx, hy, hcol, hrow, (Option.some.inj h).symm⟩
  · rintro ⟨hx, hy, hcol, hrow, rfl⟩
    have hx' := Int.ediv_nonneg hx hpos.le
    have hy' := Int.ediv_nonneg hy hpos.le
    dsimp only
    rw [Int.tdiv_eq_ediv_of_nonneg hx, Int.tdiv_eq_ediv_of_nonneg hy, if_neg]
    simp only [not_or, not_lt, ge_iff_le, not_le]
    exact ⟨hx, hy, hx', hy', hcol, hrow⟩

theorem sectorAt_of_some (h : g.getSectorIndex x y = some i) : g.sectorAt x y = .ok i := by
  simp only [Grid.sectorAt, h]

theorem mem_setInsert {players : List Nat} : q ∈ g.setInsert p players ↔ q = p ∨ q ∈ players := by
  unfold Grid.setInsert
  split
  · rename_i hp
    constructor
    · intro h
      exact Or.inr h
    · rintro (rfl | h)
      · exact hp
      · exact h
  · rename_i hp
    rw [(g.insert_perm p players hp).mem_iff, List.mem_cons]

theorem deref_ok (h : w.players p = some player) : w.deref p = .ok player := by
  simp only [World.deref, h]

theorem deref_none (h : w.players p = none) : w.deref p = .error .useAfterFree := by
  simp only [World.deref, h]

@[simp] theorem modify_players_self : (w.modify p f).players p = (w.players p).map f := by
  simp [World.modify]

theorem modify_players_ne (h : q ≠ p) : (w.modify p f).players q = w.players q := by
  simp [World.modify, h]

@[simp] theorem modify_sectors : (w.modify p f).sectors = w.sectors := rfl
@[simp] theorem modify_playerList : (w.modify p f).playerList = w.playerList := rfl
@[simp] theorem send_players : (w.send msgs).players = w.players := rfl
@[simp] theorem send_sectors : (w.send msgs).sectors = w.sectors := rfl
@[simp] theorem send_playerList : (w.send msgs).playerList = w.playerList := rfl
@[simp] theorem enter_playerList : (w.enter g p i).playerList = w.playerList := rfl
@[simp] theorem leave_playerList : (w.leave p i).playerList = w.playerList := rfl

theorem enter_players_self : (w.enter g p i).players p =
    (w.players p).map fun player => { player with currentSector := some i } :=
  modify_players_self

theorem enter_players_ne (h : q ≠ p) : (w.enter g p i).players q = w.players q :=
  modify_players_ne h

theorem leave_players_self : (w.leave p i).players p =
    (w.players p).map fun player => { player with currentSector := none } :=
  modify_players_self

theorem leave_players_ne (h : q ≠ p) : (w.leave p i).players q = w.players q :=
  modify_players_ne h

@[simp] theorem alloc_players_self : (w.alloc p player).players p = some player := by
  simp [World.alloc]

theorem alloc_players_ne (h : q ≠ p) : (w.alloc p player).players q = w.players q := by
  simp [World.alloc, h]

@[simp] theorem alloc_sectors : (w.alloc p player).sectors = w.sectors := rfl
@[simp] theorem store_players : (w.store p i).players = w.players := rfl
@[simp] theorem store_sectors : (w.store p i).sectors = w.sectors := rfl

theorem store_playerList_eq_some :
    (w.store p i).playerList j = some q ↔ j = i ∧ p = q ∨ j ≠ i ∧ w.playerList j = some q :=
  update_some_eq_some

@[simp] theorem free_players_self : (w.free p i).players p = none := by
  simp [World.free]

theorem free_players_ne (h : q ≠ p) : (w.free p i).players q = w.players q := by
  simp [World.free, h]

@[simp] theorem free_sectors : (w.free p i).sectors = w.sectors := rfl

theorem free_playerList_eq_some :
    (w.free p i).playerList j = some q ↔ j ≠ i ∧ w.playerList j = some q :=
  update_none_eq_some

/-- Who is in which set after an `Enter`. -/
theorem mem_sectors_enter :
    q ∈ (w.enter g p i).sectors j ↔ q ∈ w.sectors j ∨ (q = p ∧ j = i) := by
  by_cases hj : j = i
  · subst hj
    simp [World.enter, mem_setInsert, or_comm]
  · simp [World.enter, hj]

/-- Who is in which set after a `Leave`. -/
theorem mem_sectors_leave :
    q ∈ (w.leave p i).sectors j ↔ q ∈ w.sectors j ∧ ¬ (q = p ∧ j = i) := by
  by_cases hj : j = i
  · subst hj
    simp [World.leave]
  · simp [World.leave, hj]

end GameLogic

end IocpServer
