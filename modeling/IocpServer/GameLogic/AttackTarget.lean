import IocpServer.GameLogic.Calls
import Mathlib.Data.List.Basic

/-!
# Whom an attack hits

`CheckDamagedPlayer` walks through the set of the attacker's `currentSector` without the attacker,
then through the set of the sector in front, and hits the first player in the attack's rectangle.

* `target` — that player.
* `outcome_checkDamagedPlayer` — **`CheckDamagedPlayer` takes the attack's damage from the target's
  `hp` and changes no other player.**
-/

set_option autoImplicit false

namespace IocpServer

open Lib

namespace GameLogic

/-- The player at `q` stands in the rectangle of the attack. -/
def reaches (w : World) (attack : AttackType) (left : Bool) (player : Player) (q : Nat) : Bool :=
  match w.players q with
  | none => false
  | some other => inAttackRange attack left player other

/-- One tile to the faced side. -/
def Grid.ahead (g : Grid) (left : Bool) : Int :=
  if left then -(g.sectorTileSize : Int) else g.sectorTileSize

/-- The sector in front of the player. -/
def frontSector (g : Grid) (left : Bool) (player : Player) : Option Nat :=
  g.getSectorIndex (player.x.toNat + g.ahead left) player.y.toNat

/-- The players in the sector in front. -/
def playersAhead (g : Grid) (w : World) (left : Bool) (player : Player) : List Nat :=
  match frontSector g left player with
  | none => []
  | some index => w.sectors index

/-- The players `CheckDamagedPlayer` looks at, one after the other; `i` is `currentSector`. -/
def searched (g : Grid) (w : World) (p : Nat) (player : Player) (i : Nat) (left : Bool) :
    List Nat :=
  (w.sectors i).filter (· ≠ p) ++ playersAhead g w left player

/-- Whom the attack of `player`, the one at `p`, hits. -/
def target (g : Grid) (w : World) (p : Nat) (player : Player) (attack : AttackType) : Option Nat :=
  match isLeft player.faceDirection, player.currentSector with
  | some left, some i => (searched g w p player i left).find? (reaches w attack left player)
  | _, _ => none

/-- What a hit leaves of a player. -/
def wounded (attack : AttackType) (other : Player) : Player :=
  { other with hp := if other.hp < attack.damage then 0 else other.hp - attack.damage }

/-- The player that is hit, if any, is wounded; nothing else changes but for what is sent. -/
inductive Struck (w : World) (attack : AttackType) : Option Nat → World → Prop
  | miss : Struck w attack none w
  | hit {q : Nat} {msgs : List Sending} :
      Struck w attack (some q) ((w.modify q (wounded attack)).send msgs)

variable {g : Grid} {w w' : World} {p q : Nat} {player other : Player} {attack : AttackType}
  {left : Bool}

theorem reaches_eq (hq : w.players q = some other) :
    reaches w attack left player q = inAttackRange attack left player other := by
  rw [reaches, hq]

/-- What the attack leaves is `max(hp - damage, 0)`. -/
theorem wounded_hp : ((wounded attack other).hp.toNat : Int) =
    max ((other.hp.toNat : Int) - attack.damage.toNat) 0 := by
  unfold wounded
  dsimp only
  split
  · rename_i hlt
    have hlt := UInt8.lt_iff_toNat_lt.mp hlt
    rw [max_eq_right (by omega)]
    rfl
  · rename_i hge
    have hle := UInt8.le_iff_toNat_le.mp (UInt8.not_lt.mp hge)
    rw [UInt8.toNat_sub_of_le _ _ (UInt8.le_iff_toNat_le.mpr hle)]
    omega

/-! ## The search -/

theorem outcome_findTarget_find {qs : List Nat} :
    Outcome (fun found => found = qs.find? (reaches w attack left player)) (fun _ => True)
      (findTarget w attack left player qs) := by
  induction qs with
  | nil => rfl
  | cons q qs ih =>
    unfold findTarget
    cases hq : w.players q with
    | none =>
      rw [deref_none hq]
      trivial
    | some other =>
      rw [deref_ok hq]
      apply Outcome.ite
      · intro hin
        show some q = _
        rw [List.find?_cons_of_pos (by rw [reaches_eq hq]; exact hin)]
      · intro hout
        refine ih.weaken (fun found hfound => ?_) fun _ h => h
        rw [List.find?_cons_of_neg (by rw [reaches_eq hq]; exact hout)]
        exact hfound

theorem outcome_strike :
    Outcome (Struck w attack (some q)) (fun _ => True) (strike g w attack player q) := by
  unfold strike
  apply outcome_any.bind
  intro other _
  apply outcome_any.bind
  intro msgs _
  exact Struck.hit

theorem outcome_strikeAhead :
    Outcome (Struck w attack ((playersAhead g w left player).find? (reaches w attack left player)))
      (fun _ => True) (strikeAhead g w attack left player) := by
  unfold strikeAhead
  show Outcome _ _ (match frontSector g left player with
    | none => _
    | some index => _)
  unfold playersAhead
  cases frontSector g left player with
  | none => exact Struck.miss
  | some index =>
    apply outcome_findTarget_find.bind
    intro found hfound
    dsimp only
    rw [← hfound]
    cases found with
    | none => exact Struck.miss
    | some q => exact outcome_strike

/-- **`CheckDamagedPlayer`.** -/
theorem outcome_checkDamagedPlayer (hp : w.players p = some player) :
    Outcome (Struck w attack (target g w p player attack)) (fun _ => True)
      (checkDamagedPlayer g w p attack) := by
  have hderef : Outcome (player = ·) (fun _ => True) (w.deref p) := by
    rw [deref_ok hp]
    rfl
  unfold checkDamagedPlayer target
  apply hderef.bind
  rintro _ rfl
  cases isLeft player.faceDirection with
  | none => exact Struck.miss
  | some left =>
    cases hi : player.currentSector with
    | none =>
      simp only [Player.sector, hi]
      trivial
    | some i =>
      simp only [Player.sector, hi]
      apply outcome_findTarget_find.bind
      intro found hfound
      rw [searched, List.find?_append, ← hfound]
      cases found with
      | none => exact outcome_strikeAhead
      | some q => exact outcome_strike

end GameLogic

end IocpServer
