import IocpServer.GameLogic.Places
import IocpServer.Lib.Run

/-!
# Positions stay on the map

`UPDATE_MOVE_CHARACTER` stores a position only if it is on the 6400 × 6400 map.  The handlers
compare a packet's position with the player's own and with nothing else, so near the border, or
from a player that `isSynced`, they accept positions beyond it.

* `OnMap` — the step condition: the positions the handlers accept are on the map.
* `InMap` — the invariant.
* `getSectorIndex_config` — on the map the grid of `config.txt` has a sector for every position.
* `run_mapSafe` — **in every run whose accepted packets stay on the map every player does, and
  `sectors[-1]` is never formed.**
-/

set_option autoImplicit false

namespace IocpServer

open Lib

namespace GameLogic

/-! ## The promise and its condition -/

/-- Every allocated player is on the map. -/
def InMap (w : World) : Prop :=
  ∀ p player, w.players p = some player → player.x.toNat < 6400 ∧ player.y.toNat < 6400

/-- Every player is on the map, and no call that meets `ok` indexes `sectors` with -1. -/
def MapSafe (g : Grid) (ok : World → Action → Prop) (w : World) : Prop :=
  InMap w ∧ ∀ a, ok w a → step g w a ≠ .error .sectorIndex

/-- The step condition: a position that the handler's test of the distance lets through is on the
map. -/
def OnMap (w : World) : Action → Prop
  | .packet ipi locals _ =>
    ∀ p player, Addressed w ipi p player →
      (ipi.packetType = dfPacketCsMoveStart →
        tooFar player (readMove ipi.packetBuffer locals) = false →
          (readMove ipi.packetBuffer locals).x.toNat < 6400 ∧
            (readMove ipi.packetBuffer locals).y.toNat < 6400) ∧
      (ipi.packetType = dfPacketCsMoveStop ∨ ipi.packetType = dfPacketCsAttack1 ∨
          ipi.packetType = dfPacketCsAttack2 ∨ ipi.packetType = dfPacketCsAttack3 →
        mustSync player (readMove ipi.packetBuffer locals) = false →
          (readMove ipi.packetBuffer locals).x.toNat < 6400 ∧
            (readMove ipi.packetBuffer locals).y.toNat < 6400)
  | _ => True

/-! ## The invariant -/

variable {g : Grid} {w w' : World} {p q i : Nat} {player : Player} {f : Player → Player}
  {insert : Nat → List Nat → List Nat}
  {insert_perm : ∀ p players, p ∉ players → (insert p players).Perm (p :: players)}

/-- The grid covers the map. -/
theorem getSectorIndex_config {x y : Nat} (hx : x < 6400) (hy : y < 6400) :
    ∃ i, (Grid.config insert insert_perm).getSectorIndex x y = some i := by
  refine ⟨_, getSectorIndex_eq_some.mpr ⟨?_, ?_, ?_, ?_, rfl⟩⟩
  · omega
  · omega
  · show (x : Int) / (128 : Nat) < (50 : Nat)
    omega
  · show (y : Int) / (128 : Nat) < (50 : Nat)
    omega

theorem InMap.same (h : SamePlaces w w') (hw : InMap w) : InMap w' := by
  intro p player hp
  obtain ⟨player', hp', heq⟩ := h.players hp
  simp only [Player.spot, Spot.mk.injEq] at heq
  obtain ⟨hx, hy, -⟩ := heq
  rw [← hx, ← hy]
  exact hw p player' hp'

/-- A write that keeps a player on the map. -/
theorem InMap.modify (hw : InMap w) (hf : ∀ player, w.players p = some player →
    (f player).x.toNat < 6400 ∧ (f player).y.toNat < 6400) : InMap (w.modify p f) := by
  intro q player hq
  by_cases hqp : q = p
  · subst hqp
    rw [modify_players_self] at hq
    obtain ⟨player', hp', rfl⟩ := Option.map_eq_some_iff.mp hq
    exact hf player' hp'
  · rw [modify_players_ne hqp] at hq
    exact hw q player hq

theorem InMap.leave (hw : InMap w) : InMap (w.leave p i) := by
  apply InMap.modify
  · exact hw
  · intro player hp
    exact hw p player hp

theorem InMap.enter (hw : InMap w) : InMap (w.enter g p i) := by
  apply InMap.modify
  · exact hw
  · intro player hp
    exact hw p player hp

theorem InMap.place {pos : Pos} (hw : InMap w) (hpos : pos.1.toNat < 6400 ∧ pos.2.toNat < 6400) :
    InMap (w.place p pos) :=
  hw.modify fun _ _ => hpos

/-- A position on the map is stored and the sector checked. -/
theorem InMap.checkSector {pos : Pos} (hw : InMap w) (hp : w.players p = some player)
    (hpos : pos.1.toNat < 6400 ∧ pos.2.toNat < 6400) (hsame : SamePlaces (w.place p pos) w') :
    Outcome InMap (· ≠ .sectorIndex)
      (checkSector (.config insert insert_perm) w' p player.x player.y) := by
  have hw' : InMap w' := (hw.place hpos).same hsame
  obtain ⟨hprevX, hprevY⟩ := hw p player hp
  obtain ⟨prev, hprev⟩ := @getSectorIndex_config insert insert_perm _ _ hprevX hprevY
  cases hp' : w'.players p with
  | none =>
    unfold GameLogic.checkSector
    rw [deref_none hp']
    intro h
    cases h
  | some player' =>
    obtain ⟨hx, hy⟩ := hw' p player' hp'
    obtain ⟨curr, hcurr⟩ := @getSectorIndex_config insert insert_perm _ _ hx hy
    apply (outcome_checkSector hp').weaken
    · rintro w'' (⟨-, -, -, rfl⟩ | ⟨prev, curr, msgs, -, -, rfl⟩)
      · exact hw'
      · exact hw'.leave.enter
    · intro e he hsector
      rcases he hsector with h | h
      · rw [hprev] at h
        cases h
      · rw [hcurr] at h
        cases h

/-- A new player enters its sector. -/
theorem InMap.create (hw : InMap w) (hx : player.x.toNat < 6400) (hy : player.y.toNat < 6400) :
    InMap (((w.alloc p player).enter g p i).store p player.playerId.index) := by
  apply InMap.enter
  intro q player' hq
  by_cases hqp : q = p
  · subst hqp
    rw [alloc_players_self] at hq
    cases hq
    exact ⟨hx, hy⟩
  · rw [alloc_players_ne hqp] at hq
    exact hw q player' hq

/-- A player leaves its sector and is freed. -/
theorem InMap.remove (hw : InMap w) : InMap ((w.leaveSector p player).free p i) := by
  have hleft : InMap (w.leaveSector p player) := by
    unfold World.leaveSector
    split
    · exact hw
    · exact hw.leave
  intro q player' hq
  by_cases hqp : q = p
  · subst hqp
    rw [free_players_self] at hq
    cases hq
  · rw [free_players_ne hqp] at hq
    exact hleft q player' hq

/-- The positions that may be stored. -/
def Bounded (_ new : Pos) : Prop := new.1.toNat < 6400 ∧ new.2.toNat < 6400

theorem inMap_invariant :
    PlaceInvariant (.config insert insert_perm) InMap (· ≠ .sectorIndex) Bounded Bounded where
  fault := fun _ h => h
  same := fun _ _ h hw => hw.same h
  stay := fun _ p player hw hp => hw p player hp
  tick := fun _ _ hx hy => ⟨hx, hy⟩
  move := fun _ _ _ _ _ hw hp hpos hsame => hw.checkSector hp hpos hsame
  attack := fun _ _ _ _ hw _ hpos => hw.place hpos
  create := by
    intro w p player hw _ hx hy
    obtain ⟨i, hi⟩ := @getSectorIndex_config insert insert_perm _ _ hx hy
    rw [sectorAt_of_some hi]
    exact hw.create hx hy
  remove := fun _ _ _ _ hw _ _ => hw.remove

theorem packetOk_of_onMap {a : Action} (hw : InMap w) (h : OnMap w a) :
    PacketOk Bounded Bounded w a := by
  cases a with
  | packet ipi locals now =>
    intro p player haddressed
    have hp := haddressed.2.1
    obtain ⟨hstart, hstop⟩ := h p player haddressed
    have hbounded : (ipi.packetType = dfPacketCsMoveStop ∨ ipi.packetType = dfPacketCsAttack1 ∨
        ipi.packetType = dfPacketCsAttack2 ∨ ipi.packetType = dfPacketCsAttack3) →
        Bounded player.pos (stopPosition player (readMove ipi.packetBuffer locals)) := by
      intro htype
      unfold stopPosition
      split
      · exact hw p player hp
      · rename_i hsync
        exact hstop htype (Bool.eq_false_iff.mpr hsync)
    refine ⟨fun htype => ?_, fun htype => hbounded (Or.inl htype),
      fun htype => hbounded (Or.inr htype)⟩
    unfold startPosition
    split
    · exact hw p player hp
    · rename_i hfar
      exact hstart htype (Bool.eq_false_iff.mpr hfar)
  | _ => trivial

/-! ## Runs -/

/-- **Map bounds.**  With the grid of `config.txt`, in every run in which the handlers accept only
positions on the map, every player stays on the map, and no further such call forms
`sectors[-1]`. -/
theorem run_mapSafe {uniqueCharacterId : UInt32} {as : List Action}
    (hr : Run (fun w a w' => step (.config insert insert_perm) w a = .ok w') OnMap
      (init uniqueCharacterId) as w) : MapSafe (.config insert insert_perm) OnMap w := by
  have hstep : ∀ w a, InMap w → OnMap w a →
      Outcome InMap (· ≠ .sectorIndex) (step (.config insert insert_perm) w a) :=
    fun w a hw hok => inMap_invariant.step hw (packetOk_of_onMap hw hok)
  have hmap : InMap w := hr.invariant nofun fun w a w' hw hok h => (hstep w a hw hok).of_ok h
  refine ⟨hmap, fun a hok h => ?_⟩
  exact (hstep w a hmap hok).of_error h rfl

/-- A player walks up to the border and stays there. -/
theorem run_mapSafe_border :
    ∃ w, Run (fun w a w' => step .appending w a = .ok w') OnMap (init 0)
        [.createNewPlayer ⟨0, 1⟩ 1 6299 0 0 true,
          .packet ⟨⟨0, 1⟩, .ofBytes [4, 246, 24, 1, 0], 10⟩ ⟨0, 0, 0, 0⟩ 0,
          .updateGameWorld 0, .updateGameWorld 0] w ∧
      (w.players 1).map Player.x = some 6396 ∧ MapSafe .appending OnMap w := by
  obtain ⟨w, hrun, hx⟩ : ∃ w, Run (fun w a w' => step .appending w a = .ok w') OnMap (init 0)
        [.createNewPlayer ⟨0, 1⟩ 1 6299 0 0 true,
          .packet ⟨⟨0, 1⟩, .ofBytes [4, 246, 24, 1, 0], 10⟩ ⟨0, 0, 0, 0⟩ 0,
          .updateGameWorld 0, .updateGameWorld 0] w ∧
      (w.players 1).map Player.x = some 6396 := by
    refine ⟨_, .cons rfl trivial <| .cons rfl ?_ <| .cons rfl trivial <| .cons rfl trivial .nil, rfl⟩
    intro p player _
    exact ⟨fun _ _ => by decide, fun _ _ => by decide⟩
  exact ⟨w, hrun, hx, run_mapSafe hrun⟩

/-- A player near the border starts to move from a position beyond it. -/
theorem move_start_beyond_map :
    ¬ ∀ uniqueCharacterId as w,
      Run (fun w a w' => step .appending w a = .ok w') anyStep (init uniqueCharacterId) as w →
        MapSafe .appending anyStep w := by
  intro h
  have hsafe := h 0 [.createNewPlayer ⟨0, 1⟩ 1 6299 0 0 true] _ (runFn_iff_run.mp rfl)
  exact hsafe.2 (.packet ⟨⟨0, 1⟩, .ofBytes [4, 50, 25, 1, 0], 10⟩ ⟨0, 0, 0, 0⟩ 0) trivial rfl

end GameLogic

end IocpServer
