import IocpServer.GameLogic.Places
import IocpServer.Lib.Run

/-!
# Every player is in one sector

The agreement between a player's position, its `currentSector` and the sectors' sets.
`SectorUpdate` restores it from the *previous position*, so it has to hold before every call.
The attack handlers store a position and call no `SectorUpdate`.

* `SameTile` — the step condition: the position an attack handler accepts lies in the tile the
  player stands in.
* `Placed` — the invariant, for every allocated player.
* `run_membership` — **in every run whose attacks stay in their tile every player of `playerList` is in
  the set of exactly one sector, its `currentSector` and the sector of its position.**
-/

set_option autoImplicit false

namespace IocpServer

open Lib

namespace GameLogic

/-! ## The promise and its condition -/

/-- Sector membership. -/
def Membership (g : Grid) (w : World) : Prop :=
  ∀ i p, w.playerList i = some p → ∃ player j, w.players p = some player ∧
    player.currentSector = some j ∧ g.getSectorIndex player.x.toNat player.y.toNat = some j ∧
    ∀ k, p ∈ w.sectors k ↔ k = j

/-- The step condition. -/
def SameTile (g : Grid) (w : World) : Action → Prop
  | .packet ipi locals _ =>
    ∀ p player, Addressed w ipi p player →
      (ipi.packetType = dfPacketCsAttack1 ∨ ipi.packetType = dfPacketCsAttack2 ∨
        ipi.packetType = dfPacketCsAttack3) →
      mustSync player (readMove ipi.packetBuffer locals) = false →
        g.getSectorIndex (readMove ipi.packetBuffer locals).x.toNat
            (readMove ipi.packetBuffer locals).y.toNat =
          g.getSectorIndex player.x.toNat player.y.toNat
  | _ => True

/-! ## The invariant -/

/-- The player at `p` is in one sector's set. -/
def InSector (g : Grid) (w : World) (p : Nat) (player : Player) : Prop :=
  ∃ j, player.currentSector = some j ∧ g.getSectorIndex player.x.toNat player.y.toNat = some j ∧
    ∀ k, p ∈ w.sectors k ↔ k = j

structure Placed (g : Grid) (w : World) : Prop where
  stored : ∀ i p, w.playerList i = some p → ∃ player, w.players p = some player ∧
    player.playerId.index = i
  sector : ∀ p player, w.players p = some player → InSector g w p player
  allocated : ∀ k p, p ∈ w.sectors k → w.players p ≠ none

variable {g : Grid} {w w' : World} {p q i j k : Nat} {player : Player} {msgs : List Sending}

theorem Placed.same (h : SamePlaces w w') (hw : Placed g w) : Placed g w' := by
  refine ⟨fun i p hi => ?_, fun p player hp => ?_, fun k p hk => ?_⟩
  · rw [h.playerList] at hi
    obtain ⟨player, hp, hindex⟩ := hw.stored i p hi
    have hspot := h.spots p
    rw [hp] at hspot
    obtain ⟨player', hp', heq⟩ := Option.map_eq_some_iff.mp hspot
    exact ⟨player', hp', (congrArg (fun spot => spot.playerId.index) heq).trans hindex⟩
  · obtain ⟨player', hp', heq⟩ := h.players hp
    obtain ⟨j, hcurrent, hindex, hmem⟩ := hw.sector p player' hp'
    simp only [Player.spot, Spot.mk.injEq] at heq
    obtain ⟨hx, hy, hsector, -⟩ := heq
    rw [InSector, ← hx, ← hy, ← hsector, h.sectors]
    exact ⟨j, hcurrent, hindex, hmem⟩
  · rw [h.sectors] at hk
    have hspot := h.spots p
    intro hnone
    rw [hnone] at hspot
    cases hp : w.players p with
    | none => exact hw.allocated k p hk hp
    | some player => rw [hp] at hspot; cases hspot

/-- Only what concerns `p` has changed. -/
theorem Placed.frame (hw : Placed g w)
    (hplayers : ∀ q, q ≠ p → w'.players q = w.players q)
    (hsectors : ∀ q k, q ≠ p → (q ∈ w'.sectors k ↔ q ∈ w.sectors k))
    (hlist : ∀ i q, q ≠ p → w'.playerList i = some q → w.playerList i = some q)
    (hstored : ∀ i, w'.playerList i = some p →
      ∃ player, w'.players p = some player ∧ player.playerId.index = i)
    (hsector : ∀ player, w'.players p = some player → InSector g w' p player)
    (hallocated : ∀ k, p ∈ w'.sectors k → w'.players p ≠ none) : Placed g w' := by
  refine ⟨fun i q hi => ?_, fun q player hq => ?_, fun k q hk => ?_⟩
  · by_cases hqp : q = p
    · subst hqp
      exact hstored i hi
    · obtain ⟨player, hq, hindex⟩ := hw.stored i q (hlist i q hqp hi)
      exact ⟨player, (hplayers q hqp).trans hq, hindex⟩
  · by_cases hqp : q = p
    · subst hqp
      exact hsector player hq
    · rw [hplayers q hqp] at hq
      obtain ⟨j, hcurrent, hindex, hmem⟩ := hw.sector q player hq
      exact ⟨j, hcurrent, hindex, fun k => (hsectors q k hqp).trans (hmem k)⟩
  · by_cases hqp : q = p
    · subst hqp
      exact hallocated k hk
    · rw [hplayers q hqp]
      exact hw.allocated k q ((hsectors q k hqp).mp hk)

/-- The player at `p` has got a seat in one sector; the rest is as it was. -/
theorem Placed.seat (hw : Placed g w) (hself : w'.players p = some player)
    (hplayers : ∀ q, q ≠ p → w'.players q = w.players q)
    (hsectors : ∀ q k, q ≠ p → (q ∈ w'.sectors k ↔ q ∈ w.sectors k))
    (hlist : ∀ i q, q ≠ p → w'.playerList i = some q → w.playerList i = some q)
    (hstored : ∀ i, w'.playerList i = some p → player.playerId.index = i)
    (hsector : InSector g w' p player) : Placed g w' := by
  refine hw.frame hplayers hsectors hlist (fun i hi => ⟨player, hself, hstored i hi⟩) ?_ ?_
  · intro player' hp
    rw [hself] at hp
    cases hp
    exact hsector
  · intro k _
    rw [hself]
    exact Option.some_ne_none _

/-- The index of a stored player. -/
theorem Placed.index (hw : Placed g w) (hi : w.playerList i = some p)
    (hp : w.players p = some player) : player.playerId.index = i := by
  obtain ⟨player', hp', hindex⟩ := hw.stored i p hi
  rw [hp] at hp'
  cases hp'
  exact hindex

/-- `SectorUpdate` after a position has been stored. -/
theorem Placed.update {prev curr : Nat} (hw : Placed g w) (hp : w.players p = some player)
    (hprev : g.getSectorIndex player.x.toNat player.y.toNat = some prev) {pos : Pos}
    (hcurr : g.getSectorIndex pos.1.toNat pos.2.toNat = some curr) :
    Placed g (((w.place p pos).leave p prev).enter g p curr) := by
  obtain ⟨j, -, hj, hmem⟩ := hw.sector p player hp
  rw [hprev] at hj
  cases hj
  have hself : (((w.place p pos).leave p prev).enter g p curr).players p =
      some { player with x := pos.1, y := pos.2, currentSector := some curr } := by
    rw [enter_players_self, leave_players_self, place_players_self hp]
    rfl
  have hsectors : ∀ q k, q ∈ (((w.place p pos).leave p prev).enter g p curr).sectors k ↔
      (q ∈ w.sectors k ∧ ¬ (q = p ∧ k = prev)) ∨ (q = p ∧ k = curr) := by
    intro q k
    rw [mem_sectors_enter, mem_sectors_leave]
    exact Iff.rfl
  have hindex : ∀ i, w.playerList i = some p → player.playerId.index = i :=
    fun i hi => hw.index hi hp
  refine hw.seat hself (fun q hq => ?_) (fun q k hq => ?_) (fun _ _ _ hi => hi)
    hindex ⟨curr, rfl, hcurr, fun k => ?_⟩
  · rw [enter_players_ne hq, leave_players_ne hq, place_players_ne hq]
  · rw [hsectors]
    simp [hq]
  · rw [hsectors, hmem]
    constructor
    · rintro (⟨hk, hne⟩ | ⟨-, hk⟩)
      · exact absurd ⟨rfl, hk⟩ hne
      · exact hk
    · intro hk
      exact Or.inr ⟨rfl, hk⟩

/-- A position in the same tile is stored. -/
theorem Placed.place {pos : Pos} (hw : Placed g w) (hp : w.players p = some player)
    (htile : g.getSectorIndex pos.1.toNat pos.2.toNat =
      g.getSectorIndex player.x.toNat player.y.toNat) : Placed g (w.place p pos) := by
  obtain ⟨j, hcurrent, hindex, hmem⟩ := hw.sector p player hp
  have hstored : ∀ i, w.playerList i = some p → player.playerId.index = i :=
    fun i hi => hw.index hi hp
  exact hw.seat (place_players_self hp) (fun q hq => place_players_ne hq) (fun _ _ _ => Iff.rfl)
    (fun _ _ _ hi => hi) hstored ⟨j, hcurrent, htile.trans hindex, hmem⟩

/-- A position is stored and the sector checked. -/
theorem Placed.checkSector {pos : Pos} (hw : Placed g w) (hp : w.players p = some player)
    (hsame : SamePlaces (w.place p pos) w') :
    Outcome (Placed g) (fun _ => True) (checkSector g w' p player.x player.y) := by
  have hself := @place_players_self w p player pos hp
  have hspot := hsame.spots p
  rw [hself] at hspot
  obtain ⟨player', hp', heq⟩ := Option.map_eq_some_iff.mp hspot
  simp only [Player.spot, Spot.mk.injEq] at heq
  obtain ⟨hx, hy, hsector, -⟩ := heq
  apply (outcome_checkSector hp').weaken
  · rintro w'' (⟨curr, hcurr, hcurrent, rfl⟩ | ⟨prev, curr, msgs, hprev, hcurr, rfl⟩)
    · -- the player has not left its tile
      rw [hx, hy] at hcurr
      rw [hsector] at hcurrent
      obtain ⟨j, hj, hindex, -⟩ := hw.sector p player hp
      rw [hj] at hcurrent
      cases hcurrent
      exact (hw.place hp (hcurr.trans hindex.symm)).same hsame
    · rw [hx, hy] at hcurr
      exact (hw.update hp hprev hcurr).same hsame.leave.enter.send
  · intro e _
    trivial

/-- A new player enters the sector of its position. -/
theorem Placed.create {curr : Nat} (hw : Placed g w) (hp : w.players p = none)
    (hcurr : g.getSectorIndex player.x.toNat player.y.toNat = some curr) :
    Placed g (((w.alloc p player).enter g p curr).store p player.playerId.index) := by
  have hself : (((w.alloc p player).enter g p curr).store p player.playerId.index).players p =
      some { player with currentSector := some curr } := by
    rw [store_players, enter_players_self, alloc_players_self]
    rfl
  have hsectors : ∀ q k,
      q ∈ (((w.alloc p player).enter g p curr).store p player.playerId.index).sectors k ↔
        q ∈ w.sectors k ∨ (q = p ∧ k = curr) := by
    intro q k
    exact mem_sectors_enter
  have hunstored : ∀ i, w.playerList i ≠ some p := by
    intro i hi
    obtain ⟨player', hp', -⟩ := hw.stored i p hi
    rw [hp] at hp'
    cases hp'
  have hfresh : ∀ k, p ∉ w.sectors k := fun k hk => hw.allocated k p hk hp
  refine hw.seat hself (fun q hq => ?_) (fun q k hq => ?_) (fun i q hq hi => ?_) (fun i hi => ?_)
    ⟨curr, rfl, hcurr, fun k => ?_⟩
  · rw [store_players, enter_players_ne hq, alloc_players_ne hq]
  · rw [hsectors]
    simp [hq]
  · rcases store_playerList_eq_some.mp hi with ⟨-, rfl⟩ | ⟨-, hi⟩
    · exact absurd rfl hq
    · exact hi
  · rcases store_playerList_eq_some.mp hi with ⟨rfl, -⟩ | ⟨-, hi⟩
    · rfl
    · exact absurd hi (hunstored i)
  · rw [hsectors]
    simp [hfresh]

/-- A stored player leaves its sector and is freed. -/
theorem Placed.remove (hw : Placed g w) (hp : w.players p = some player) :
    Placed g ((w.leaveSector p player).free p player.playerId.index) := by
  obtain ⟨j, hcurrent, -, hmem⟩ := hw.sector p player hp
  have hleave : w.leaveSector p player = w.leave p j := by
    rw [World.leaveSector, hcurrent]
  have hgone : ∀ k, p ∉ ((w.leave p j).free p player.playerId.index).sectors k := by
    intro k hk
    rw [free_sectors, mem_sectors_leave, hmem] at hk
    exact hk.2 ⟨rfl, hk.1⟩
  rw [hleave]
  refine hw.frame (fun q hq => ?_) (fun q k hq => ?_) (fun i q _ hi => ?_) (fun i hi => ?_)
    (fun player' hp' => ?_) fun k hk => absurd hk (hgone k)
  · rw [free_players_ne hq, leave_players_ne hq]
  · rw [free_sectors, mem_sectors_leave]
    simp [hq]
  · exact (free_playerList_eq_some.mp hi).2
  · obtain ⟨hne, hi⟩ := free_playerList_eq_some.mp hi
    exact absurd (hw.index hi hp).symm hne
  · rw [free_players_self] at hp'
    cases hp'

/-- The positions an attack handler may store. -/
def TileKept (g : Grid) (old new : Pos) : Prop :=
  g.getSectorIndex new.1.toNat new.2.toNat = g.getSectorIndex old.1.toNat old.2.toNat

theorem placed_invariant :
    PlaceInvariant g (Placed g) (fun _ => True) (fun _ _ => True) (TileKept g) where
  fault := fun _ _ => trivial
  same := fun _ _ h hw => hw.same h
  stay := fun _ _ _ _ _ => trivial
  tick := fun _ _ _ _ => trivial
  move := fun _ _ _ _ _ hw hp _ hsame => hw.checkSector hp hsame
  attack := fun _ _ _ _ hw hp htile => hw.place hp htile
  create := by
    intro w p player hw hp _ _
    exact outcome_sectorAt.weaken (fun curr hcurr => hw.create hp hcurr) fun _ _ => trivial
  remove := fun _ _ _ _ hw _ hp => hw.remove hp

theorem packetOk_of_sameTile {a : Action} (h : SameTile g w a) :
    PacketOk (fun _ _ => True) (TileKept g) w a := by
  cases a with
  | packet ipi locals now =>
    intro p player hp
    refine ⟨fun _ => trivial, fun _ => trivial, fun htype => ?_⟩
    unfold TileKept stopPosition
    split
    · rfl
    · rename_i hsync
      exact h p player hp htype (Bool.eq_false_iff.mpr hsync)
  | _ => trivial

/-! ## Runs -/

theorem Placed.init (uniqueCharacterId : UInt32) : Placed g (GameLogic.init uniqueCharacterId) :=
  ⟨nofun, nofun, nofun⟩

theorem Placed.membership (hw : Placed g w) : Membership g w := by
  intro i p hi
  obtain ⟨player, hp, -⟩ := hw.stored i p hi
  obtain ⟨j, h⟩ := hw.sector p player hp
  exact ⟨player, j, hp, h⟩

/-- **Sector membership.**  In every run in which each attack packet that is accepted names a
position in the tile its player stands in, every player of `playerList` is in exactly one sector's
set, and that sector is its `currentSector` and the sector of its position. -/
theorem run_membership {uniqueCharacterId : UInt32} {as : List Action}
    (hr : Run (fun w a w' => step g w a = .ok w') (SameTile g) (init uniqueCharacterId) as w) :
    Membership g w := by
  have hplaced : Placed g w := hr.invariant (Placed.init uniqueCharacterId)
    fun _ _ _ hw hok hstep => (placed_invariant.step hw (packetOk_of_sameTile hok)).of_ok hstep
  exact hplaced.membership

/-- A player is created, walks into the next tile, attacks there and stops. -/
theorem run_membership_one_player :
    ∃ w, Run (fun w a w' => step .appending w a = .ok w') (SameTile .appending) (init 0)
        [.createNewPlayer ⟨0, 1⟩ 1 126 0 0 true,
          .packet ⟨⟨0, 1⟩, .ofBytes [4, 130, 0, 1, 0], 10⟩ ⟨0, 0, 0, 0⟩ 0,
          .updateGameWorld 0,
          .packet ⟨⟨0, 1⟩, .ofBytes [4, 140, 0, 1, 0], 20⟩ ⟨0, 0, 0, 0⟩ 0,
          .flushFrame] w ∧
      w.playerList 0 = some 1 ∧ w.sectors 1 = [1] ∧ Membership .appending w := by
  obtain ⟨w, hrun, hlist, hsector⟩ : ∃ w,
      Run (fun w a w' => step .appending w a = .ok w') (SameTile .appending) (init 0)
        [.createNewPlayer ⟨0, 1⟩ 1 126 0 0 true,
          .packet ⟨⟨0, 1⟩, .ofBytes [4, 130, 0, 1, 0], 10⟩ ⟨0, 0, 0, 0⟩ 0,
          .updateGameWorld 0,
          .packet ⟨⟨0, 1⟩, .ofBytes [4, 140, 0, 1, 0], 20⟩ ⟨0, 0, 0, 0⟩ 0,
          .flushFrame] w ∧ w.playerList 0 = some 1 ∧ w.sectors 1 = [1] := by
    refine ⟨_, .cons rfl trivial <| .cons rfl ?_ <| .cons rfl trivial <| .cons rfl ?_ <|
      .cons rfl trivial .nil, rfl, rfl⟩
    · intro p player _ htype
      exact absurd htype (by decide)
    · rintro p player ⟨hlist, hp, -⟩ _ _
      cases hlist
      cases hp
      rfl
  exact ⟨w, hrun, hlist, hsector, run_membership hrun⟩

/-- A player at the edge of its tile attacks from just beyond it. -/
theorem attack_leaves_tile :
    ¬ ∀ uniqueCharacterId as w,
      Run (fun w a w' => step .appending w a = .ok w') anyStep (init uniqueCharacterId) as w →
        Membership .appending w := by
  intro h
  have hmember := h 0 [.createNewPlayer ⟨0, 1⟩ 1 126 0 0 true,
    .packet ⟨⟨0, 1⟩, .ofBytes [4, 130, 0, 1, 0], 20⟩ ⟨0, 0, 0, 0⟩ 0] _ (runFn_iff_run.mp rfl)
  obtain ⟨player, j, hp, hcurrent, hindex, -⟩ := hmember 0 1 rfl
  cases hp
  cases hcurrent
  exact absurd hindex (by decide)

end GameLogic

end IocpServer
