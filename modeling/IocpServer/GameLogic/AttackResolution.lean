import IocpServer.GameLogic.HandlerStores
import IocpServer.GameLogic.Neighbourhood
import IocpServer.GameLogic.SectorMembership

/-!
# How an attack is resolved

`CheckDamagedPlayer` takes the attacker's own tile from `currentSector` and the tile in front from
the coordinates.  The two fit together as long as every player is in the sector of its position, and
the front tile then cannot hold the attacker.

* `Candidate` — who may be hit: the others in the rectangle and in one of the two tiles.
* `mem_sectors_iff` — a placed player is in the set of a sector exactly if it stands on its tile.
* `run_resolved` — **in every run whose attacks stay in their tile an attack hits exactly one
  candidate, if there is one, and nobody else.**
-/

set_option autoImplicit false

namespace IocpServer

open Lib

namespace GameLogic

/-- The column and the row of a point. -/
def Grid.tile (g : Grid) (x y : Int) : Int × Int := (x / g.sectorTileSize, y / g.sectorTileSize)

/-- The rectangle of an attack from `pos`. -/
def InBox (attack : AttackType) (left : Bool) (pos other : Pos) : Prop :=
  (if left then
    (pos.1.toNat : Int) - attack.rangeX ≤ other.1.toNat ∧ other.1.toNat ≤ pos.1.toNat
  else (pos.1.toNat : Int) ≤ other.1.toNat ∧ other.1.toNat ≤ pos.1.toNat + attack.rangeX) ∧
  (pos.2.toNat : Int) - attack.rangeY ≤ other.2.toNat ∧
    (other.2.toNat : Int) ≤ pos.2.toNat + attack.rangeY

/-- Whom the player at `p` may hit from `pos`. -/
structure Candidate (g : Grid) (w : World) (p : Nat) (pos : Pos) (attack : AttackType)
    (left : Bool) (q : Nat) (other : Player) : Prop where
  ne : q ≠ p
  allocated : w.players q = some other
  box : InBox attack left pos other.pos
  tile : g.tile other.x.toNat other.y.toNat = g.tile pos.1.toNat pos.2.toNat ∨
    g.tile other.x.toNat other.y.toNat = g.tile (pos.1.toNat + g.ahead left) pos.2.toNat

/-- The attack is resolved: nobody's `hp` changes if there is no candidate; otherwise one candidate
loses `damage`, down to 0, and nobody else's `hp` changes. -/
def Resolved (g : Grid) (w : World) (p : Nat) (pos : Pos) (attack : AttackType) (left : Bool)
    (w' : World) : Prop :=
  ((∀ q other, ¬Candidate g w p pos attack left q other) ∧
      w'.read Player.hp = w.read Player.hp) ∨
    ∃ q other other', Candidate g w p pos attack left q other ∧ w'.players q = some other' ∧
      (other'.hp.toNat : Int) = max ((other.hp.toNat : Int) - attack.damage.toNat) 0 ∧
      ∀ r, r ≠ q → w'.read Player.hp r = w.read Player.hp r

variable {g : Grid} {w w₁ w' : World} {p q i : Nat} {player other moved : Player} {pos : Pos}
  {attack : AttackType} {left : Bool} {ipi : IncomingPacketInfo} {locals : Locals} {now : Int32}
  {x y x' y' : Int}

theorem inAttackRange_iff :
    inAttackRange attack left player other = true ↔ InBox attack left player.pos other.pos := by
  unfold inAttackRange InBox Player.pos
  cases left <;> simp <;> omega

/-! ## Sectors and tiles -/

/-- Points of one sector are points of one tile. -/
theorem tile_eq_of_index (h : g.getSectorIndex x y = some i) (h' : g.getSectorIndex x' y' = some i) :
    g.tile x y = g.tile x' y' := by
  obtain ⟨hr, hc⟩ := (getSectorIndex_iff.mp h).unique (getSectorIndex_iff.mp h')
  exact Prod.ext hc hr

theorem index_eq_of_tile (h : g.getSectorIndex x y = some i) (htile : g.tile x' y' = g.tile x y) :
    g.getSectorIndex x' y' = some i := by
  have htile := Prod.ext_iff.mp htile
  simp only [Grid.tile] at htile
  rw [getSectorIndex_iff, htile.1, htile.2]
  exact getSectorIndex_iff.mp h

/-- A placed player is in the set of a sector exactly if it stands on its tile. -/
theorem mem_sectors_iff (hw : Placed g w) (hq : w.players q = some other)
    (hi : g.getSectorIndex x y = some i) :
    q ∈ w.sectors i ↔ g.tile other.x.toNat other.y.toNat = g.tile x y := by
  obtain ⟨j, -, hj, hmem⟩ := hw.sector q other hq
  rw [hmem]
  constructor
  · rintro rfl
    exact tile_eq_of_index hj hi
  · intro htile
    exact Option.some.inj ((index_eq_of_tile hi htile).symm.trans hj)

/-- The tile in front is another one. -/
theorem tile_ahead_ne : g.tile x y ≠ g.tile (x + g.ahead left) y := by
  have hpos : (0 : Int) < g.sectorTileSize := by exact_mod_cast g.tileSize_pos
  intro h
  have h := congrArg Prod.fst h
  simp only [Grid.tile, Grid.ahead] at h
  cases left with
  | true =>
    have hstep := Int.add_mul_ediv_right x (-1) hpos.ne'
    simp only [if_true] at h
    rw [show -(g.sectorTileSize : Int) = -1 * g.sectorTileSize by ring] at h
    omega
  | false =>
    have hstep := Int.add_mul_ediv_right x 1 hpos.ne'
    simp only [Bool.false_eq_true, if_false] at h
    rw [one_mul] at hstep
    omega

/-! ## The search -/

/-- The world `CheckDamagedPlayer` searches: only the attacker differs, and it is where `pos` says,
in the sector it was in. -/
structure Aims (w : World) (p : Nat) (player : Player) (pos : Pos) (moved : Player) (w₁ : World) :
    Prop where
  before : w.players p = some player
  self : w₁.players p = some moved
  pos : moved.pos = pos
  sector : moved.currentSector = player.currentSector
  hp : moved.hp = player.hp
  other : ∀ q, q ≠ p → w₁.players q = w.players q
  sectors : w₁.sectors = w.sectors

theorem Aims.hp_eq (h : Aims w p player pos moved w₁) : w₁.read Player.hp = w.read Player.hp := by
  funext q
  unfold World.read
  by_cases hq : q = p
  · subst hq
    rw [h.self, h.before]
    exact congrArg some h.hp
  · rw [h.other q hq]

/-- The players the attack reaches stand in the rectangle. -/
theorem Aims.reaches_iff (h : Aims w p player pos moved w₁) (hq : q ≠ p) :
    reaches w₁ attack left moved q = true ↔
      ∃ other, w.players q = some other ∧ InBox attack left pos other.pos := by
  unfold reaches
  rw [h.other q hq, ← h.pos]
  cases hplayer : w.players q with
  | none => simp
  | some other =>
    constructor
    · intro hin
      exact ⟨other, rfl, inAttackRange_iff.mp hin⟩
    · rintro ⟨_, ⟨⟩, hin⟩
      exact inAttackRange_iff.mpr hin

/-- The sector of the own tile and the sector in front hold the candidates. -/
theorem Aims.candidate_iff (h : Aims w p player pos moved w₁) (hw : Placed g w)
    (hi : g.getSectorIndex pos.1.toNat pos.2.toNat = some i) (hq : q ≠ p) :
    (∃ other, Candidate g w p pos attack left q other) ↔
      reaches w₁ attack left moved q = true ∧ (q ∈ w.sectors i ∨
        ∃ k, g.getSectorIndex (pos.1.toNat + g.ahead left) pos.2.toNat = some k ∧
          q ∈ w.sectors k) := by
  rw [h.reaches_iff hq]
  constructor
  · rintro ⟨other, hc⟩
    refine ⟨⟨other, hc.allocated, hc.box⟩, hc.tile.imp (fun htile => ?_) fun htile => ?_⟩
    · exact (mem_sectors_iff hw hc.allocated hi).mpr htile
    · obtain ⟨k, -, hk, hmem⟩ := hw.sector q other hc.allocated
      exact ⟨k, index_eq_of_tile hk htile.symm, (hmem k).mpr rfl⟩
  · rintro ⟨⟨other, hother, hbox⟩, hsector⟩
    refine ⟨other, hq, hother, hbox, hsector.imp (fun hmem => ?_) ?_⟩
    · exact (mem_sectors_iff hw hother hi).mp hmem
    · rintro ⟨k, hk, hmem⟩
      exact (mem_sectors_iff hw hother hk).mp hmem

/-- **The target is a candidate**, and there is a target if there is a candidate. -/
theorem Aims.target_spec (attack : AttackType) (h : Aims w p player pos moved w₁) (hw : Placed g w)
    (htile : TileKept g player.pos pos) (hside : isLeft moved.faceDirection = some left) :
    (target g w₁ p moved attack = none →
        ∀ q other, ¬Candidate g w p pos attack left q other) ∧
      ∀ q, target g w₁ p moved attack = some q →
        ∃ other, Candidate g w p pos attack left q other := by
  obtain ⟨i, hcurrent, hindex, hmem⟩ := hw.sector p player h.before
  have hi : g.getSectorIndex pos.1.toNat pos.2.toNat = some i := htile.trans hindex
  have htarget : target g w₁ p moved attack =
      (searched g w₁ p moved i left).find? (reaches w₁ attack left moved) := by
    unfold target
    rw [hside, h.sector.trans hcurrent]
  have hahead : ∀ q, q ∈ playersAhead g w₁ left moved ↔ ∃ k,
      g.getSectorIndex (pos.1.toNat + g.ahead left) pos.2.toNat = some k ∧ q ∈ w.sectors k := by
    intro q
    have hx : moved.x = pos.1 := congrArg Prod.fst h.pos
    have hy : moved.y = pos.2 := congrArg Prod.snd h.pos
    rw [playersAhead, frontSector, hx, hy, h.sectors]
    cases g.getSectorIndex (pos.1.toNat + g.ahead left) pos.2.toNat <;> simp
  -- the attacker is skipped in its own sector and is not in the one in front
  have hsearched : ∀ q, q ∈ searched g w₁ p moved i left ↔ q ≠ p ∧ (q ∈ w.sectors i ∨ ∃ k,
      g.getSectorIndex (pos.1.toNat + g.ahead left) pos.2.toNat = some k ∧ q ∈ w.sectors k) := by
    intro q
    rw [searched, List.mem_append, List.mem_filter, hahead, h.sectors, decide_eq_true_iff]
    constructor
    · rintro (⟨hown, hq⟩ | ⟨k, hk, hfront⟩)
      · exact ⟨hq, Or.inl hown⟩
      · refine ⟨?_, Or.inr ⟨k, hk, hfront⟩⟩
        rintro rfl
        rw [hmem] at hfront
        subst hfront
        exact tile_ahead_ne (tile_eq_of_index hi hk)
    · rintro ⟨hq, hown | hfront⟩
      · exact Or.inl ⟨hown, hq⟩
      · exact Or.inr hfront
  rw [htarget]
  constructor
  · intro hnone q other hc
    obtain ⟨hreached, hsector⟩ := (h.candidate_iff hw hi hc.ne).mp ⟨other, hc⟩
    exact List.find?_eq_none.mp hnone q ((hsearched q).mpr ⟨hc.ne, hsector⟩) hreached
  · intro q hq
    obtain ⟨hne, hsector⟩ := (hsearched q).mp (List.mem_of_find?_eq_some hq)
    exact (h.candidate_iff hw hi hne).mpr ⟨List.find?_some hq, hsector⟩

/-- What the hit makes of a world like that. -/
theorem Aims.resolved {t : Option Nat} (h : Aims w p player pos moved w₁)
    (hnone : t = none → ∀ q other, ¬Candidate g w p pos attack left q other)
    (hsome : ∀ q, t = some q → ∃ other, Candidate g w p pos attack left q other)
    (hstruck : Struck w₁ attack t w') : Resolved g w p pos attack left w' := by
  cases hstruck with
  | miss => exact Or.inl ⟨hnone rfl, h.hp_eq⟩
  | @hit q msgs =>
    obtain ⟨other, hc⟩ := hsome q rfl
    have hself : ((w₁.modify q (wounded attack)).send msgs).players q =
        some (wounded attack other) := by
      rw [send_players, modify_players_self, h.other q hc.ne, hc.allocated]
      rfl
    refine Or.inr ⟨q, other, _, hc, hself, wounded_hp, fun r hr => ?_⟩
    have hread : (w₁.modify q (wounded attack)).read Player.hp r = w₁.read Player.hp r := by
      rw [World.read, modify_players_ne hr]
      rfl
    rw [← h.hp_eq, ← hread]
    rfl

/-- The handler searches such a world. -/
theorem aims_stopStored {move : CSMoveInfo} (hp : w.players p = some player) :
    Aims w p player (stopPosition player move) (stop { player with lastRecvTime := now } move)
      (stopStored (received w p now) p { player with lastRecvTime := now } move) where
  before := hp
  self := stopStored_self (received_self hp)
  pos := rfl
  sector := rfl
  hp := rfl
  other := fun _ hq => (stopStored_ne hq).trans (received_ne hq)
  sectors := rfl

theorem Aims.send (msgs : List Sending) (h : Aims w p player pos moved w₁) :
    Aims w p player pos moved (w₁.send msgs) :=
  ⟨h.before, h.self, h.pos, h.sector, h.hp, h.other, h.sectors⟩

/-- **Attack resolution.**  In every state of every run in which each attack packet that is accepted
names a position in the tile its player stands in, such an attack of a player that looks to one side
is resolved: if nobody else stands in its rectangle and in the player's tile or the one in front,
nobody's `hp` changes, and otherwise exactly one of these loses `damage`. -/
theorem run_resolved {uniqueCharacterId : UInt32} {as : List Action}
    (hr : Run (fun w a w' => step g w a = .ok w') (SameTile g) (init uniqueCharacterId) as w)
    (hok : SameTile g w (.packet ipi locals now)) (hp : Addressed w ipi p player)
    (htype : ipi.packetType = attack.packetType) (hside : isLeft player.faceDirection = some left)
    (h : step g w (.packet ipi locals now) = .ok w') :
    Resolved g w p (stopPosition player (readMove ipi.packetBuffer locals)) attack left w' := by
  have hplaced : Placed g w := hr.invariant (Placed.init uniqueCharacterId)
    fun _ _ _ hw hok hstep => (placed_invariant.step hw (packetOk_of_sameTile hok)).of_ok hstep
  have htile : TileKept g player.pos (stopPosition player (readMove ipi.packetBuffer locals)) := by
    refine (packetOk_of_sameTile hok p player hp).2.2 ?_
    rw [htype]
    cases attack <;> simp [AttackType.packetType]
  have hself := @received_self w p player now hp.2.1
  rw [step, processPacket_eq hp, htype, dispatch_attack, packetProcAttack_eq hself] at h
  obtain ⟨w₁, hannounced, hsearched⟩ := bind_eq_ok h
  obtain ⟨msgs, rfl⟩ := outcome_broadcast.of_ok hannounced
  have haims := (@aims_stopStored w p player now (readMove ipi.packetBuffer locals) hp.2.1).send msgs
  obtain ⟨hnone, hsome⟩ := haims.target_spec attack hplaced htile hside
  exact haims.resolved hnone hsome ((outcome_checkDamagedPlayer haims.self).of_ok hsearched)

/-- Of two players in one tile the left one, looking right, hits the other. -/
theorem run_resolved_neighbour :
    ∃ w player w', Run (fun w a w' => step .appending w a = .ok w') (SameTile .appending) (init 0)
        [.createNewPlayer ⟨0, 1⟩ 1 99 99 0 true, .createNewPlayer ⟨1, 1⟩ 2 119 99 0 true] w ∧
      Addressed w ⟨⟨0, 1⟩, .ofBytes [4, 100, 0, 100, 0], 20⟩ 1 player ∧
      step .appending w (.packet ⟨⟨0, 1⟩, .ofBytes [4, 100, 0, 100, 0], 20⟩ ⟨0, 0, 0, 0⟩ 0) =
        .ok w' ∧
      Resolved .appending w 1 (100, 100) .attack1 false w' ∧ w'.read Player.hp 2 = some 99 := by
  obtain ⟨w, player, w', hr, hok, hp, hside, hpos, hstep, hhit⟩ : ∃ w player w',
      Run (fun w a w' => step .appending w a = .ok w') (SameTile .appending) (init 0)
        [.createNewPlayer ⟨0, 1⟩ 1 99 99 0 true, .createNewPlayer ⟨1, 1⟩ 2 119 99 0 true] w ∧
      SameTile .appending w
        (.packet ⟨⟨0, 1⟩, .ofBytes [4, 100, 0, 100, 0], 20⟩ ⟨0, 0, 0, 0⟩ 0) ∧
      Addressed w ⟨⟨0, 1⟩, .ofBytes [4, 100, 0, 100, 0], 20⟩ 1 player ∧
      isLeft player.faceDirection = some false ∧
      stopPosition player (readMove (.ofBytes [4, 100, 0, 100, 0]) ⟨0, 0, 0, 0⟩) = (100, 100) ∧
      step .appending w (.packet ⟨⟨0, 1⟩, .ofBytes [4, 100, 0, 100, 0], 20⟩ ⟨0, 0, 0, 0⟩ 0) =
        .ok w' ∧ w'.read Player.hp 2 = some 99 := by
    refine ⟨_, _, _, .cons rfl trivial (.cons rfl trivial .nil), ?_, ⟨rfl, rfl, rfl⟩, rfl, rfl, rfl,
      rfl⟩
    rintro p player ⟨hlist, hp, -⟩ _ _
    cases hlist
    cases hp
    rfl
  have hresolved := run_resolved hr hok hp (rfl : _ = AttackType.attack1.packetType) hside hstep
  rw [hpos] at hresolved
  exact ⟨w, player, w', hr, hp, hstep, hresolved, hhit⟩

/-- A player that looks left and attacks from just beyond its tile hits itself: it is still in the
set of the tile in front. -/
theorem attack_hits_itself :
    ∃ w player w', Run (fun w a w' => step .appending w a = .ok w') anyStep (init 0)
        [.createNewPlayer ⟨0, 1⟩ 1 126 0 0 true,
          .packet ⟨⟨0, 1⟩, .ofBytes [0, 127, 0, 1, 0], 10⟩ ⟨0, 0, 0, 0⟩ 0] w ∧
      Addressed w ⟨⟨0, 1⟩, .ofBytes [0, 130, 0, 1, 0], 20⟩ 1 player ∧
      isLeft player.faceDirection = some true ∧
      stopPosition player (readMove (.ofBytes [0, 130, 0, 1, 0]) ⟨0, 0, 0, 0⟩) = (130, 1) ∧
      step .appending w (.packet ⟨⟨0, 1⟩, .ofBytes [0, 130, 0, 1, 0], 20⟩ ⟨0, 0, 0, 0⟩ 0) =
        .ok w' ∧
      w'.read Player.hp 1 = some 99 ∧ ¬Resolved .appending w 1 (130, 1) .attack1 true w' := by
  refine ⟨_, _, _, runFn_iff_run.mp rfl, ⟨rfl, rfl, rfl⟩, rfl, rfl, rfl, rfl, ?_⟩
  rintro (⟨-, hsame⟩ | ⟨q, other, other', hc, -, -, hsame⟩)
  · exact absurd (congrFun hsame 1) (by decide)
  · exact absurd (hsame 1 hc.ne.symm) (by decide)

end GameLogic

end IocpServer
