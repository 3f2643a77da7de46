import IocpServer.GameLogic.Sightings
import IocpServer.GameLogic.SectorMembership

/-!
# What every client sees of every other

Runs in which players come, start, move and stop and nobody dies.

* `ViewStep`, `ViewOk` — the steps of these runs.
* `ViewInv` — the log of what was shown and taken away says of every pair whether the one is in a
  sector around the other's.
* `ViewInv.update`, `ViewInv.create` — **a sector change and a spawn add exactly the difference.**
* `run_clientView` — **in every run the creations of `B` shown to `A` less the deletions are 1 if
  `B`'s sector is around `A`'s and 0 otherwise.**
-/

set_option autoImplicit false

namespace IocpServer

open Lib

namespace GameLogic

/-! ## The promise -/

structure ClientView (g : Grid) (w : World) (log : List Seen) : Prop where
  told : Tells (w.read Player.names) log w.sent
  view : ∀ p q player other, p ≠ q → w.players p = some player → w.players q = some other →
    ∃ i j, player.currentSector = some i ∧ other.currentSector = some j ∧
      balance log p q = if g.Around i j then 1 else 0
  /-- Where a session and a character id are nobody else's, the log counts the messages. -/
  messages : ∀ p q player other, w.players p = some player → w.players q = some other →
    (∀ r third, w.players r = some third → third.sessionId = player.sessionId → r = p) →
    (∀ r third, w.players r = some third →
      third.playerId.characterId = other.playerId.characterId → r = q) →
    ∀ sight, (w.sent.filterMap sightOf).count
      (player.sessionId, sight, other.playerId.characterId) = log.count ⟨sight, p, q⟩

/-- A step behind which nobody is dead.  A position outside the grid makes it fail. -/
def ViewStep (g : Grid) (w : World) (a : Action) (w' : World) : Prop :=
  step g w a = .ok w' ∧ NoneDead w'

/-- The calls of these runs. -/
def ViewOk (_ : World) : Action → Prop
  | .createNewPlayer _ _ _ _ _ _ | .updateGameWorld _ => True
  | .packet ipi _ _ =>
    ipi.packetType = dfPacketCsMoveStart ∨ ipi.packetType = dfPacketCsMoveStop
  | _ => False

variable {g : Grid} {w w' w'' : World} {p q i j : Nat} {player other : Player}
  {f : Player → Player} {msgs : List Sending} {log : List Seen}

/-! ## The invariant -/

def World.sectorOf (w : World) (p : Nat) : Option Nat := (w.players p).bind Player.currentSector

structure ViewInv (g : Grid) (w : World) (log : List Seen) : Prop where
  placed : Placed g w
  nodup : ∀ k, (w.sectors k).Nodup
  told : Tells (w.read Player.names) log w.sent
  view : ∀ p q i j, p ≠ q → w.sectorOf p = some i → w.sectorOf q = some j →
    balance log p q = if g.Around i j then 1 else 0

/-- The two worlds agree on places, names and what clients were told. -/
structure SameView (w w' : World) : Prop where
  places : SamePlaces w w'
  names : w'.read Player.names = w.read Player.names
  sights : w'.sent.filterMap sightOf = w.sent.filterMap sightOf

theorem SameView.refl : SameView w w := ⟨SamePlaces.refl, rfl, rfl⟩

theorem SameView.send (h : SameView w w') (hmsgs : ∀ m ∈ msgs, sightOf m = none) :
    SameView w (w'.send msgs) := by
  refine ⟨h.places.send, h.names, ?_⟩
  show (w'.sent ++ msgs).filterMap sightOf = _
  rw [List.filterMap_append, List.filterMap_eq_nil_iff.mpr hmsgs, List.append_nil, h.sights]

theorem sectorOf_eq (h : SamePlaces w w') : w'.sectorOf = w.sectorOf := by
  funext p
  have hread : ∀ w : World, w.sectorOf p =
      ((w.players p).map Player.spot).bind Spot.currentSector := by
    intro w
    unfold World.sectorOf
    cases w.players p with
    | none => rfl
    | some player => rfl
  rw [hread, hread, h.spots]

theorem ViewInv.same (I : ViewInv g w log) (h : SameView w w') : ViewInv g w' log := by
  refine ⟨I.placed.same h.places, fun k => h.places.sectors ▸ I.nodup k, ?_,
    fun p q i j => ?_⟩
  · unfold Tells
    rw [h.sights, h.names]
    exact I.told
  · rw [sectorOf_eq h.places]
    exact I.view p q i j

/-- Where a player's sector is. -/
theorem Placed.sectorOf (hw : Placed g w) (hp : w.players p = some player) :
    ∃ i, player.currentSector = some i ∧ w.sectorOf p = some i ∧
      g.getSectorIndex player.x.toNat player.y.toNat = some i ∧ ∀ k, p ∈ w.sectors k ↔ k = i := by
  obtain ⟨i, hcurrent, hindex, hmem⟩ := hw.sector p player hp
  refine ⟨i, hcurrent, ?_, hindex, hmem⟩
  rw [World.sectorOf, hp]
  exact hcurrent

theorem players_of_sectorOf (h : w.sectorOf p = some i) :
    ∃ player, w.players p = some player ∧ player.currentSector = some i := by
  cases hp : w.players p with
  | none => rw [World.sectorOf, hp] at h; cases h
  | some player => rw [World.sectorOf, hp] at h; exact ⟨player, rfl, h⟩

theorem ViewInv.clientView (I : ViewInv g w log) : ClientView g w log := by
  refine ⟨I.told, fun p q player other hpq hp hq => ?_,
    fun _ _ _ _ hp hq hsession hid _ => count_messages I.told hp hq hsession hid⟩
  obtain ⟨i, hi, hpi, -⟩ := I.placed.sectorOf hp
  obtain ⟨j, hj, hqj, -⟩ := I.placed.sectorOf hq
  exact ⟨i, j, hi, hj, I.view p q i j hpq hpi hqj⟩

theorem nodup_enter (hn : ∀ k, (w.sectors k).Nodup) (k : Nat) :
    ((w.enter g p i).sectors k).Nodup := by
  by_cases hk : k = i
  · subst hk
    simpa [World.enter] using nodup_setInsert (hn k)
  · simpa [World.enter, hk] using hn k

theorem nodup_leave (hn : ∀ k, (w.sectors k).Nodup) (k : Nat) :
    ((w.leave p i).sectors k).Nodup := by
  by_cases hk : k = i
  · subst hk
    simpa [World.leave] using (hn k).filter _
  · simpa [World.leave, hk] using hn k

/-- One player has a new sector, and the log has grown by the difference for it and everybody. -/
theorem view_step {sector sector' : Nat → Option Nat} {new : List Seen} {d : Nat → Int}
    {curr : Nat}
    (hview : ∀ a b i j, a ≠ b → sector a = some i → sector b = some j →
      balance log a b = if g.Around i j then 1 else 0)
    (hother : ∀ q, q ≠ p → sector' q = sector q) (hself : sector' p = some curr)
    (hnew : ∀ a b, a ≠ b →
      balance new a b = if a = p then d b else if b = p then d a else 0)
    (hold : ∀ q j, q ≠ p → sector q = some j →
      balance log p q + d q = (if g.Around curr j then 1 else 0) ∧
        balance log q p = balance log p q) {a b : Nat} (hab : a ≠ b) (ha : sector' a = some i)
    (hb : sector' b = some j) :
    balance (log ++ new) a b = if g.Around i j then 1 else 0 := by
  rw [balance_append, hnew a b hab]
  by_cases hap : a = p
  · subst hap
    rw [hself] at ha
    cases ha
    rw [hother b hab.symm] at hb
    rw [if_pos rfl]
    exact (hold b j hab.symm hb).1
  · rw [hother a hap] at ha
    rw [if_neg hap]
    by_cases hbp : b = p
    · subst hbp
      rw [hself] at hb
      cases hb
      obtain ⟨hsum, hcomm⟩ := hold a i hap ha
      rw [if_pos rfl, hcomm, hsum]
      exact if_congr around_comm rfl rfl
    · rw [hother b hbp] at hb
      rw [if_neg hbp, add_zero]
      exact hview a b i j hab ha hb

/-- How often a player is met on a walk through some sectors. -/
theorem Placed.count (hw : Placed g w) (hn : ∀ k, (w.sectors k).Nodup) {L : List Nat}
    (hL : L.Nodup) (hq : w.sectorOf q = some j) :
    (L.flatMap w.sectors).count q = if j ∈ L then 1 else 0 := by
  obtain ⟨player, hp, hj⟩ := players_of_sectorOf hq
  obtain ⟨i, hi, -, -, hmem⟩ := hw.sectorOf hp
  rw [hj] at hi
  cases hi
  exact count_sectors hn hmem hL

/-- The row and column of a player's sector. -/
theorem Placed.onTile (hw : Placed g w) (hq : w.sectorOf q = some j) : ∃ r c, g.OnTile j r c := by
  obtain ⟨player, hp, hj⟩ := players_of_sectorOf hq
  obtain ⟨i, hi, -, hindex, -⟩ := hw.sectorOf hp
  rw [hj] at hi
  cases hi
  exact ⟨_, _, getSectorIndex_iff.mp hindex⟩

/-- Another player is nearby once if its sector is around that of `p`, and otherwise not. -/
theorem Placed.count_nearby (hw : Placed g w) (hn : ∀ k, (w.sectors k).Nodup)
    (hi : g.getSectorIndex player.x.toNat player.y.toNat = some i) (hqp : q ≠ p)
    (hq : w.sectorOf q = some j) :
    (nearby g w p player i).count q = if g.Around i j then 1 else 0 := by
  obtain ⟨r, c, htile⟩ := hw.onTile hq
  have hperm := perm_view hi
  have hwalk : (nearby g w p player i).count q =
      ((i :: g.around player.x player.y).flatMap w.sectors).count q := by
    rw [nearby, List.flatMap_cons, List.count_append, List.count_append,
      List.count_filter (by simpa using hqp)]
  rw [hwalk, hw.count hn (hperm.nodup_iff.mp nodup_view) hq]
  simp only [← hperm.mem_iff, mem_view hi htile]

/-- **A sector change.** -/
theorem ViewInv.update {prev curr : Nat} {pos : Pos} (I : ViewInv g w log)
    (hp : w.players p = some player)
    (hprev : g.getSectorIndex player.pos.1.toNat player.pos.2.toNat = some prev)
    (hcurr : g.getSectorIndex pos.1.toNat pos.2.toNat = some curr)
    (hw' : w' = ((w.place p pos).leave p prev).enter g p curr)
    (hmsgs : Tells (w.read Player.names) (changes g w' p player.pos pos) msgs) :
    ViewInv g (w'.send msgs) (log ++ changes g w' p player.pos pos) := by
  have hplaced : Placed g w' := hw' ▸ I.placed.update hp hprev hcurr
  have hnodup : ∀ k, (w'.sectors k).Nodup := hw' ▸ nodup_enter (nodup_leave I.nodup)
  have hnames : w'.read Player.names = w.read Player.names := by
    rw [hw', read_enter fun _ _ => rfl, read_leave fun _ _ => rfl]
    exact read_modify fun _ => rfl
  have hself : w'.sectorOf p = some curr := by
    rw [hw', World.sectorOf, enter_players_self, leave_players_self, place_players_self hp]
    rfl
  have hother : ∀ q, q ≠ p → w'.sectorOf q = w.sectorOf q := by
    intro q hq
    rw [hw', World.sectorOf, enter_players_ne hq, leave_players_ne hq, place_players_ne hq]
    rfl
  have hold : w.sectorOf p = some prev := by
    obtain ⟨i, -, hi, hindex, -⟩ := I.placed.sectorOf hp
    cases hindex.symm.trans hprev
    exact hi
  refine ⟨hplaced.same SamePlaces.refl.send, hnodup, ?_, fun a b i j hab => ?_⟩
  · show Tells (w'.read Player.names) _ (w'.sent ++ msgs)
    rw [hnames]
    have hsent : w'.sent = w.sent := hw' ▸ rfl
    exact (hsent ▸ I.told).append hmsgs
  · refine view_step I.view hother hself (d := fun q =>
      ((sectorSets g player.pos.1 player.pos.2 pos.1 pos.2).2.flatMap w'.sectors).count q -
        ((sectorSets g player.pos.1 player.pos.2 pos.1 pos.2).1.flatMap w'.sectors).count q)
      (fun a b hab => ?_) (fun q j hq hj => ⟨?_, ?_⟩) hab
    · rw [changes, balance_append, balance_met_create hab, balance_met_delete hab]
      simp only [meetings]
      split_ifs <;> omega
    · have d := @sectorSets_spec g pos.1 pos.2 player.pos.1 player.pos.2
      have hj' : w'.sectorOf q = some j := (hother q hq).trans hj
      obtain ⟨r, c, htile⟩ := I.placed.onTile hj
      rw [I.view p q prev j hq.symm hold hj, hplaced.count hnodup d.nodup.2 hj',
        hplaced.count hnodup d.nodup.1 hj']
      simp only [d.left, d.right, mem_view hprev htile, mem_view hcurr htile]
      split_ifs <;> first | omega | tauto
    · rw [I.view p q prev j hq.symm hold hj, I.view q p j prev hq hj hold]
      exact if_congr around_comm rfl rfl

/-- **A new player.** -/
theorem ViewInv.create {curr : Nat} (I : ViewInv g w log) (hp : w.players p = none)
    (hcurr : g.getSectorIndex player.x.toNat player.y.toNat = some curr)
    (hw' : w' = ((w.alloc p player).enter g p curr).store p player.playerId.index)
    (hmsgs : Tells (w'.read Player.names) (spawned p (nearby g w' p player curr)) msgs) :
    ViewInv g (w'.send msgs) (log ++ spawned p (nearby g w' p player curr)) := by
  have hplaced : Placed g w' := hw' ▸ I.placed.create hp hcurr
  have hnodup : ∀ k, (w'.sectors k).Nodup := hw' ▸ nodup_enter I.nodup
  have hplayers : ∀ q, q ≠ p → w'.players q = w.players q := by
    intro q hq
    rw [hw', store_players, enter_players_ne hq, alloc_players_ne hq]
  have hself : w'.sectorOf p = some curr := by
    rw [hw', World.sectorOf, store_players, enter_players_self, alloc_players_self]
    rfl
  have hother : ∀ q, q ≠ p → w'.sectorOf q = w.sectorOf q := by
    intro q hq
    rw [World.sectorOf, hplayers q hq]
    rfl
  -- the log does not know `p` yet
  have hunknown : ∀ e ∈ log, e.viewer ≠ p ∧ e.subject ≠ p := by
    have hnone : w.read Player.names p = none := by rw [World.read, hp]; rfl
    intro e he
    obtain ⟨hviewer, hsubject⟩ := I.told.known he
    exact ⟨fun h => hviewer (h ▸ hnone), fun h => hsubject (h ▸ hnone)⟩
  have hfresh : ∀ a b, a = p ∨ b = p → balance log a b = 0 := by
    intro a b hab
    have hzero : ∀ sight, log.count ⟨sight, a, b⟩ = 0 := by
      intro sight
      refine List.count_eq_zero.mpr fun hmem => ?_
      obtain ⟨hviewer, hsubject⟩ := hunknown _ hmem
      rcases hab with rfl | rfl
      · exact hviewer rfl
      · exact hsubject rfl
    rw [balance, hzero, hzero]
    rfl
  have htold : Tells (w'.read Player.names) log w.sent := by
    have hresolve : log.map (Seen.resolve (w'.read Player.names)) =
        log.map (Seen.resolve (w.read Player.names)) := by
      refine List.map_congr_left fun e he => ?_
      obtain ⟨hviewer, hsubject⟩ := hunknown e he
      simp only [Seen.resolve, World.read, hplayers _ hviewer, hplayers _ hsubject]
    exact I.told.trans hresolve.symm
  refine ⟨hplaced.same SamePlaces.refl.send, hnodup, ?_, fun a b i j hab => ?_⟩
  · show Tells _ _ (w'.sent ++ msgs)
    have hsent : w'.sent = w.sent := hw' ▸ rfl
    exact (hsent ▸ htold).append hmsgs
  · refine view_step I.view hother hself (d := fun q => (nearby g w' p player curr).count q)
      (fun a b hab => ?_) (fun q j hq hj => ⟨?_, ?_⟩) hab
    · rw [balance_spawned hab, meetings]
      split_ifs <;> rfl
    · have hcount := hplaced.count_nearby hnodup hcurr hq ((hother q hq).trans hj)
      rw [hfresh p q (Or.inl rfl), zero_add, hcount, Nat.cast_ite, Nat.cast_one, Nat.cast_zero]
    · rw [hfresh p q (Or.inl rfl), hfresh q p (Or.inr rfl)]

/-! ## The calls -/

theorem SameView.modify_self (hspot : ∀ player, (f player).spot = player.spot)
    (hnames : ∀ player, (f player).names = player.names) : SameView w (w.modify p f) :=
  ⟨SamePlaces.modify_self hspot, read_modify hnames, rfl⟩

theorem SameView.leave (h : SameView w w') : SameView (w.leave p i) (w'.leave p i) := by
  refine ⟨h.places.leave, ?_, h.sights⟩
  rw [read_leave fun _ _ => rfl, read_leave fun _ _ => rfl, h.names]

theorem SameView.enter (h : SameView w w') : SameView (w.enter g p i) (w'.enter g p i) := by
  refine ⟨h.places.enter, ?_, h.sights⟩
  rw [read_enter fun _ _ => rfl, read_enter fun _ _ => rfl, h.names]

theorem SameView.send_both (h : SameView w w') : SameView (w.send msgs) (w'.send msgs) := by
  refine ⟨⟨h.places.spots, h.places.sectors, h.places.playerList⟩, h.names, ?_⟩
  show (w'.sent ++ msgs).filterMap sightOf = (w.sent ++ msgs).filterMap sightOf
  rw [List.filterMap_append, List.filterMap_append, h.sights]

/-- A write that stores a position, after messages that show nothing. -/
theorem SameView.place {pos : Pos} (h : SameView w w') (hplayers : w'.players = w.players)
    (hp : w.players p = some player)
    (hspot : (f player).spot = { player.spot with x := pos.1, y := pos.2 })
    (hnames : ∀ player, (f player).names = player.names) :
    SameView (w.place p pos) (w'.modify p f) := by
  refine ⟨SamePlaces.place hplayers h.places.sectors h.places.playerList hp hspot, ?_, h.sights⟩
  have hplace : (w.place p pos).read Player.names = w.read Player.names :=
    read_modify fun _ => rfl
  rw [read_modify hnames, hplace, h.names]

/-- A position in the same tile is stored. -/
theorem ViewInv.place {pos : Pos} (I : ViewInv g w log) (hp : w.players p = some player)
    (htile : g.getSectorIndex pos.1.toNat pos.2.toNat =
      g.getSectorIndex player.x.toNat player.y.toNat) : ViewInv g (w.place p pos) log := by
  have hnames : (w.place p pos).read Player.names = w.read Player.names :=
    read_modify fun _ => rfl
  have hsector : (w.place p pos).sectorOf = w.sectorOf := by
    funext q
    by_cases hq : q = p
    · subst hq
      rw [World.sectorOf, World.sectorOf, place_players_self hp, hp]
      rfl
    · rw [World.sectorOf, World.sectorOf, place_players_ne hq]
  refine ⟨I.placed.place hp htile, I.nodup, ?_, ?_⟩
  · rw [hnames]
    exact I.told
  · rw [hsector]
    exact I.view

/-- What a call keeps: who is dead, and the agreement of the log with the places. -/
structure Kept (g : Grid) (w w' : World) : Prop where
  dead : w'.read Player.isDead = w.read Player.isDead
  inv : ∃ log, ViewInv g w' log

/-- A position is stored and the sector checked. -/
theorem ViewInv.checkSector {pos : Pos} (I : ViewInv g w log) (hdead : NoneDead w')
    (hp : w.players p = some player) (hsame : SameView (w.place p pos) w') :
    Outcome (Kept g w') (fun _ => True) (checkSector g w' p player.x player.y) := by
  have hspot := hsame.places.spots p
  rw [place_players_self hp] at hspot
  obtain ⟨player', hp', heq⟩ := Option.map_eq_some_iff.mp hspot
  simp only [Player.spot, Spot.mk.injEq] at heq
  obtain ⟨hx, hy, hsector, -⟩ := heq
  unfold GameLogic.checkSector
  rw [deref_ok hp']
  have hat : ∀ x y : UInt16, Outcome (fun i => g.getSectorIndex x.toNat y.toNat = some i)
      (fun _ => True) (g.sectorAt x.toNat y.toNat) := fun x y =>
    outcome_sectorAt.weaken (fun _ h => h) fun _ _ => trivial
  apply (hat player'.x player'.y).bind
  intro curr hcurr
  apply Outcome.ite
  · intro _
    unfold sectorUpdate
    rw [deref_ok hp']
    apply (hat player.x player.y).bind
    intro prev hprev
    apply (hat player'.x player'.y).bind
    intro curr' hcurr'
    have hself : ((w'.leave p prev).enter g p curr').players p =
        some { player' with currentSector := some curr' } := by
      rw [enter_players_self, leave_players_self, hp']
      rfl
    have hread : ((w'.leave p prev).enter g p curr').read Player.isDead =
        w'.read Player.isDead := by
      rw [read_enter fun _ _ => rfl, read_leave fun _ _ => rfl]
    apply (outcome_sectorMessages_tells hself (noneDead_of_read hread hdead)).bind
    intro msgs hmsgs
    have hupdated : ViewInv g ((((w.place p pos).leave p prev).enter g p curr').send msgs) _ :=
      I.update hp hprev ?_ rfl ?_
    · exact ⟨hread, _, hupdated.same hsame.leave.enter.send_both⟩
    · rw [← hx, ← hy]
      exact hcurr'
    · have hview := (hsame.leave (p := p) (i := prev)).enter (g := g) (p := p) (i := curr')
      have hnames : (((w.place p pos).leave p prev).enter g p curr').read Player.names =
          w.read Player.names := by
        rw [read_enter fun _ _ => rfl, read_leave fun _ _ => rfl]
        exact read_modify fun _ => rfl
      have hpos : ({ player' with currentSector := some curr' } : Player).pos = pos :=
        Prod.ext hx hy
      rw [hview.names, hnames, hpos] at hmsgs
      rw [changes, ← hview.places.sectors]
      exact hmsgs
  · intro hstays
    rw [not_not, hsector] at hstays
    obtain ⟨i, hi, -, hindex, -⟩ := I.placed.sectorOf hp
    cases hi.symm.trans hstays
    rw [hx, hy] at hcurr
    exact ⟨rfl, log, (I.place hp (hcurr.trans hindex.symm)).same hsame⟩

/-! ### Packets -/

/-- The end of both handlers: the sector is checked and the movement told to the neighbours. -/
theorem ViewInv.settle {pos : Pos} (I : ViewInv g w log) (msg : Player → ScMessage)
    (hdead : NoneDead w') (hp : w.players p = some player) (hsame : SameView (w.place p pos) w')
    (hmsg : ∀ player session, sightOf (session, msg player) = none) :
    Outcome (Kept g w') (fun _ => True) (do
      let w ← GameLogic.checkSector g w' p player.x player.y
      let moved ← w.deref p
      let msgs ← sendAOI g w p (msg moved) false
      return w.send msgs) := by
  apply (I.checkSector hdead hp hsame).bind
  intro w'' hkept
  obtain ⟨log', I'⟩ := hkept.inv
  apply outcome_deref_some.bind
  intro moved _
  apply (outcome_sendAOI_quiet (hmsg moved)).bind
  intro msgs hmsgs
  exact ⟨hkept.dead, log', I'.same (SameView.refl.send hmsgs)⟩

/-- `SC_SYNC` is sent or not, and a position stored. -/
theorem SameView.sync {pos : Pos} {c : Prop} [Decidable c] (hp : w.players p = some player)
    (hspot : (f player).spot = { player.spot with x := pos.1, y := pos.2 })
    (hnames : ∀ player, (f player).names = player.names) :
    SameView (w.place p pos)
      ((if c then w.send [syncMessage player] else w).modify p f) := by
  split
  · refine SameView.place (SameView.refl.send fun m hm => ?_) rfl hp hspot hnames
    rw [List.mem_singleton.mp hm]
    rfl
  · exact SameView.place SameView.refl rfl hp hspot hnames

theorem read_dead_sync {c : Prop} [Decidable c]
    (hf : ∀ player, (f player).isDead = player.isDead) :
    ((if c then w.send msgs else w).modify p f).read Player.isDead = w.read Player.isDead := by
  rw [read_modify hf]
  split
  · rfl
  · rfl

/-- The player is put on `movingPlayerList` or not. -/
theorem SameView.moving {c : Prop} [Decidable c] {l : List Nat} (h : SameView w w') :
    SameView w (if c then w' else { w' with movingPlayerList := l }) := by
  split
  · exact h
  · exact ⟨⟨h.places.spots, h.places.sectors, h.places.playerList⟩, h.names, h.sights⟩

theorem read_dead_moving {c : Prop} [Decidable c] {l : List Nat} :
    (if c then w else { w with movingPlayerList := l }).read Player.isDead =
      w.read Player.isDead := by
  split
  · rfl
  · rfl

/-- What `PacketProcMoveStart` stores in the player. -/
def start (player : Player) (move : CSMoveInfo) : Player :=
  { player with
    x := (startPosition player move).1
    y := (startPosition player move).2
    direction := move.direction
    isMoving := true
    faceDirection :=
      if move.direction ≠ dfPacketMoveDirDD ∧ move.direction ≠ dfPacketMoveDirUU then
        move.direction
      else player.faceDirection }

theorem ViewInv.packetProcMoveStart {packetBuffer : CPacket} {locals : Locals} (I : ViewInv g w log)
    (hdead : NoneDead w) (hp : w.players p = some player) :
    Outcome (Kept g w) (fun _ => True) (packetProcMoveStart g w p packetBuffer locals) := by
  unfold GameLogic.packetProcMoveStart
  rw [deref_ok hp]
  have hread := @read_dead_sync w p (fun player => start player (readMove packetBuffer locals))
    [syncMessage player] (tooFar player (readMove packetBuffer locals)) _ fun _ => rfl
  have hsame : SameView (w.place p (startPosition player (readMove packetBuffer locals)))
      ((if tooFar player (readMove packetBuffer locals) then w.send [syncMessage player]
        else w).modify p fun player => start player (readMove packetBuffer locals)) :=
    SameView.sync hp rfl fun _ => rfl
  refine Outcome.weaken (I.settle (fun moved =>
    .moveStart moved.playerId.characterId moved.direction moved.x moved.y)
    (noneDead_of_read (read_dead_moving.trans hread) hdead) hp hsame.moving fun _ _ => rfl) ?_
    fun _ h => h
  intro w'' hkept
  exact ⟨hkept.dead.trans (read_dead_moving.trans hread), hkept.inv⟩

theorem ViewInv.packetProcMoveStop {packetBuffer : CPacket} {locals : Locals} (I : ViewInv g w log)
    (hdead : NoneDead w) (hp : w.players p = some player) :
    Outcome (Kept g w) (fun _ => True) (packetProcMoveStop g w p packetBuffer locals) := by
  unfold GameLogic.packetProcMoveStop
  rw [deref_ok hp]
  have hread := @read_dead_sync w p (fun player => stop player (readMove packetBuffer locals))
    [syncMessage player] (mustSync player (readMove packetBuffer locals)) _ fun _ => rfl
  refine Outcome.weaken (I.settle (fun moved =>
    .moveStop moved.playerId.characterId moved.direction moved.x moved.y)
    (noneDead_of_read hread hdead) hp (SameView.sync hp rfl fun _ => rfl) fun _ _ => rfl) ?_
    fun _ h => h
  intro w'' hkept
  exact ⟨hkept.dead.trans hread, hkept.inv⟩

theorem ViewInv.processPacket {ipi : IncomingPacketInfo} {locals : Locals} {now : Int32}
    (I : ViewInv g w log) (hdead : NoneDead w) (hok : ViewOk w (.packet ipi locals now)) :
    Outcome (Kept g w) (fun _ => True) (processPacket g w ipi locals now) := by
  have hread : ∀ p, (received w p now).read Player.isDead = w.read Player.isDead := fun p =>
    read_modify fun _ => rfl
  have I' : ∀ p, ViewInv g (received w p now) log := fun p =>
    I.same (SameView.modify_self (fun _ => rfl) fun _ => rfl)
  have hkept : ∀ p w', Kept g (received w p now) w' → Kept g w w' := fun p w' h =>
    ⟨h.dead.trans (hread p), h.inv⟩
  have hnot : ¬(ipi.packetType ≠ dfPacketCsMoveStart ∧ ipi.packetType ≠ dfPacketCsMoveStop) := by
    rintro ⟨hstart, hstop⟩
    exact hok.elim hstart hstop
  refine outcome_packet trivial (fun _ => ⟨rfl, log, I⟩) ?_ ?_ ?_ ?_ ?_
  · intro p player hp _
    exact ((I' p).packetProcMoveStart (noneDead_of_read (hread p) hdead)
      (received_self hp.2.1)).weaken (hkept p) fun _ h => h
  · intro p player hp _
    exact ((I' p).packetProcMoveStop (noneDead_of_read (hread p) hdead)
      (received_self hp.2.1)).weaken (hkept p) fun _ h => h
  · intro attack p player _ htype
    rw [htype] at hnot
    exact absurd (by cases attack <;> decide) hnot
  · intro p player _ htype
    rw [htype] at hnot
    exact absurd (by decide) hnot
  · intro p player _ hstart hstop
    exact absurd ⟨hstart, fun h => hstop (Or.inl h)⟩ hnot

/-! ### The frame -/

/-- The new player stands in its sector, in `playerList` and in `activePlayerList`, and is told who
it is; then it and its neighbours are shown to each other. -/
theorem ViewInv.spawn {id : SessionId} {active : List Nat} {direction hp : UInt8} {x y : UInt16}
    {characterId : UInt32} (I : ViewInv g w log) (hdead : NoneDead w) (hnone : w.players p = none)
    (halive : player.isDead = false)
    (hi : g.getSectorIndex player.x.toNat player.y.toNat = some i) :
    Outcome (fun w' => ∃ log, ViewInv g w' log) (fun _ => True) (do
      let w := ((w.alloc p player).enter g p i).store p player.playerId.index
      let w := { w with activePlayerList := active }
      let w := w.send [(id, .createMyCharacter characterId direction x y hp)]
      let msgs ← makeSectorSpawnPackets g w p
      return w.send msgs) := by
  generalize hw₁ : ((w.alloc p player).enter g p i).store p player.playerId.index = w₁
  have hview : SameView w₁ ({ w₁ with activePlayerList := active }.send
      [(id, .createMyCharacter characterId direction x y hp)]) := by
    have hactive : SameView w₁ { w₁ with activePlayerList := active } :=
      ⟨⟨fun _ => rfl, rfl, rfl⟩, rfl, rfl⟩
    refine hactive.send fun m hm => ?_
    rw [List.mem_singleton.mp hm]
    rfl
  have hself : w₁.players p = some { player with currentSector := some i } := by
    rw [← hw₁, store_players, enter_players_self, alloc_players_self]
    rfl
  have hdead₁ : NoneDead w₁ := by
    intro q other hq
    by_cases hqp : q = p
    · subst hqp
      cases hself.symm.trans hq
      exact halive
    · rw [← hw₁, store_players, enter_players_ne hqp, alloc_players_ne hqp] at hq
      exact hdead q other hq
  have htold := @outcome_makeSectorSpawnPackets_tells g
    ({ w₁ with activePlayerList := active }.send
      [(id, .createMyCharacter characterId direction x y hp)]) p i _ hself hdead₁ rfl
  refine htold.bind fun msgs hmsgs => ?_
  exact ⟨_, (I.create hnone hi hw₁.symm hmsgs).same hview.send_both⟩

theorem ViewInv.createNewPlayer {id : SessionId} {randX randY : Nat} {now : Int32}
    {registered : Bool} (I : ViewInv g w log) (hdead : NoneDead w) :
    Outcome (fun w' => ∃ log, ViewInv g w' log) (fun _ => True)
      (createNewPlayer g w id p randX randY now registered) := by
  unfold GameLogic.createNewPlayer
  split
  · trivial
  · rename_i hp
    have I' : ViewInv g { w with uniqueCharacterId := w.uniqueCharacterId + 1 } log :=
      I.same ⟨⟨fun _ => rfl, rfl, rfl⟩, rfl, rfl⟩
    apply Outcome.ite
    · intro _
      exact ⟨log, I'⟩
    · intro _
      apply (outcome_sectorAt.weaken (fun _ h => h) fun _ _ => trivial).bind
      intro i hi
      exact I'.spawn hdead hp rfl hi

theorem ViewInv.checkAlive {timer : Int32} (I : ViewInv g w log) :
    Outcome (fun w' => ViewInv g w' log) (fun _ => True) (checkAlive timer w p) := by
  unfold GameLogic.checkAlive
  apply outcome_deref_some.bind
  intro player _
  apply Outcome.ite
  · intro _
    exact I.same (SameView.modify_self (fun _ => rfl) fun _ => rfl)
  · intro _
    exact I

theorem ViewInv.movePlayer (I : ViewInv g w log) (hdead : NoneDead w) :
    Outcome (Kept g w) (fun _ => True) (movePlayer g w p) := by
  unfold GameLogic.movePlayer
  apply outcome_deref_some.bind
  intro player hp
  have hread : (w.modify p fun player => { player with
      x := (tickPosition player).1, y := (tickPosition player).2 }).read Player.isDead =
      w.read Player.isDead := read_modify fun _ => rfl
  have hsame : SameView (w.place p (tickPosition player)) (w.modify p fun player => { player with
      x := (tickPosition player).1, y := (tickPosition player).2 }) :=
    SameView.place SameView.refl rfl hp rfl fun _ => rfl
  refine Outcome.weaken (I.checkSector (noneDead_of_read hread hdead) hp hsame) ?_ fun _ h => h
  intro w'' hkept
  exact ⟨hkept.dead.trans hread, hkept.inv⟩

/-- A move leaves everybody alive or dead. -/
theorem outcome_checkSector_dead {prevX prevY : UInt16} :
    Outcome (fun w' => w'.read Player.isDead = w.read Player.isDead) (fun _ => True)
      (checkSector g w p prevX prevY) := by
  refine outcome_checkSector_moved rfl fun prev curr msgs => ?_
  show ((w.leave p prev).enter g p curr).read Player.isDead = _
  rw [read_enter fun _ _ => rfl, read_leave fun _ _ => rfl]

theorem outcome_movePlayer_dead :
    Outcome (fun w' => w'.read Player.isDead = w.read Player.isDead) (fun _ => True)
      (movePlayer g w p) := by
  unfold GameLogic.movePlayer
  apply outcome_any.bind
  intro player _
  refine Outcome.weaken outcome_checkSector_dead ?_ fun _ h => h
  intro w' hread
  exact hread.trans (read_modify fun _ => rfl)

theorem ViewInv.updateGameWorld {timer : Int32} (I : ViewInv g w log) :
    Outcome (fun w' => NoneDead w' → ∃ log, ViewInv g w' log) (fun _ => True)
      (updateGameWorld g w timer) := by
  unfold GameLogic.updateGameWorld
  apply (Outcome.foldlM (I := fun w => ViewInv g w log) I fun w i I _ => I.checkAlive).bind
  intro w I
  have hcursor : ∀ c : Prop, [Decidable c] → ∀ n,
      ViewInv g (if c then { w with aliveCheckCursor := n } else w) log := by
    intro c _ n
    split
    · exact I.same ⟨⟨fun _ => rfl, rfl, rfl⟩, rfl, rfl⟩
    · exact I
  have hend : ∀ s : World × Nat, ∀ c : Prop, [Decidable c] → ∀ n,
      (if c then { s.1 with moveCursor := n } else s.1).read Player.isDead =
        s.1.read Player.isDead ∧
      SameView s.1 (if c then { s.1 with moveCursor := n } else s.1) := by
    intro s c _ n
    split
    · exact ⟨rfl, ⟨fun _ => rfl, rfl, rfl⟩, rfl, rfl⟩
    · exact ⟨rfl, SameView.refl⟩
  by_cases hdead : NoneDead w
  · -- nobody dies in the second loop, so every move keeps the invariant
    refine (Outcome.foldlM (I := fun s => s.1.read Player.isDead = w.read Player.isDead ∧
      ∃ log, ViewInv g s.1 log) ⟨?_, _, hcursor _ _⟩ fun s i hs _ => ?_).bind ?_
    · split <;> rfl
    · obtain ⟨hread, log, I⟩ := hs
      refine outcome_moveEntry (P := fun w' => w'.read Player.isDead = w.read Player.isDead ∧
        ∃ log, ViewInv g w' log) (fun _ _ => trivial) ⟨hread, log, I⟩ fun p => ?_
      refine (I.movePlayer (noneDead_of_read hread hdead)).weaken ?_ fun _ h => h
      intro w' hkept
      exact ⟨hkept.dead.trans hread, hkept.inv⟩
    · rintro s ⟨-, log, I⟩ -
      exact ⟨log, I.same (hend s _ _).2⟩
  · -- who is dead behind the first loop is dead in the end
    refine (Outcome.foldlM (I := fun s => s.1.read Player.isDead = w.read Player.isDead) ?_
      fun s i hread _ => ?_).bind ?_
    · split <;> rfl
    · refine outcome_moveEntry (P := fun w' => w'.read Player.isDead = w.read Player.isDead)
        (fun _ _ => trivial) hread fun p => ?_
      exact outcome_movePlayer_dead.weaken (fun w' h => h.trans hread) fun _ h => h
    · intro s hread halive
      exact absurd (noneDead_of_read ((hend s _ _).1.trans hread).symm halive) hdead

/-- **Every call keeps the agreement between the log and the places.** -/
theorem ViewInv.step {a : Action} (I : ViewInv g w log) (hdead : NoneDead w) (hok : ViewOk w a)
    (h : ViewStep g w a w') : ∃ log, ViewInv g w' log := by
  obtain ⟨hstep, hdead'⟩ := h
  cases a with
  | createNewPlayer id p randX randY now registered => exact (I.createNewPlayer hdead).of_ok hstep
  | packet ipi locals now => exact ((I.processPacket hdead hok).of_ok hstep).inv
  | updateGameWorld timer => exact I.updateGameWorld.of_ok hstep hdead'
  | flushFrame => exact hok.elim
  | requestDestroyPlayer id => exact hok.elim

/-! ## Runs -/

theorem ViewInv.init (uniqueCharacterId : UInt32) :
    ViewInv g (GameLogic.init uniqueCharacterId) [] :=
  ⟨Placed.init uniqueCharacterId, fun _ => List.nodup_nil, rfl, fun _ _ _ _ _ h => by cases h⟩

/-- **Client view.**  In every run in which players come, start, move and stop and nobody dies, the
messages sent are those of a log in which the creations of `B` for `A` less the deletions are 1 if
`B`'s sector is one of the up to nine around `A`'s and 0 otherwise. -/
theorem run_clientView {uniqueCharacterId : UInt32} {as : List Action}
    (hr : Run (ViewStep g) ViewOk (init uniqueCharacterId) as w) : ∃ log, ClientView g w log := by
  obtain ⟨-, log, I⟩ : NoneDead w ∧ ∃ log, ViewInv g w log :=
    hr.invariant (I := fun w => NoneDead w ∧ ∃ log, ViewInv g w log)
      ⟨fun _ _ h => (by cases h), [], ViewInv.init uniqueCharacterId⟩
      fun _ _ _ ⟨hdead, log, I⟩ hok hstep => ⟨hstep.2, I.step hdead hok hstep⟩
  exact ⟨log, I.clientView⟩

/-- Two players two tiles apart; the first walks into the tile between. -/
theorem run_clientView_two_players :
    ∃ w, Run (ViewStep .appending) ViewOk (init 0)
        [.createNewPlayer ⟨0, 1⟩ 1 126 0 0 true, .createNewPlayer ⟨1, 2⟩ 2 300 0 0 true,
          .packet ⟨⟨0, 1⟩, .ofBytes [4, 130, 0, 1, 0], 10⟩ ⟨0, 0, 0, 0⟩ 0,
          .updateGameWorld 0] w ∧
      w.sectors 1 = [1] ∧ w.sectors 2 = [2] ∧ ∃ log, ClientView .appending w log := by
  obtain ⟨w, hrun, hfirst, hsecond⟩ : ∃ w, Run (ViewStep .appending) ViewOk (init 0)
        [.createNewPlayer ⟨0, 1⟩ 1 126 0 0 true, .createNewPlayer ⟨1, 2⟩ 2 300 0 0 true,
          .packet ⟨⟨0, 1⟩, .ofBytes [4, 130, 0, 1, 0], 10⟩ ⟨0, 0, 0, 0⟩ 0,
          .updateGameWorld 0] w ∧ w.sectors 1 = [1] ∧ w.sectors 2 = [2] := by
    refine ⟨_, .cons ⟨rfl, ?_⟩ trivial <| .cons ⟨rfl, ?_⟩ trivial <|
      .cons ⟨rfl, ?_⟩ (Or.inl rfl) <| .cons ⟨rfl, ?_⟩ trivial .nil, rfl, rfl⟩
    all_goals
      rintro (_ | _ | _ | p) player hp <;> cases hp <;> rfl
  exact ⟨w, hrun, hfirst, hsecond, run_clientView hrun⟩

end GameLogic

end IocpServer
