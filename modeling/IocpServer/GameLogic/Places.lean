import IocpServer.GameLogic.Calls

/-!
# What the calls do to places

Most of what the logic thread writes has nothing to do with where players stand.  `SamePlaces`
says that two worlds agree on that; `PlaceInvariant` lists the few things that change it, with the
positions that may be stored (`Move` where a sector check follows, `Attack` where none does).

* `PlaceInvariant.calls` — packets and ticks change no more.
* `PlaceInvariant.step` — **a property that survives these survives every call.**
-/

set_option autoImplicit false

namespace IocpServer

open Lib

namespace GameLogic

/-- The two worlds agree on who stands where. -/
structure SamePlaces (w w' : World) : Prop where
  spots : ∀ p, (w'.players p).map Player.spot = (w.players p).map Player.spot
  sectors : w'.sectors = w.sectors
  playerList : w'.playerList = w.playerList

/-- Store a position. -/
def World.place (w : World) (p : Nat) (pos : UInt16 × UInt16) : World :=
  w.modify p fun player => { player with x := pos.1, y := pos.2 }

variable {g : Grid} {w w' : World} {p q i : Nat} {player : Player} {f : Player → Player}
  {msgs : List Sending}

theorem place_players_self {pos : UInt16 × UInt16} (hp : w.players p = some player) :
    (w.place p pos).players p = some { player with x := pos.1, y := pos.2 } := by
  rw [World.place, modify_players_self, hp]
  rfl

theorem place_players_ne {pos : UInt16 × UInt16} (h : q ≠ p) :
    (w.place p pos).players q = w.players q :=
  modify_players_ne h

theorem SamePlaces.refl : SamePlaces w w := ⟨fun _ => rfl, rfl, rfl⟩

theorem SamePlaces.send (h : SamePlaces w w') : SamePlaces w (w'.send msgs) :=
  ⟨h.spots, h.sectors, h.playerList⟩

/-- A write that stores a position. -/
theorem SamePlaces.place {pos : UInt16 × UInt16} (hplayers : w'.players = w.players)
    (hsectors : w'.sectors = w.sectors) (hlist : w'.playerList = w.playerList)
    (hp : w.players p = some player)
    (hf : (f player).spot = { player.spot with x := pos.1, y := pos.2 }) :
    SamePlaces (w.place p pos) (w'.modify p f) := by
  refine ⟨fun q => ?_, hsectors, hlist⟩
  by_cases hqp : q = p
  · subst hqp
    rw [World.place, modify_players_self, modify_players_self, hplayers, hp]
    exact congrArg some hf
  · rw [World.place, modify_players_ne hqp, modify_players_ne hqp, hplayers]

/-- One write to two worlds that agree. -/
theorem SamePlaces.modify (h : SamePlaces w w') (hf : ∀ player player' : Player,
    player.spot = player'.spot → (f player).spot = (f player').spot) :
    SamePlaces (w.modify p f) (w'.modify p f) := by
  refine ⟨fun q => ?_, h.sectors, h.playerList⟩
  have hq := h.spots q
  by_cases hqp : q = p
  · subst hqp
    rw [modify_players_self, modify_players_self]
    cases hw : w.players q with
    | none =>
      rw [hw] at hq
      rw [Option.map_eq_none_iff.mp hq]
    | some player =>
      rw [hw] at hq
      obtain ⟨player', hw', heq⟩ := Option.map_eq_some_iff.mp hq
      rw [hw']
      exact congrArg some (hf player' player heq)
  · rw [modify_players_ne hqp, modify_players_ne hqp]
    exact hq

theorem SamePlaces.leave (h : SamePlaces w w') : SamePlaces (w.leave p i) (w'.leave p i) := by
  have hsectors := h.sectors
  apply SamePlaces.modify
  · refine ⟨h.spots, ?_, h.playerList⟩
    simp only [hsectors]
  · intro player player' heq
    simp only [Player.spot, Spot.mk.injEq] at heq ⊢
    exact ⟨heq.1, heq.2.1, trivial, heq.2.2.2⟩

theorem SamePlaces.enter (h : SamePlaces w w') : SamePlaces (w.enter g p i) (w'.enter g p i) := by
  have hsectors := h.sectors
  apply SamePlaces.modify
  · refine ⟨h.spots, ?_, h.playerList⟩
    simp only [hsectors]
  · intro player player' heq
    simp only [Player.spot, Spot.mk.injEq] at heq ⊢
    exact ⟨heq.1, heq.2.1, trivial, heq.2.2.2⟩

/-- A write that leaves a player's place alone. -/
theorem SamePlaces.modify_self (hf : ∀ player : Player, (f player).spot = player.spot) :
    SamePlaces w (w.modify p f) := by
  refine ⟨fun q => ?_, rfl, rfl⟩
  by_cases hqp : q = p
  · subst hqp
    rw [modify_players_self, Option.map_map]
    congr 1
    funext player
    exact hf player
  · rw [modify_players_ne hqp]

theorem SamePlaces.players (h : SamePlaces w w') (hp : w'.players p = some player) :
    ∃ player', w.players p = some player' ∧ player'.spot = player.spot := by
  have hq := h.spots p
  rw [hp] at hq
  obtain ⟨player', hp', heq⟩ := Option.map_eq_some_iff.mp hq.symm
  exact ⟨player', hp', heq⟩

/-- A stored position. -/
theorem Stored.places {new : Pos} (h : Stored w p player new w')
    (hp : w.players p = some player) : SamePlaces (w.place p new) w' := by
  obtain ⟨msgs, f, hf, -, rfl | rfl⟩ := h
  · exact SamePlaces.place rfl rfl rfl hp hf
  · have hplaced : SamePlaces (w.place p new) ((w.send msgs).modify p f) :=
      SamePlaces.place rfl rfl rfl hp hf
    exact ⟨hplaced.spots, rfl, rfl⟩

/-- What a property of places has to survive.  `Move old new` and `Attack old new` are the
positions that may be stored. -/
structure PlaceInvariant (g : Grid) (J : World → Prop) (E : Fault → Prop)
    (Move Attack : Pos → Pos → Prop) : Prop where
  fault : ∀ e, e ≠ .sectorIndex → E e
  same : ∀ w w', SamePlaces w w' → J w → J w'
  /-- The tick. -/
  stay : ∀ w p player, J w → w.players p = some player → Move player.pos player.pos
  tick : ∀ old new, new.1.toNat < 6400 → new.2.toNat < 6400 → Move old new
  /-- A position is stored and the sector checked. -/
  move : ∀ w w' p player new, J w → w.players p = some player → Move player.pos new →
    SamePlaces (w.place p new) w' → Outcome J E (checkSector g w' p player.x player.y)
  /-- A position is stored and the sector not checked. -/
  attack : ∀ w p player new, J w → w.players p = some player → Attack player.pos new →
    J (w.place p new)
  /-- A new player enters its sector. -/
  create : ∀ w p player, J w → w.players p = none → player.x.toNat < 6400 → player.y.toNat < 6400 →
    Outcome (fun i => J (((w.alloc p player).enter g p i).store p player.playerId.index)) E
      (g.sectorAt player.x.toNat player.y.toNat)
  /-- A stored player leaves its sector and is freed. -/
  remove : ∀ w j p player, J w → w.playerList j = some p → w.players p = some player →
    J ((w.leaveSector p player).free p player.playerId.index)

section

variable {J : World → Prop} {E : Fault → Prop} {Move Attack : Pos → Pos → Prop}

/-- Packets and ticks keep it. -/
theorem PlaceInvariant.calls (K : PlaceInvariant g J E Move Attack) :
    CallInvariant g J E Move Attack where
  fault := K.fault
  send := fun w _ hJ => K.same w _ SamePlaces.refl.send hJ
  write := fun w _ _ hf hJ => K.same w _ (SamePlaces.modify_self fun player => (hf player).1) hJ
  cursors := fun w _ _ hJ => K.same w _ ⟨fun _ => rfl, rfl, rfl⟩ hJ
  stay := K.stay
  tick := K.tick
  move := fun w w' p player new hJ hp hmove hstored =>
    K.move w w' p player new hJ hp hmove (hstored.places hp)
  attack := fun w w' p player new hJ hp hattack hstored =>
    K.same _ w' (hstored.places hp) (K.attack w p player new hJ hp hattack)

theorem PlaceInvariant.createNewPlayer {id : SessionId} {randX randY : Nat} {now : Int32}
    {registered : Bool} (K : PlaceInvariant g J E Move Attack) (hJ : J w) :
    Outcome J E (createNewPlayer g w id p randX randY now registered) := by
  unfold GameLogic.createNewPlayer
  split
  · exact K.fault _ (by decide)
  · rename_i hp
    have hJ' : J { w with uniqueCharacterId := w.uniqueCharacterId + 1 } :=
      K.same w _ ⟨fun _ => rfl, rfl, rfl⟩ hJ
    apply Outcome.ite
    · intro _
      exact hJ'
    · intro _
      obtain ⟨hx, hy⟩ := newPlayer_bounds w id randX randY now
      apply (K.create _ p _ hJ' hp hx hy).bind
      intro i hi
      refine K.calls.broadcast (K.same _ _ ?_ hi) outcome_makeSectorSpawnPackets
      exact ⟨fun _ => rfl, rfl, rfl⟩

theorem PlaceInvariant.requestDestroyPlayer {id : SessionId} (K : PlaceInvariant g J E Move Attack)
    (hJ : J w) : Outcome J E (requestDestroyPlayer w id) := by
  unfold GameLogic.requestDestroyPlayer
  split
  · exact hJ
  · rename_i p _
    apply (K.calls.read outcome_deref).bind
    intro player _
    have hmark : SamePlaces w (w.modify p fun player =>
        { player with isDead := true, isDestroyRequest := true }) :=
      SamePlaces.modify_self fun _ => rfl
    exact K.same w _ ⟨hmark.spots, rfl, rfl⟩ hJ

theorem PlaceInvariant.scanDead (K : PlaceInvariant g J E Move Attack) (hJ : J w) :
    Outcome J E (scanDead w p) := by
  unfold GameLogic.scanDead
  apply (K.calls.read outcome_deref).bind
  intro player _
  apply Outcome.ite
  · intro _
    have hmark : SamePlaces w (w.modify p fun player => { player with isDestroyRequest := true }) :=
      SamePlaces.modify_self fun _ => rfl
    exact K.same w _ ⟨hmark.spots, rfl, rfl⟩ hJ
  · intro _
    exact hJ

theorem PlaceInvariant.purgeMoving (K : PlaceInvariant g J E Move Attack) (hJ : J w) :
    Outcome J E (purgeMoving w) := by
  unfold GameLogic.purgeMoving
  apply (Outcome.mapM fun q _ => ?_).bind
  · intro moving _
    exact K.same w _ ⟨fun _ => rfl, rfl, rfl⟩ hJ
  · apply (K.calls.read outcome_deref).bind
    intro player _
    trivial

theorem PlaceInvariant.destroyPlayer {id : SessionId} (K : PlaceInvariant g J E Move Attack)
    (hJ : J w) : Outcome J E (destroyPlayer g w id) := by
  unfold GameLogic.destroyPlayer
  split
  · exact K.fault _ (by decide)
  · rename_i p hlist
    cases hp : w.players p with
    | none =>
      rw [deref_none hp]
      exact K.fault _ (by decide)
    | some player =>
      rw [deref_ok hp]
      apply (K.calls.read outcome_sendAOI).bind
      intro msgs _
      have hsent : J (w.send msgs) := K.same _ _ SamePlaces.refl.send hJ
      have hremoved := K.remove (w.send msgs) id.index p player hsent hlist hp
      exact K.same (((w.send msgs).leaveSector p player).free p player.playerId.index) _
        ⟨fun _ => rfl, rfl, rfl⟩ hremoved

theorem PlaceInvariant.flushFrame (K : PlaceInvariant g J E Move Attack) (hJ : J w) :
    Outcome J E (flushFrame g w) := by
  unfold GameLogic.flushFrame
  apply (Outcome.foldlM hJ fun w p hJ _ => K.scanDead hJ).bind
  intro w hJ
  apply (K.purgeMoving hJ).bind
  intro w hJ
  apply (Outcome.foldlM hJ fun w id hJ _ => K.destroyPlayer hJ).bind
  intro w hJ
  exact K.same w _ ⟨fun _ => rfl, rfl, rfl⟩ hJ

/-- **Every call keeps a place invariant.** -/
theorem PlaceInvariant.step {a : Action} (K : PlaceInvariant g J E Move Attack) (hJ : J w)
    (hok : PacketOk Move Attack w a) : Outcome J E (step g w a) := by
  cases a with
  | createNewPlayer id p randX randY now registered => exact K.createNewPlayer hJ
  | packet ipi locals now => exact K.calls.processPacket hJ hok
  | updateGameWorld timer => exact K.calls.updateGameWorld hJ
  | flushFrame => exact K.flushFrame hJ
  | requestDestroyPlayer id => exact K.requestDestroyPlayer hJ

end

end GameLogic

end IocpServer
