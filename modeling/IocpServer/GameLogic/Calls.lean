import IocpServer.GameLogic.Dispatch
import IocpServer.GameLogic.Frame

/-!
# What packets and ticks write

A packet and a tick store a position in one player, mark players in ways that have nothing to do
with places, send, and move the cursors.  `CallInvariant` lists these writes, with the positions
that may be stored (`Move` where a sector check follows, `Attack` where none does).

* `Stored` — a position is stored; `Quiet` — a write that stores none.
* `CallInvariant.processPacket`, `CallInvariant.updateGameWorld` — **a property that survives the
  writes survives every packet and every tick.**
-/

set_option autoImplicit false

namespace IocpServer

open Lib

namespace GameLogic

/-- Where a player stands, and under which id. -/
structure Spot where
  x : UInt16
  y : UInt16
  currentSector : Option Nat
  playerId : PlayerId

def Player.spot (player : Player) : Spot :=
  ⟨player.x, player.y, player.currentSector, player.playerId⟩

/-- A position. -/
abbrev Pos := UInt16 × UInt16

def Player.pos (player : Player) : Pos := (player.x, player.y)

/-- A write that moves nobody and brings nobody back to life. -/
def Quiet (f : Player → Player) : Prop :=
  ∀ player, (f player).spot = player.spot ∧ (player.isDead = true → (f player).isDead = true)

/-- The position `new` is stored in the player at `p`, who may have been sent `SC_SYNC` and may have
been put on `movingPlayerList`. -/
def Stored (w : World) (p : Nat) (player : Player) (new : Pos) (w' : World) : Prop :=
  ∃ msgs f, (f player).spot = { player.spot with x := new.1, y := new.2 } ∧
    (∀ other : Player, other.isDead = true → (f other).isDead = true) ∧
    (w' = (w.send msgs).modify p f ∨
      w' = { (w.send msgs).modify p f with movingPlayerList := w.movingPlayerList ++ [p] })

/-- What a property has to survive in packets and ticks.  `Move old new` and `Attack old new` are
the positions that may be stored. -/
structure CallInvariant (g : Grid) (J : World → Prop) (E : Fault → Prop)
    (Move Attack : Pos → Pos → Prop) : Prop where
  fault : ∀ e, e ≠ .sectorIndex → E e
  send : ∀ w msgs, J w → J (w.send msgs)
  write : ∀ w p f, Quiet f → J w → J (w.modify p f)
  cursors : ∀ w a m, J w → J { w with aliveCheckCursor := a, moveCursor := m }
  /-- The tick. -/
  stay : ∀ w p player, J w → w.players p = some player → Move player.pos player.pos
  tick : ∀ old new, new.1.toNat < 6400 → new.2.toNat < 6400 → Move old new
  /-- A position is stored and the sector checked. -/
  move : ∀ w w' p player new, J w → w.players p = some player → Move player.pos new →
    Stored w p player new w' → Outcome J E (checkSector g w' p player.x player.y)
  /-- A position is stored and the sector not checked. -/
  attack : ∀ w w' p player new, J w → w.players p = some player → Attack player.pos new →
    Stored w p player new w' → J w'

/-- What a property has to survive where no position is stored. -/
structure WriteInvariant (J : World → Prop) (E : Fault → Prop) : Prop where
  fault : ∀ e, e ≠ .sectorIndex → E e
  send : ∀ w msgs, J w → J (w.send msgs)
  write : ∀ w p f, Quiet f → J w → J (w.modify p f)

theorem CallInvariant.writes {g : Grid} {J : World → Prop} {E : Fault → Prop}
    {Move Attack : Pos → Pos → Prop} (K : CallInvariant g J E Move Attack) : WriteInvariant J E :=
  ⟨K.fault, K.send, K.write⟩

/-- The positions a step stores may be stored. -/
def PacketOk (Move Attack : Pos → Pos → Prop) (w : World) : Action → Prop
  | .packet ipi locals _ =>
    ∀ p player, Addressed w ipi p player →
      (ipi.packetType = dfPacketCsMoveStart →
        Move player.pos (startPosition player (readMove ipi.packetBuffer locals))) ∧
      (ipi.packetType = dfPacketCsMoveStop →
        Move player.pos (stopPosition player (readMove ipi.packetBuffer locals))) ∧
      (ipi.packetType = dfPacketCsAttack1 ∨ ipi.packetType = dfPacketCsAttack2 ∨
          ipi.packetType = dfPacketCsAttack3 →
        Attack player.pos (stopPosition player (readMove ipi.packetBuffer locals)))
  | _ => True

variable {g : Grid} {w w' : World} {p q i : Nat} {player : Player} {f : Player → Player}
  {msgs : List Sending}

/-- Any position may be stored. -/
theorem packetOk_any {a : Action} : PacketOk (fun _ _ => True) (fun _ _ => True) w a := by
  cases a with
  | packet ipi locals now =>
    exact fun _ _ _ => ⟨fun _ => trivial, fun _ => trivial, fun _ => trivial⟩
  | _ => trivial

/-! ## Stored positions -/

@[simp] theorem send_nil : w.send [] = w := by
  simp [World.send]

/-- `SC_SYNC` is sent or not. -/
theorem send_if (c : Prop) [Decidable c] :
    (if c then w.send msgs else w) = w.send (if c then msgs else []) := by
  split <;> simp

theorem Stored.plain {new : Pos}
    (hf : (f player).spot = { player.spot with x := new.1, y := new.2 })
    (hdead : ∀ other : Player, other.isDead = true → (f other).isDead = true) :
    Stored w p player new (w.modify p f) :=
  ⟨[], f, hf, hdead, Or.inl (by rw [send_nil])⟩

/-- After `SC_SYNC`. -/
theorem Stored.sync {new : Pos} {c : Prop} [Decidable c]
    (hf : (f player).spot = { player.spot with x := new.1, y := new.2 })
    (hdead : ∀ other : Player, other.isDead = true → (f other).isDead = true) :
    Stored w p player new ((if c then w.send msgs else w).modify p f) :=
  ⟨_, f, hf, hdead, Or.inl (by rw [send_if])⟩

/-- `PacketProcMoveStart` adds the player to `movingPlayerList` unless it moves. -/
theorem Stored.start {new : Pos} {c moving : Prop} [Decidable c] [Decidable moving]
    (hf : (f player).spot = { player.spot with x := new.1, y := new.2 })
    (hdead : ∀ other : Player, other.isDead = true → (f other).isDead = true) :
    Stored w p player new (if moving then (if c then w.send msgs else w).modify p f else
      { (if c then w.send msgs else w).modify p f with
        movingPlayerList :=
          ((if c then w.send msgs else w).modify p f).movingPlayerList ++ [p] }) := by
  refine ⟨if c then msgs else [], f, hf, hdead, ?_⟩
  rw [send_if]
  split
  · exact Or.inl rfl
  · exact Or.inr rfl

/-! ## Packets -/

section

variable {J : World → Prop} {E : Fault → Prop} {Move Attack : Pos → Pos → Prop}
  {packetBuffer : CPacket} {locals : Locals} {attack : AttackType}

theorem WriteInvariant.read {α : Type} {x : Except Fault α} (K : WriteInvariant J E)
    (h : Outcome (fun _ => True) (· ≠ .sectorIndex) x) : Outcome (fun _ => True) E x :=
  h.weaken (fun _ h => h) K.fault

/-- A call that sends to the sectors around a player. -/
theorem WriteInvariant.broadcast (K : WriteInvariant J E) (hJ : J w)
    {x : Except Fault (List Sending)} (hx : Outcome (fun _ => True) (· ≠ .sectorIndex) x) :
    Outcome J E (do let msgs ← x; return w.send msgs) := by
  apply (K.read hx).bind
  intro msgs _
  exact K.send w msgs hJ

theorem CallInvariant.read {α : Type} {x : Except Fault α} (K : CallInvariant g J E Move Attack)
    (h : Outcome (fun _ => True) (· ≠ .sectorIndex) x) : Outcome (fun _ => True) E x :=
  K.writes.read h

theorem CallInvariant.broadcast (K : CallInvariant g J E Move Attack) (hJ : J w)
    {x : Except Fault (List Sending)} (hx : Outcome (fun _ => True) (· ≠ .sectorIndex) x) :
    Outcome J E (do let msgs ← x; return w.send msgs) :=
  K.writes.broadcast hJ hx

theorem CallInvariant.packetProcMoveStart (K : CallInvariant g J E Move Attack) (hJ : J w)
    (hp : w.players p = some player)
    (hmove : Move player.pos (startPosition player (readMove packetBuffer locals))) :
    Outcome J E (packetProcMoveStart g w p packetBuffer locals) := by
  unfold GameLogic.packetProcMoveStart
  rw [deref_ok hp]
  refine (K.move w _ p player _ hJ hp hmove (Stored.start ?_ ?_)).bind ?_
  · rfl
  · exact fun _ hd => hd
  · intro w' hJ'
    apply (K.read outcome_deref).bind
    intro moved _
    exact K.broadcast hJ' outcome_sendAOI

theorem CallInvariant.packetProcMoveStop (K : CallInvariant g J E Move Attack) (hJ : J w)
    (hp : w.players p = some player)
    (hmove : Move player.pos (stopPosition player (readMove packetBuffer locals))) :
    Outcome J E (packetProcMoveStop g w p packetBuffer locals) := by
  unfold GameLogic.packetProcMoveStop
  rw [deref_ok hp]
  refine (K.move w _ p player _ hJ hp hmove (Stored.sync ?_ ?_)).bind ?_
  · rfl
  · exact fun _ hd => hd
  · intro w' hJ'
    apply (K.read outcome_deref).bind
    intro moved _
    exact K.broadcast hJ' outcome_sendAOI

theorem outcome_findTarget {left : Bool} {qs : List Nat} :
    Outcome (fun _ => True) (· ≠ .sectorIndex) (findTarget w attack left player qs) := by
  induction qs with
  | nil => trivial
  | cons q qs ih =>
    apply outcome_deref.bind
    intro other _
    apply Outcome.ite
    · intro _
      trivial
    · intro _
      exact ih

theorem WriteInvariant.strike (K : WriteInvariant J E) (hJ : J w) :
    Outcome J E (strike g w attack player q) := by
  unfold GameLogic.strike
  apply (K.read outcome_deref).bind
  intro other _
  refine K.broadcast (K.write w q _ ?_ hJ) outcome_sendAOI
  exact fun _ => ⟨rfl, fun hd => hd⟩

theorem WriteInvariant.strikeAhead {left : Bool} (K : WriteInvariant J E) (hJ : J w) :
    Outcome J E (strikeAhead g w attack left player) := by
  unfold GameLogic.strikeAhead
  dsimp only
  split
  · exact hJ
  · apply (K.read outcome_findTarget).bind
    intro target _
    cases target with
    | none => exact hJ
    | some q => exact K.strike hJ

/-- `CheckDamagedPlayer` stores no position. -/
theorem WriteInvariant.checkDamagedPlayer (K : WriteInvariant J E) (hJ : J w) :
    Outcome J E (checkDamagedPlayer g w p attack) := by
  unfold GameLogic.checkDamagedPlayer
  apply (K.read outcome_deref).bind
  intro player _
  split
  · exact hJ
  · apply (K.read outcome_sector).bind
    intro i _
    apply (K.read outcome_findTarget).bind
    intro target _
    cases target with
    | none => exact K.strikeAhead hJ
    | some q => exact K.strike hJ

theorem CallInvariant.packetProcAttack (K : CallInvariant g J E Move Attack) (hJ : J w)
    (hp : w.players p = some player)
    (hattack : Attack player.pos (stopPosition player (readMove packetBuffer locals))) :
    Outcome J E (packetProcAttack attack g w p packetBuffer locals) := by
  unfold GameLogic.packetProcAttack
  rw [deref_ok hp]
  apply (K.read outcome_deref).bind
  intro moved _
  apply (K.read outcome_sendAOI).bind
  intro msgs _
  refine K.writes.checkDamagedPlayer (K.send _ msgs (K.attack w _ p player _ hJ hp hattack ?_))
  exact Stored.sync rfl fun _ hd => hd

theorem CallInvariant.packetProcEcho (K : CallInvariant g J E Move Attack) (hJ : J w) :
    Outcome J E (packetProcEcho w p packetBuffer locals) := by
  unfold GameLogic.packetProcEcho
  apply (K.read outcome_deref).bind
  intro player _
  exact K.send _ _ hJ

theorem CallInvariant.processPacket {ipi : IncomingPacketInfo} {now : Int32}
    (K : CallInvariant g J E Move Attack) (hJ : J w)
    (hok : PacketOk Move Attack w (.packet ipi locals now)) :
    Outcome J E (processPacket g w ipi locals now) := by
  have hJ' : ∀ p, J (received w p now) := fun p =>
    K.write w p _ (fun _ => ⟨rfl, fun hd => hd⟩) hJ
  refine outcome_packet (K.fault _ (by decide)) (fun _ => hJ) ?_ ?_ ?_ ?_ ?_
  · intro p player hp htype
    exact K.packetProcMoveStart (hJ' p) (received_self hp.2.1) ((hok p player hp).1 htype)
  · intro p player hp htype
    exact K.packetProcMoveStop (hJ' p) (received_self hp.2.1) ((hok p player hp).2.1 htype)
  · intro attack p player hp htype
    refine K.packetProcAttack (hJ' p) (received_self hp.2.1) ((hok p player hp).2.2 ?_)
    rw [htype]
    cases attack <;> simp [AttackType.packetType]
  · intro p player hp _
    exact K.packetProcEcho (hJ' p)
  · intro p player hp _ _
    exact hJ' p

/-! ## The tick -/

theorem CallInvariant.checkAlive {timer : Int32} (K : CallInvariant g J E Move Attack)
    (hJ : J w) : Outcome J E (checkAlive timer w p) := by
  unfold GameLogic.checkAlive
  apply (K.read outcome_deref).bind
  intro player _
  apply Outcome.ite
  · intro _
    exact K.write w p _ (fun _ => ⟨rfl, fun _ => rfl⟩) hJ
  · intro _
    exact hJ

theorem CallInvariant.movePlayer (K : CallInvariant g J E Move Attack) (hJ : J w) :
    Outcome J E (movePlayer g w p) := by
  unfold GameLogic.movePlayer
  cases hp : w.players p with
  | none =>
    rw [deref_none hp]
    exact K.fault _ (by decide)
  | some player =>
    rw [deref_ok hp]
    have hmove : Move player.pos (tickPosition player) := by
      rcases tickPosition_bounds player with h | ⟨hx, hy⟩
      · rw [h]
        exact K.stay w p player hJ hp
      · exact K.tick _ _ hx hy
    refine K.move w _ p player _ hJ hp hmove (Stored.plain ?_ ?_)
    · rfl
    · exact fun _ hd => hd

/-- One pass of the loop over `movingPlayerList`. -/
theorem outcome_moveEntry {P : World → Prop} {totalMove : Nat} {s : World × Nat}
    (hfault : ∀ e, e ≠ .sectorIndex → E e) (hP : P s.1)
    (hmove : ∀ p, Outcome P E (movePlayer g s.1 p)) :
    Outcome (fun s => P s.1) E (moveEntry g totalMove s i) := by
  unfold GameLogic.moveEntry
  apply Outcome.ite
  · intro _
    exact hP
  · intro _
    apply (outcome_deref.weaken (fun _ h => h) hfault).bind
    intro player _
    apply Outcome.ite
    · intro _
      exact hP
    · intro _
      apply (hmove _).bind
      intro w hw
      exact hw

theorem CallInvariant.updateGameWorld {timer : Int32} (K : CallInvariant g J E Move Attack)
    (hJ : J w) : Outcome J E (updateGameWorld g w timer) := by
  unfold GameLogic.updateGameWorld
  apply (Outcome.foldlM hJ fun w i hJ _ => K.checkAlive hJ).bind
  intro w hJ
  have hcursor : ∀ c : Prop, [Decidable c] → ∀ n,
      J (if c then { w with aliveCheckCursor := n } else w) := by
    intro c _ n
    split
    · exact K.cursors w n w.moveCursor hJ
    · exact hJ
  apply (Outcome.foldlM (I := fun s => J s.1) (hcursor _ _) fun s i hs _ =>
    outcome_moveEntry K.fault hs fun _ => K.movePlayer hs).bind
  intro s hs
  dsimp only
  split
  · exact K.cursors s.1 s.1.aliveCheckCursor _ hs
  · exact hs

end

end GameLogic

end IocpServer
