import IocpServer.GameLogic.HandlerStores

/-!
# Fields that ticks, attacks and requests leave alone

A field of `Player` that depends on none of the position, the sector, `direction`, `hp` and the
flags is the same behind every call that stores only these.

* `Untouched` — the field does not depend on them; `Keeps` — two worlds agree on it.
* `keeps_updateGameWorld`, `keeps_flushFrame`, `keeps_requestDestroyPlayer` — **these calls keep
  such a field of every player.**
* `keeps_packetProcMoveStop`, `keeps_packetProcAttack` — so do the handlers, but for what
  `CS_MOVE_START` stores (`keeps_packetProcMoveStart`).
* `keeps_createNewPlayer` — a new player has what it was created with.
-/

set_option autoImplicit false

namespace IocpServer

open Lib

namespace GameLogic

variable {α : Type} {field : Player → α} {g : Grid} {w w₁ w' : World} {p q i : Nat}
  {player : Player} {f : Player → Player} {packetBuffer : CPacket} {locals : Locals}
  {attack : AttackType} {msgs : List Sending} {move : CSMoveInfo}

/-- Every player that is still there has the `field` it had. -/
def Keeps (field : Player → α) (w w' : World) : Prop :=
  ∀ q player', w'.players q = some player' →
    ∃ player, w.players q = some player ∧ field player' = field player

/-- What ticks, attacks and requests store is not part of the field. -/
structure Untouched (field : Player → α) : Prop where
  sector : ∀ player index, field { player with currentSector := index } = field player
  place : ∀ player x y, field { player with x := x, y := y } = field player
  flags : ∀ player dead moving request, field { player with
    isDead := dead, isMoving := moving, isDestroyRequest := request } = field player
  wounded : ∀ attack player, field (wounded attack player) = field player
  stop : ∀ player move, field (stop player move) = field player

theorem Keeps.refl : Keeps field w w := fun _ player' hq => ⟨player', hq, rfl⟩

theorem Keeps.trans (h : Keeps field w w₁) (h' : Keeps field w₁ w') : Keeps field w w' := by
  intro q player' hq
  obtain ⟨player₁, hq₁, heq₁⟩ := h' q player' hq
  obtain ⟨player, hq, heq⟩ := h q player₁ hq₁
  exact ⟨player, hq, heq₁.trans heq⟩

theorem Keeps.modify (hf : ∀ player, field (f player) = field player) (h : Keeps field w w') :
    Keeps field w (w'.modify p f) := by
  refine h.trans fun q player' hq => ?_
  by_cases hqp : q = p
  · subst hqp
    rw [modify_players_self] at hq
    obtain ⟨player, hp, rfl⟩ := Option.map_eq_some_iff.mp hq
    exact ⟨player, hp, hf player⟩
  · rw [modify_players_ne hqp] at hq
    exact ⟨player', hq, rfl⟩

theorem Keeps.send (h : Keeps field w w') : Keeps field w (w'.send msgs) := h

theorem Keeps.leave (hf : Untouched field) (h : Keeps field w w') :
    Keeps field w (w'.leave p i) :=
  @Keeps.modify _ _ w { w' with sectors := _ } p _ (fun _ => hf.sector _ _) h

theorem Keeps.enter (hf : Untouched field) (h : Keeps field w w') :
    Keeps field w (w'.enter g p i) :=
  @Keeps.modify _ _ w { w' with sectors := _ } p _ (fun _ => hf.sector _ _) h

theorem Keeps.free (h : Keeps field w w') : Keeps field w (w'.free p i) := by
  refine h.trans fun q player' hq => ?_
  by_cases hqp : q = p
  · subst hqp
    rw [free_players_self] at hq
    cases hq
  · rw [free_players_ne hqp] at hq
    exact ⟨player', hq, rfl⟩

theorem Keeps.checkSector {prevX prevY : UInt16} (hf : Untouched field) (h : Keeps field w w') :
    Outcome (Keeps field w) (fun _ => True) (checkSector g w' p prevX prevY) :=
  outcome_checkSector_moved h fun _ _ _ => ((h.leave hf).enter hf).send

theorem Keeps.broadcast {message : UInt32 → UInt8 → UInt16 → UInt16 → ScMessage}
    (h : Keeps field w w') :
    Outcome (Keeps field w) (fun _ => True) (broadcast g w' p message) := by
  refine outcome_broadcast.weaken ?_ fun _ h => h
  rintro w₂ ⟨msgs, rfl⟩
  exact h.send

theorem Keeps.checkDamagedPlayer (hf : Untouched field) (h : Keeps field w w') :
    Outcome (Keeps field w) (fun _ => True) (checkDamagedPlayer g w' p attack) := by
  cases hp : w'.players p with
  | none =>
    unfold GameLogic.checkDamagedPlayer
    rw [deref_none hp]
    trivial
  | some player =>
    refine (outcome_checkDamagedPlayer hp).weaken (fun w₂ hstruck => ?_) fun _ h => h
    generalize target g w' p player attack = t at hstruck
    cases hstruck with
    | miss => exact h
    | @hit q msgs => exact (h.modify (p := q) (hf.wounded attack)).send

theorem Keeps.stopStored (hf : Untouched field) (h : Keeps field w w') :
    Keeps field w (stopStored w' p player move) :=
  h.send.modify fun player => hf.stop player move

theorem Keeps.startStored (hstarted : ∀ player move, field (started player move) = field player)
    (h : Keeps field w w') : Keeps field w (startStored w' p player move) :=
  h.send.modify fun player => hstarted player move

/-! ## The handlers -/

theorem keeps_packetProcMoveStart (hf : Untouched field)
    (hstarted : ∀ player move, field (started player move) = field player)
    (hp : w.players p = some player) :
    Outcome (Keeps field w) (fun _ => True) (packetProcMoveStart g w p packetBuffer locals) := by
  rw [packetProcMoveStart_eq hp]
  apply ((Keeps.refl (w := w)).startStored hstarted |>.checkSector hf).bind
  intro w₂ h
  exact h.broadcast

theorem keeps_packetProcMoveStop (hf : Untouched field) (hp : w.players p = some player) :
    Outcome (Keeps field w) (fun _ => True) (packetProcMoveStop g w p packetBuffer locals) := by
  rw [packetProcMoveStop_eq hp]
  apply ((Keeps.refl (w := w)).stopStored hf |>.checkSector hf).bind
  intro w₂ h
  exact h.broadcast

theorem keeps_packetProcAttack (hf : Untouched field) (hp : w.players p = some player) :
    Outcome (Keeps field w) (fun _ => True)
      (packetProcAttack attack g w p packetBuffer locals) := by
  rw [packetProcAttack_eq hp]
  apply ((Keeps.refl (w := w)).stopStored hf).broadcast.bind
  intro w₂ h
  exact h.checkDamagedPlayer hf

theorem keeps_packetProcEcho (field : Player → α) (hp : w.players p = some player) :
    Outcome (Keeps field w) (fun _ => True) (packetProcEcho w p packetBuffer locals) := by
  rw [packetProcEcho_eq hp]
  exact Keeps.refl.send

/-! ## The other calls -/

/-- **A tick keeps the field.** -/
theorem keeps_updateGameWorld {timer : Int32} (hf : Untouched field) :
    Outcome (Keeps field w) (fun _ => True) (updateGameWorld g w timer) := by
  unfold updateGameWorld
  refine Outcome.bind (P := Keeps field w) (Outcome.foldlM Keeps.refl ?_) ?_
  · intro w' i h _
    unfold checkAlive
    apply outcome_any.bind
    intro player _
    apply Outcome.ite
    · intro _
      exact h.modify fun player => hf.flags player true false player.isDestroyRequest
    · intro _
      exact h
  · intro w' h
    have hcursor : ∀ (c : Prop) [Decidable c] n,
        Keeps field w (if c then { w' with aliveCheckCursor := n } else w') := by
      intro c _ n
      split <;> exact h
    refine Outcome.bind (P := fun s => Keeps field w s.1)
      (Outcome.foldlM (hcursor _ _) fun s i h _ => ?_) ?_
    · refine outcome_moveEntry (fun _ _ => trivial) h fun p => ?_
      unfold movePlayer
      apply outcome_any.bind
      intro player _
      dsimp only
      exact Keeps.checkSector hf (h.modify fun _ => hf.place _ _ _)
    · intro s h
      dsimp only
      split <;> exact h

theorem keeps_requestDestroyPlayer {id : SessionId} (hf : Untouched field) :
    Outcome (Keeps field w) (fun _ => True) (requestDestroyPlayer w id) := by
  unfold requestDestroyPlayer
  split
  · exact Keeps.refl
  · apply outcome_any.bind
    intro player _
    exact Keeps.refl.modify fun player => hf.flags player true player.isMoving true

theorem keeps_flushFrame (hf : Untouched field) :
    Outcome (Keeps field w) (fun _ => True) (flushFrame g w) := by
  unfold flushFrame
  refine Outcome.bind (P := Keeps field w) (Outcome.foldlM Keeps.refl ?_) ?_
  · intro w' p h _
    unfold scanDead
    apply outcome_any.bind
    intro player _
    apply Outcome.ite
    · intro _
      exact h.modify fun player => hf.flags player player.isDead player.isMoving true
    · intro _
      exact h
  intro w' h
  refine Outcome.bind (P := Keeps field w) ?_ ?_
  · unfold purgeMoving
    apply outcome_any.bind
    intro moving _
    exact h
  intro w' h
  refine Outcome.bind (P := Keeps field w) (Outcome.foldlM h ?_) fun w' h => h
  intro w' id h _
  unfold destroyPlayer
  split
  · trivial
  · apply outcome_any.bind
    intro player _
    apply outcome_any.bind
    intro msgs _
    refine @Keeps.free _ _ w { (w'.send msgs).leaveSector _ player with
      activePlayerList := _ } _ _ ?_
    show Keeps field w ((w'.send msgs).leaveSector _ player)
    unfold World.leaveSector
    split
    · exact h
    · exact h.send.leave hf

/-- A new player has the field `CreateNewPlayer` gives it, every other one is as it was. -/
theorem keeps_createNewPlayer {id : SessionId} {randX randY : Nat} {now : Int32}
    {registered : Bool} (hf : Untouched field) :
    Outcome (fun w' => ∀ q player', w'.players q = some player' → w.players q = some player' ∨
        (q = p ∧ registered = true ∧ w.players p = none ∧
          field player' = field (newPlayer w id randX randY now)))
      (fun _ => True) (createNewPlayer g w id p randX randY now registered) := by
  unfold createNewPlayer
  split
  · trivial
  · rename_i hp
    apply Outcome.ite
    · intro _ q player' hq
      exact Or.inl hq
    · intro hregistered
      rw [Bool.not_eq_true', Bool.not_eq_false] at hregistered
      apply outcome_any.bind
      intro index _
      apply outcome_any.bind
      intro msgs _ q player' hq
      by_cases hqp : q = p
      · subst hqp
        right
        have hself : player' = { newPlayer w id randX randY now with
            currentSector := some index } := by
          simp only [send_players, store_players, enter_players_self, alloc_players_self] at hq
          exact (Option.some.inj hq).symm
        exact ⟨rfl, hregistered, hp, by rw [hself, hf.sector]⟩
      · left
        simpa only [send_players, store_players, enter_players_ne hqp, alloc_players_ne hqp] using hq

end GameLogic

end IocpServer
