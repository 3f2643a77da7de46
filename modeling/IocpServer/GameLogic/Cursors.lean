import IocpServer.GameLogic.DeathTerminal
import IocpServer.GameLogic.Untouched

/-!
# The cursors of `UpdateGameWorld`

`aliveCheckCursor` and `moveCursor` remember where the next call of `UpdateGameWorld` begins in
`activePlayerList` and `movingPlayerList`.  Nothing else writes to them.

* `SameLists` — both lists and both cursors are as they were.
* `updateGameWorld_cases` — **the two loops of a call, and the cursors they leave.**
* `step_cursors` — every other call leaves the cursors alone.
-/

set_option autoImplicit false

namespace IocpServer

open Lib

namespace GameLogic

structure SameLists (w w' : World) : Prop where
  active : w'.activePlayerList = w.activePlayerList
  moving : w'.movingPlayerList = w.movingPlayerList
  aliveCheckCursor : w'.aliveCheckCursor = w.aliveCheckCursor
  moveCursor : w'.moveCursor = w.moveCursor

/-- Both cursors are as they were. -/
structure SameCursors (w w' : World) : Prop where
  aliveCheckCursor : w'.aliveCheckCursor = w.aliveCheckCursor
  moveCursor : w'.moveCursor = w.moveCursor

/-- Where the alive check of the next call begins. -/
def nextAliveCheck (w : World) : Nat :=
  if 0 < w.activePlayerList.length then
    (w.aliveCheckCursor + min chunkSize w.activePlayerList.length) % w.activePlayerList.length
  else w.aliveCheckCursor

variable {g : Grid} {w w₁ w' : World} {p q : Nat} {player : Player} {timer : Int32}
  {packetBuffer : CPacket} {locals : Locals} {attack : AttackType}

theorem SameLists.refl : SameLists w w := ⟨rfl, rfl, rfl, rfl⟩

theorem SameLists.trans (h : SameLists w w₁) (h' : SameLists w₁ w') : SameLists w w' :=
  ⟨h'.active.trans h.active, h'.moving.trans h.moving,
    h'.aliveCheckCursor.trans h.aliveCheckCursor, h'.moveCursor.trans h.moveCursor⟩

/-! ## The loops -/

theorem outcome_checkAlive_lists :
    Outcome (SameLists w) (fun _ => True) (checkAlive timer w p) := by
  unfold checkAlive
  apply outcome_any.bind
  intro player _
  apply Outcome.ite
  · intro _
    exact ⟨rfl, rfl, rfl, rfl⟩
  · intro _
    exact SameLists.refl

theorem outcome_movePlayer_lists : Outcome (SameLists w) (fun _ => True) (movePlayer g w p) := by
  unfold movePlayer
  apply outcome_any.bind
  intro player _
  exact outcome_checkSector_moved ⟨rfl, rfl, rfl, rfl⟩ fun _ _ _ => ⟨rfl, rfl, rfl, rfl⟩

/-- A loop whose passes look up their arguments in lists that no pass changes. -/
theorem foldlM_lookup {β γ : Type} {f : World → γ → Except Fault World} (arg : World → β → γ)
    (hf : ∀ w c, Outcome (SameLists w) (fun _ => True) (f w c))
    (harg : ∀ {w w'}, SameLists w w' → arg w' = arg w) (l : List β) (w : World) :
    l.foldlM (fun w b => f w (arg w b)) w = (l.map (arg w)).foldlM f w := by
  induction l generalizing w with
  | nil => rfl
  | cons b l ih =>
    rw [List.foldlM_cons, List.map_cons, List.foldlM_cons]
    cases hstep : f w (arg w b) with
    | error e => rfl
    | ok w' =>
      have hsame := (hf w (arg w b)).of_ok hstep
      exact (ih w').trans (by rw [harg hsame]; rfl)

/-- **A call of `UpdateGameWorld` that returns**: it has checked the players in `checkedPlayers`,
one after the other, then made the passes of the second loop. -/
theorem updateGameWorld_cases (h : updateGameWorld g w timer = .ok w') :
    ∃ w₁ w₂ processed, (checkedPlayers w).foldlM (checkAlive timer) w = .ok w₁ ∧ SameLists w w₁ ∧
      (List.range w.movingPlayerList.length).foldlM (moveEntry g w.movingPlayerList.length)
        ({ w₁ with aliveCheckCursor := nextAliveCheck w }, 0) = .ok (w₂, processed) ∧
      w' = if 0 < w.movingPlayerList.length then
        { w₂ with moveCursor := (w₂.moveCursor + processed) % w.movingPlayerList.length } else w₂ := by
  obtain ⟨w₁, hchecked, h⟩ := bind_eq_ok h
  rw [foldlM_lookup (f := checkAlive timer)
    (fun w' i => w'.activePlayerList.getD
      ((w'.aliveCheckCursor + i) % w.activePlayerList.length) 0)
    (fun _ _ => outcome_checkAlive_lists) fun hs => by
      funext i; rw [hs.active, hs.aliveCheckCursor]] at hchecked
  have hsame : SameLists w w₁ :=
    (Outcome.foldlM SameLists.refl fun w' p hs _ => outcome_checkAlive_lists.weaken
      (fun _ h => hs.trans h) fun _ h => h).of_ok hchecked
  obtain ⟨⟨w₂, processed⟩, hmoved, h⟩ := bind_eq_ok h
  refine ⟨w₁, w₂, processed, hchecked, hsame, ?_, ?_⟩
  · have hnext : (if 0 < w.activePlayerList.length then
        { w₁ with aliveCheckCursor := (w₁.aliveCheckCursor +
          min chunkSize w.activePlayerList.length) % w.activePlayerList.length } else w₁) =
        { w₁ with aliveCheckCursor := nextAliveCheck w } := by
      unfold nextAliveCheck
      rw [← hsame.aliveCheckCursor]
      split <;> rfl
    rw [← hnext]
    exact hmoved
  · cases h
    rfl

/-- What every `movePlayer` keeps, the passes of the second loop keep. -/
theorem moveEntries_keep {P : World → Prop} {totalMove : Nat} {is : List Nat} {s s' : World × Nat}
    (hmove : ∀ w p, P w → Outcome P (fun _ => True) (movePlayer g w p)) (hP : P s.1)
    (h : is.foldlM (moveEntry g totalMove) s = .ok s') : P s'.1 := by
  refine Outcome.of_ok (P := fun s' : World × Nat => P s'.1) (E := fun _ => True)
    (Outcome.foldlM hP fun s' i hs _ => ?_) h
  exact outcome_moveEntry (fun _ _ => trivial) hs fun p => hmove s'.1 p hs

theorem moveEntries_lists {totalMove : Nat} {is : List Nat} {s s' : World × Nat}
    (h : is.foldlM (moveEntry g totalMove) s = .ok s') : SameLists s.1 s'.1 :=
  moveEntries_keep (fun _ _ hs => outcome_movePlayer_lists.weaken (fun _ h => hs.trans h)
    fun _ h => h) SameLists.refl h

theorem updateGameWorld_aliveCheckCursor (h : updateGameWorld g w timer = .ok w') :
    w'.aliveCheckCursor = nextAliveCheck w := by
  obtain ⟨w₁, w₂, processed, -, -, hmoved, rfl⟩ := updateGameWorld_cases h
  have hsame := moveEntries_lists hmoved
  split <;> exact hsame.aliveCheckCursor

/-! ## The other calls -/

theorem SameCursors.refl : SameCursors w w := ⟨rfl, rfl⟩

theorem cursor_writes : WriteInvariant (SameCursors w) (fun _ => True) where
  fault := fun _ _ => trivial
  send := fun _ _ h => ⟨h.aliveCheckCursor, h.moveCursor⟩
  write := fun _ _ _ _ h => ⟨h.aliveCheckCursor, h.moveCursor⟩

theorem SameCursors.checkSector {prevX prevY : UInt16} (h : SameCursors w w') :
    Outcome (SameCursors w) (fun _ => True) (checkSector g w' p prevX prevY) :=
  outcome_checkSector_moved h fun _ _ _ => ⟨h.aliveCheckCursor, h.moveCursor⟩

theorem SameCursors.broadcast {message : UInt32 → UInt8 → UInt16 → UInt16 → ScMessage}
    (h : SameCursors w w') :
    Outcome (SameCursors w) (fun _ => True) (broadcast g w' p message) := by
  refine outcome_broadcast.weaken ?_ fun _ h => h
  rintro w₂ ⟨msgs, rfl⟩
  exact ⟨h.aliveCheckCursor, h.moveCursor⟩

theorem processPacket_cursors {ipi : IncomingPacketInfo} {now : Int32} :
    Outcome (SameCursors w) (fun _ => True) (processPacket g w ipi locals now) := by
  refine outcome_packet trivial (fun _ => SameCursors.refl) (fun p player hp _ => ?_)
    (fun p player hp _ => ?_) (fun attack p player hp _ => ?_) (fun p player hp _ => ?_)
    fun _ _ _ _ _ => ⟨rfl, rfl⟩
  · rw [packetProcMoveStart_eq (received_self hp.2.1)]
    refine Outcome.bind (P := SameCursors w) (SameCursors.checkSector ?_) fun _ h => h.broadcast
    exact ⟨rfl, rfl⟩
  · rw [packetProcMoveStop_eq (received_self hp.2.1)]
    refine Outcome.bind (P := SameCursors w) (SameCursors.checkSector ?_) fun _ h => h.broadcast
    exact ⟨rfl, rfl⟩
  · rw [packetProcAttack_eq (received_self hp.2.1)]
    refine Outcome.bind (P := SameCursors w) (SameCursors.broadcast ?_) fun _ h =>
      cursor_writes.checkDamagedPlayer h
    exact ⟨rfl, rfl⟩
  · rw [packetProcEcho_eq (received_self hp.2.1)]
    exact ⟨rfl, rfl⟩

theorem createNewPlayer_cursors {id : SessionId} {randX randY : Nat} {now : Int32}
    {registered : Bool} : Outcome (SameCursors w) (fun _ => True)
      (createNewPlayer g w id p randX randY now registered) := by
  unfold createNewPlayer
  split
  · trivial
  · apply Outcome.ite
    · intro _
      exact ⟨rfl, rfl⟩
    · intro _
      apply outcome_any.bind
      intro i _
      apply outcome_any.bind
      intro msgs _
      exact ⟨rfl, rfl⟩

theorem requestDestroyPlayer_cursors {id : SessionId} :
    Outcome (SameCursors w) (fun _ => True) (requestDestroyPlayer w id) := by
  unfold requestDestroyPlayer
  split
  · exact SameCursors.refl
  · apply outcome_any.bind
    intro player _
    exact ⟨rfl, rfl⟩

theorem leaveSector_cursors : SameCursors w (w.leaveSector p player) := by
  unfold World.leaveSector
  split <;> exact ⟨rfl, rfl⟩

theorem flushFrame_cursors : Outcome (SameCursors w) (fun _ => True) (flushFrame g w) := by
  unfold flushFrame
  refine Outcome.bind (P := SameCursors w) (Outcome.foldlM SameCursors.refl fun w' p h _ => ?_) ?_
  · unfold scanDead
    apply outcome_any.bind
    intro player _
    apply Outcome.ite
    · intro _
      exact ⟨h.aliveCheckCursor, h.moveCursor⟩
    · intro _
      exact h
  intro w' h
  refine Outcome.bind (P := SameCursors w) ?_ ?_
  · unfold purgeMoving
    apply outcome_any.bind
    intro moving _
    exact ⟨h.aliveCheckCursor, h.moveCursor⟩
  intro w' h
  refine Outcome.bind (P := SameCursors w) (Outcome.foldlM h fun w' id h _ => ?_) fun w' h =>
    ⟨h.aliveCheckCursor, h.moveCursor⟩
  unfold destroyPlayer
  split
  · trivial
  · rename_i p _
    apply outcome_any.bind
    intro player _
    apply outcome_any.bind
    intro msgs _
    have hleft : SameCursors (w'.send msgs) ((w'.send msgs).leaveSector p player) :=
      leaveSector_cursors
    exact ⟨hleft.aliveCheckCursor.trans h.aliveCheckCursor, hleft.moveCursor.trans h.moveCursor⟩

/-- **Only `UpdateGameWorld` moves the cursors.** -/
theorem step_cursors {a : Action} (ha : ∀ timer, a ≠ .updateGameWorld timer)
    (h : step g w a = .ok w') : SameCursors w w' := by
  cases a with
  | createNewPlayer id p randX randY now registered => exact createNewPlayer_cursors.of_ok h
  | packet ipi locals now => exact processPacket_cursors.of_ok h
  | updateGameWorld timer => exact absurd rfl (ha timer)
  | flushFrame => exact flushFrame_cursors.of_ok h
  | requestDestroyPlayer id => exact requestDestroyPlayer_cursors.of_ok h

end GameLogic

end IocpServer
