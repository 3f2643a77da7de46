import IocpServer.GameLogic.PacketEffects
import IocpServer.Lib.Run
import Mathlib.Data.List.GetD
import Mathlib.Data.List.Rotate

/-!
# One step per tick

`UpdateGameWorld` moves the entries of `movingPlayerList`, so a player who is on the list once moves
once.  `isMoving` guards the insertion, but `CS_MOVE_STOP`, the attacks and the timeout clear it
while the entry waits for `FlushFrame`.

* `StartOk` — the step condition: whoever starts to move is not on the list.
* `outcome_updateGameWorld_oneStep` — **with a list without repetitions one tick is one step.**
* `run_movesOnce` — **in every run whose steps meet the condition no player is on the list twice.**
-/

set_option autoImplicit false

namespace IocpServer

open Lib

namespace GameLogic

/-! ## The promise and its condition -/

/-- At most one step apart. -/
def Close (old new : Pos) : Prop :=
  ((new.1.toNat : Int) - old.1.toNat).natAbs ≤ 6 ∧ ((new.2.toNat : Int) - old.2.toNat).natAbs ≤ 4

/-- Every player has moved by at most one step. -/
def OneStep (w w' : World) : Prop :=
  ∀ p player, w.players p = some player →
    ∃ player', w'.players p = some player' ∧ Close player.pos player'.pos

/-- The promises, in one world. -/
structure MovesOnce (g : Grid) (w : World) : Prop where
  once : w.movingPlayerList.Nodup
  oneStep : ∀ timer w', updateGameWorld g w timer = .ok w' → OneStep w w'

/-- A player whose `CS_MOVE_START` finds it not moving is not on `movingPlayerList`. -/
def StartOk (w : World) : Action → Prop
  | .packet ipi _ _ => ipi.packetType = dfPacketCsMoveStart →
    ∀ p player, Addressed w ipi p player → player.isMoving = false → p ∉ w.movingPlayerList
  | _ => True

/-! ## The tick -/

variable {g : Grid} {w w' : World} {p : Nat} {player : Player} {timer : Int32} {c : Nat}
  {l : List Nat}

theorem Close.refl (pos : Pos) : Close pos pos := by
  simp [Close]

theorem close_nextPosition {x y : Int} (h : nextPosition player = some (x, y)) :
    (x - player.x.toNat).natAbs ≤ 6 ∧ (y - player.y.toNat).natAbs ≤ 4 := by
  unfold nextPosition at h
  simp only [dfSpeedPlayerX, dfSpeedPlayerY] at h
  split_ifs at h <;> simp only [Option.some.injEq, Prod.mk.injEq] at h <;>
    obtain ⟨rfl, rfl⟩ := h <;> constructor <;> omega

/-- **`UPDATE_MOVE_CHARACTER` is one step.** -/
theorem close_tickPosition (player : Player) : Close player.pos (tickPosition player) := by
  unfold tickPosition
  split
  · exact Close.refl _
  · rename_i x y hnext
    obtain ⟨hdx, hdy⟩ := close_nextPosition hnext
    split
    · rename_i h
      obtain ⟨hx, hy, hright, hbottom⟩ := h
      unfold dfRangeMoveRight at hright
      unfold dfRangeMoveBottom at hbottom
      simp only [Close, Player.pos, UInt16.toNat_ofNat']
      omega
    · exact Close.refl _

/-- In the second loop: the list and the cursor stay, and only the players of `moved` have moved,
by one step. -/
structure Stepped (moved : List Nat) (w w' : World) : Prop where
  moving : w'.movingPlayerList = w.movingPlayerList
  cursor : w'.moveCursor = w.moveCursor
  stays : ∀ p, p ∉ moved → w'.read Player.pos p = w.read Player.pos p
  moves : ∀ p old, w.read Player.pos p = some old →
    ∃ new, w'.read Player.pos p = some new ∧ Close old new

theorem Stepped.of_pos {moved : List Nat} (hmoving : w'.movingPlayerList = w.movingPlayerList)
    (hcursor : w'.moveCursor = w.moveCursor) (hpos : w'.read Player.pos = w.read Player.pos) :
    Stepped moved w w' := by
  refine ⟨hmoving, hcursor, fun p _ => by rw [hpos], fun p old hold => ?_⟩
  exact ⟨old, by rw [hpos, hold], Close.refl old⟩

theorem Stepped.refl {moved : List Nat} : Stepped moved w w := .of_pos rfl rfl rfl

/-- Different players move one after the other. -/
theorem Stepped.trans {moved moved' : List Nat} {w'' : World} (h : Stepped moved w w')
    (h' : Stepped moved' w' w'') (hdisjoint : ∀ p ∈ moved, p ∉ moved') :
    Stepped (moved ++ moved') w w'' := by
  refine ⟨h'.moving.trans h.moving, h'.cursor.trans h.cursor, fun p hp => ?_, fun p old hold => ?_⟩
  · rw [List.mem_append, not_or] at hp
    rw [h'.stays p hp.2, h.stays p hp.1]
  · obtain ⟨mid, hmid, hclose⟩ := h.moves p old hold
    by_cases hp : p ∈ moved
    · exact ⟨mid, by rw [h'.stays p (hdisjoint p hp), hmid], hclose⟩
    · rw [h.stays p hp, hold] at hmid
      cases hmid
      exact h'.moves p old (by rw [h.stays p hp, hold])

theorem outcome_checkSector_stepped (moved : List Nat) {prevX prevY : UInt16} :
    Outcome (Stepped moved w) (fun _ => True) (checkSector g w p prevX prevY) := by
  refine outcome_checkSector_moved Stepped.refl fun prev curr msgs => .of_pos rfl rfl ?_
  show ((w.leave p prev).enter g p curr).read Player.pos = _
  rw [read_enter fun _ _ => rfl, read_leave fun _ _ => rfl]

theorem outcome_movePlayer_stepped :
    Outcome (Stepped [p] w) (fun _ => True) (movePlayer g w p) := by
  unfold movePlayer
  apply outcome_deref_some.bind
  intro player hp
  let w₁ := w.modify p fun player => { player with
    x := (tickPosition player).1
    y := (tickPosition player).2 }
  have hstep : Stepped [p] w w₁ := by
    refine ⟨rfl, rfl, fun q hq => ?_, fun q old hold => ?_⟩
    · rw [World.read, modify_players_ne (by simpa using hq)]
      rfl
    · by_cases hqp : q = p
      · subst hqp
        rw [read_eq_some hp] at hold
        cases hold
        refine ⟨tickPosition player, ?_, close_tickPosition player⟩
        rw [World.read, modify_players_self, hp]
        rfl
      · exact ⟨old, by rw [World.read, modify_players_ne hqp]; exact hold, Close.refl old⟩
  refine Outcome.weaken (outcome_checkSector_stepped []) (fun w' h => ?_) fun _ h => h
  simpa using hstep.trans h (by simp)

/-- The entry the second loop of `UpdateGameWorld` looks at in pass `i`. -/
def entry (w : World) (totalMove i : Nat) : Nat :=
  w.movingPlayerList.getD ((w.moveCursor + i) % totalMove) 0

theorem outcome_moveEntry_stepped {totalMove i : Nat} {s : World × Nat} :
    Outcome (fun s' => Stepped [entry s.1 totalMove i] s.1 s'.1) (fun _ => True)
      (moveEntry g totalMove s i) := by
  unfold moveEntry
  apply Outcome.ite
  · intro _
    exact Stepped.refl
  · intro _
    apply outcome_any.bind
    intro player _
    apply Outcome.ite
    · intro _
      exact Stepped.refl
    · intro _
      apply outcome_movePlayer_stepped.bind
      intro w' h
      exact h

/-- **The second loop moves each player it visits once**, if it visits nobody twice. -/
theorem outcome_moveEntries {totalMove : Nat} (is : List Nat) {s : World × Nat}
    (hn : (is.map (entry s.1 totalMove)).Nodup) :
    Outcome (fun s' => Stepped (is.map (entry s.1 totalMove)) s.1 s'.1) (fun _ => True)
      (is.foldlM (moveEntry g totalMove) s) := by
  induction is generalizing s with
  | nil => exact Stepped.refl
  | cons i is ih =>
    rw [List.foldlM_cons]
    obtain ⟨hi, hn⟩ := List.nodup_cons.mp hn
    apply outcome_moveEntry_stepped.bind
    intro s' h
    have hentry : entry s'.1 totalMove = entry s.1 totalMove := by
      funext j
      rw [entry, entry, h.moving, h.cursor]
    refine Outcome.weaken (ih (by rw [hentry]; exact hn)) (fun s'' h' => ?_) fun _ h => h
    rw [hentry] at h'
    refine h.trans h' fun p hp => ?_
    rw [List.mem_singleton.mp hp]
    exact hi

/-- The loop goes once round the list. -/
theorem map_entry (w : World) :
    (List.range w.movingPlayerList.length).map (entry w w.movingPlayerList.length) =
      w.movingPlayerList.rotate w.moveCursor := by
  apply List.ext_getElem
  · simp
  · intro i hi hi'
    have hlt : (w.moveCursor + i) % w.movingPlayerList.length < w.movingPlayerList.length := by
      simp only [List.length_map, List.length_range] at hi
      exact Nat.mod_lt _ (by omega)
    rw [List.getElem_map, List.getElem_range, List.getElem_rotate, entry,
      List.getD_eq_getElem _ _ hlt]
    simp only [Nat.add_comm]

theorem outcome_checkAlive_stepped :
    Outcome (Stepped [] w) (fun _ => True) (checkAlive timer w p) := by
  unfold checkAlive
  apply outcome_any.bind
  intro player _
  apply Outcome.ite
  · intro _
    exact .of_pos rfl rfl (read_modify fun _ => rfl)
  · intro _
    exact Stepped.refl

theorem Stepped.oneStep {moved : List Nat} (h : Stepped moved w w') : OneStep w w' := by
  intro p player hp
  obtain ⟨new, hnew, hclose⟩ := h.moves p player.pos (read_eq_some hp)
  obtain ⟨player', hp', rfl⟩ := Option.map_eq_some_iff.mp hnew
  exact ⟨player', hp', hclose⟩

/-- **One tick is one step**, and leaves the list alone. -/
theorem outcome_updateGameWorld_oneStep (hn : w.movingPlayerList.Nodup) :
    Outcome (fun w' => w'.movingPlayerList = w.movingPlayerList ∧ OneStep w w') (fun _ => True)
      (updateGameWorld g w timer) := by
  unfold updateGameWorld
  apply (Outcome.foldlM (I := Stepped [] w) Stepped.refl fun w₁ i h _ => ?_).bind
  · intro w₁ h₁
    have h₂ : ∀ (b : Prop) [Decidable b] (n : Nat),
        Stepped [] w (if b then { w₁ with aliveCheckCursor := n } else w₁) := by
      intro b _ n
      split
      · exact ⟨h₁.moving, h₁.cursor, h₁.stays, h₁.moves⟩
      · exact h₁
    generalize hw₂ : (if 0 < w.activePlayerList.length then _ else w₁) = w₂
    have h₂ : Stepped [] w w₂ := hw₂ ▸ h₂ _ _
    have hrotated : (List.range w.movingPlayerList.length).map
        (entry w₂ w.movingPlayerList.length) = w₂.movingPlayerList.rotate w₂.moveCursor := by
      rw [← h₂.moving]
      exact map_entry w₂
    apply (outcome_moveEntries (s := (w₂, 0)) _ (by
      rw [hrotated, List.nodup_rotate, h₂.moving]
      exact hn)).bind
    intro s h₃
    have h : Stepped _ w s.1 := h₂.trans h₃ (by simp)
    dsimp only
    split
    · exact ⟨h.moving, h.oneStep⟩
    · exact ⟨h.moving, h.oneStep⟩
  · refine Outcome.weaken outcome_checkAlive_stepped (fun w₂ h₂ => ?_) fun _ h => h
    simpa using h.trans h₂ (by simp)

/-! ## The list -/

/-- A call that does not touch the list. -/
def SameMoving (w w' : World) : Prop := w'.movingPlayerList = w.movingPlayerList

theorem outcome_createNewPlayer_moving {id : SessionId} {randX randY : Nat} {now : Int32}
    {registered : Bool} : Outcome (SameMoving w) (fun _ => True)
      (createNewPlayer g w id p randX randY now registered) := by
  unfold createNewPlayer
  split
  · trivial
  · apply Outcome.ite
    · intro _
      rfl
    · intro _
      apply outcome_any.bind
      intro i _
      apply outcome_any.bind
      intro msgs _
      rfl

theorem outcome_requestDestroyPlayer_moving {id : SessionId} :
    Outcome (SameMoving w) (fun _ => True) (requestDestroyPlayer w id) := by
  unfold requestDestroyPlayer
  split
  · rfl
  · apply outcome_any.bind
    intro player _
    rfl

theorem outcome_scanDead_moving : Outcome (SameMoving w) (fun _ => True) (scanDead w p) := by
  unfold scanDead
  apply outcome_any.bind
  intro player _
  apply Outcome.ite
  · intro _
    rfl
  · intro _
    rfl

theorem map_fst_of_forall₂ {moving : List (Nat × Bool)}
    (h : List.Forall₂ (fun p m => m.1 = p) l moving) : moving.map (·.1) = l := by
  induction h with
  | nil => rfl
  | cons hm _ ih => rw [List.map_cons, hm, ih]

/-- The purge takes entries out. -/
theorem outcome_purgeMoving : Outcome (fun w' => w'.movingPlayerList.Sublist w.movingPlayerList)
    (fun _ => True) (purgeMoving w) := by
  unfold purgeMoving
  have hentries : Outcome (fun moving : List (Nat × Bool) =>
      List.Forall₂ (fun p m => m.1 = p) w.movingPlayerList moving) (fun _ => True)
      (w.movingPlayerList.mapM fun p => do
        let player ← w.deref p
        return (p, player.isMoving && !player.isDead)) := by
    apply Outcome.forall₂
    intro p _
    apply outcome_any.bind
    intro player _
    rfl
  apply hentries.bind
  intro moving hmoving
  have hfst := map_fst_of_forall₂ hmoving
  show ((moving.filter (·.2)).map (·.1)).Sublist w.movingPlayerList
  rw [← hfst]
  exact List.filter_sublist.map _

theorem leaveSector_moving : (w.leaveSector p player).movingPlayerList = w.movingPlayerList := by
  unfold World.leaveSector
  split
  · rfl
  · rfl

theorem outcome_destroyPlayer_moving {id : SessionId} :
    Outcome (SameMoving w) (fun _ => True) (destroyPlayer g w id) := by
  unfold destroyPlayer
  split
  · trivial
  · apply outcome_any.bind
    intro player _
    apply outcome_any.bind
    intro msgs _
    exact leaveSector_moving

theorem outcome_flushFrame_moving (hn : w.movingPlayerList.Nodup) :
    Outcome (fun w' => w'.movingPlayerList.Nodup) (fun _ => True) (flushFrame g w) := by
  unfold flushFrame
  apply (Outcome.foldlM (I := fun w => w.movingPlayerList.Nodup) hn fun w₁ p hn₁ _ => ?_).bind
  · intro w₁ hn₁
    apply outcome_purgeMoving.bind
    intro w₂ hsub
    apply (Outcome.foldlM (I := fun w => w.movingPlayerList.Nodup) (hn₁.sublist hsub)
      fun w₃ id hn₃ _ => ?_).bind
    · intro w₃ hn₃
      exact hn₃
    · exact outcome_destroyPlayer_moving.weaken (fun w₄ h => h.symm ▸ hn₃) fun _ h => h
  · exact outcome_scanDead_moving.weaken (fun w₂ h => h.symm ▸ hn₁) fun _ h => h

theorem outcome_processPacket_moving {ipi : IncomingPacketInfo} {locals : Locals} {now : Int32}
    (hn : w.movingPlayerList.Nodup) (hok : StartOk w (.packet ipi locals now)) :
    Outcome (fun w' => w'.movingPlayerList.Nodup) (fun _ => True)
      (processPacket g w ipi locals now) := by
  refine Outcome.weaken outcome_processPacket (fun w' h => ?_) fun _ h => h
  cases h with
  | @start p player hp htype h =>
    rw [h.moving]
    split
    · exact hn
    · rename_i hmoving
      have hout := hok htype p player hp (Bool.eq_false_iff.mpr hmoving)
      rw [List.nodup_append]
      exact ⟨hn, List.nodup_singleton p, fun q hq r hr he => hout (by
        rw [← List.mem_singleton.mp hr, ← he]
        exact hq)⟩
  | stop hp htype h =>
    rw [h.moving]
    exact hn
  | none _ h =>
    rw [h.moving]
    exact hn

/-- The condition is exact: a step that misses it puts a player on the list a second time. -/
theorem repeated_of_not_startOk {a : Action} (h : ¬ StartOk w a) :
    Outcome (fun w' => ¬ w'.movingPlayerList.Nodup) (fun _ => True) (step g w a) := by
  cases a with
  | packet ipi locals now =>
    simp only [StartOk, not_forall, not_not] at h
    obtain ⟨htype, p, player, hp, hmoving, hmem⟩ := h
    refine Outcome.weaken outcome_processPacket (fun w' h => ?_) fun _ h => h
    cases h with
    | @start q other hq _ h =>
      cases hp.1.symm.trans hq.1
      cases hp.2.1.symm.trans hq.2.1
      rw [h.moving, hmoving]
      intro hn
      exact (List.nodup_append.mp hn).2.2 p hmem p List.mem_cons_self rfl
    | stop _ hstop _ =>
      rw [htype] at hstop
      exact absurd hstop (by unfold IsStop; decide)
    | none hnone _ => exact absurd htype (hnone p player hp).1
  | _ => exact absurd trivial h

/-- **A step keeps the list without repetitions.** -/
theorem step_moving {a : Action} (hn : w.movingPlayerList.Nodup) (hok : StartOk w a) :
    Outcome (fun w' => w'.movingPlayerList.Nodup) (fun _ => True) (step g w a) := by
  cases a with
  | createNewPlayer id p randX randY now registered =>
    exact outcome_createNewPlayer_moving.weaken (fun w' h => h.symm ▸ hn) fun _ h => h
  | packet ipi locals now => exact outcome_processPacket_moving hn hok
  | updateGameWorld timer =>
    exact (outcome_updateGameWorld_oneStep hn).weaken (fun w' h => h.1.symm ▸ hn) fun _ h => h
  | flushFrame => exact outcome_flushFrame_moving hn
  | requestDestroyPlayer id =>
    exact outcome_requestDestroyPlayer_moving.weaken (fun w' h => h.symm ▸ hn) fun _ h => h

/-! ## Runs -/

/-- **One step per tick, in every run whose steps meet the condition.** -/
theorem run_movesOnce {uniqueCharacterId : UInt32} {as : List Action}
    (hr : Run (fun w a w' => step g w a = .ok w') StartOk (init uniqueCharacterId) as w) :
    MovesOnce g w := by
  have hn : w.movingPlayerList.Nodup :=
    hr.invariant (I := fun w => w.movingPlayerList.Nodup) List.nodup_nil
      fun w a w' hn hok h => (step_moving hn hok).of_ok h
  exact ⟨hn, fun timer w' h => ((outcome_updateGameWorld_oneStep hn).of_ok h).2⟩

/-- A player starts, turns and walks for two ticks, then stops. -/
theorem run_movesOnce_walk :
    ∃ w, Run (fun w a w' => step .appending w a = .ok w') StartOk (init 0)
        [.createNewPlayer ⟨0, 1⟩ 1 99 99 0 true,
          .packet ⟨⟨0, 1⟩, .ofBytes [4, 100, 0, 100, 0], 10⟩ ⟨0, 0, 0, 0⟩ 0, .updateGameWorld 0,
          .flushFrame, .packet ⟨⟨0, 1⟩, .ofBytes [5, 106, 0, 100, 0], 10⟩ ⟨0, 0, 0, 0⟩ 0,
          .updateGameWorld 0, .flushFrame] w ∧
      (w.players 1).map Player.pos = some (112, 104) ∧ MovesOnce .appending w := by
  obtain ⟨w, hrun, hpos⟩ : ∃ w, Run (fun w a w' => step .appending w a = .ok w') StartOk (init 0)
        [.createNewPlayer ⟨0, 1⟩ 1 99 99 0 true,
          .packet ⟨⟨0, 1⟩, .ofBytes [4, 100, 0, 100, 0], 10⟩ ⟨0, 0, 0, 0⟩ 0, .updateGameWorld 0,
          .flushFrame, .packet ⟨⟨0, 1⟩, .ofBytes [5, 106, 0, 100, 0], 10⟩ ⟨0, 0, 0, 0⟩ 0,
          .updateGameWorld 0, .flushFrame] w ∧
      (w.players 1).map Player.pos = some (112, 104) := by
    refine ⟨_, .cons rfl trivial <| .cons rfl ?_ <| .cons rfl trivial <| .cons rfl trivial <|
      .cons rfl ?_ <| .cons rfl trivial <| .cons rfl trivial .nil, rfl⟩
    · intro _ _ _ _ _
      exact List.not_mem_nil
    · intro _ p player hp hmoving
      obtain ⟨hlist, hplayer, -⟩ := hp
      cases hlist
      cases hplayer
      cases hmoving
  exact ⟨w, hrun, hpos, run_movesOnce hrun⟩

/-- A player starts, stops and starts again in one frame: the tick moves it by 12. -/
theorem start_stop_start :
    ∃ w w', Run (fun w a w' => step .appending w a = .ok w') anyStep (init 0)
        [.createNewPlayer ⟨0, 1⟩ 1 99 99 0 true,
          .packet ⟨⟨0, 1⟩, .ofBytes [4, 100, 0, 100, 0], 10⟩ ⟨0, 0, 0, 0⟩ 0,
          .packet ⟨⟨0, 1⟩, .ofBytes [4, 100, 0, 100, 0], 12⟩ ⟨0, 0, 0, 0⟩ 0,
          .packet ⟨⟨0, 1⟩, .ofBytes [4, 100, 0, 100, 0], 10⟩ ⟨0, 0, 0, 0⟩ 0] w ∧
      w.movingPlayerList = [1, 1] ∧ updateGameWorld .appending w 0 = .ok w' ∧
      (w.players 1).map Player.pos = some (100, 100) ∧
      (w'.players 1).map Player.pos = some (112, 100) ∧ ¬ MovesOnce .appending w := by
  refine ⟨_, _, runFn_iff_run.mp rfl, rfl, rfl, rfl, rfl, fun h => ?_⟩
  exact absurd h.once (by decide)

end GameLogic

end IocpServer
