import IocpServer.GameLogic.Cursors
import IocpServer.GameLogic.PendingRequests
import IocpServer.Lib.RoundRobin
import Mathlib.Data.List.GetD

/-!
# The alive check goes round

A call of `UpdateGameWorld` checks at most 3000 entries of `activePlayerList` and leaves the cursor
behind the last one.  A cursor left over from a longer list is taken modulo the length.

* `checkedPositions` — the positions a call looks at.
* `Scanned` — the invariant of a run that leaves the list alone: the calls went round in turns.
* `run_covers` — **each call checks `min n 3000` different entries, and enough calls check all.**
* `run_active_nodup` — different entries are different players.
-/

set_option autoImplicit false

namespace IocpServer

open Lib

namespace GameLogic

/-- The positions of `activePlayerList` a call of `UpdateGameWorld` looks at. -/
def checkedPositions (w : World) : List Nat :=
  turns w.activePlayerList.length w.aliveCheckCursor (min chunkSize w.activePlayerList.length)

/-- The players at some positions of a list. -/
def playersAt (list positions : List Nat) : List Nat := positions.map (list.getD · 0)

/-- The players a call checks, as one entry of a log. -/
def checks (w : World) : Action → List (List Nat)
  | .updateGameWorld _ => [checkedPlayers w]
  | _ => []

/-- The call from `w` to `w'` runs `checkAlive` over `checked`, then makes its moves. -/
def CallChecks (g : Grid) (w : World) (timer : Int32) (w' : World) (checked : List Nat) : Prop :=
  updateGameWorld g w timer = .ok w' ∧
    ∃ w₁ w₂ processed, checked.foldlM (checkAlive timer) w = .ok w₁ ∧
      (List.range w.movingPlayerList.length).foldlM (moveEntry g w.movingPlayerList.length)
        ({ w₁ with aliveCheckCursor := nextAliveCheck w }, 0) = .ok (w₂, processed) ∧
      w' = if 0 < w.movingPlayerList.length then
        { w₂ with moveCursor := (w₂.moveCursor + processed) % w.movingPlayerList.length } else w₂

/-- A call that leaves `activePlayerList` as it is. -/
def ListKept (g : Grid) (w : World) (a : Action) (w' : World) : Prop :=
  step g w a = .ok w' ∧ w'.activePlayerList = w.activePlayerList

variable {g : Grid} {w w' : World} {list log : List Nat} {p q : Nat} {player : Player}
  {timer : Int32}

theorem checkedPlayers_eq (w : World) :
    checkedPlayers w = playersAt w.activePlayerList (checkedPositions w) := by
  simp [checkedPlayers, playersAt, checkedPositions, turns, window]

theorem callChecks (h : updateGameWorld g w timer = .ok w') :
    CallChecks g w timer w' (checkedPlayers w) := by
  obtain ⟨w₁, w₂, processed, hchecked, -, hmoved, heq⟩ := updateGameWorld_cases h
  exact ⟨h, w₁, w₂, processed, hchecked, hmoved, heq⟩

theorem nodup_playersAt {positions : List Nat} (hlist : list.Nodup) (h : positions.Nodup)
    (hlt : ∀ i ∈ positions, i < list.length) : (playersAt list positions).Nodup := by
  refine List.Nodup.map_on (fun i hi j hj hij => ?_) h
  simp only [List.getD_eq_getElem _ _ (hlt i hi), List.getD_eq_getElem _ _ (hlt j hj)] at hij
  exact (List.Nodup.getElem_inj_iff hlist).mp hij

/-! ## Runs -/

/-- The calls logged so far went round `list` from `start` on, and the next begins behind them. -/
structure Scanned (g : Grid) (list : List Nat) (start : Nat) (x : World × List (List Nat))
    (positions : List (List Nat)) : Prop where
  active : x.1.activePlayerList = list
  log_eq : x.2 = positions.map (playersAt list)
  calls : ∀ ps ∈ positions, ∃ v timer v', v.activePlayerList = list ∧
    updateGameWorld g v timer = .ok v' ∧ ps = checkedPositions v
  round : Contiguous (fun _ => true) list.length (min chunkSize list.length) start positions
    x.1.aliveCheckCursor

theorem Scanned.step {start : Nat} {x y : World × List (List Nat)} {a : Action}
    {positions : List (List Nat)} (h : Scanned g list start x positions)
    (hstep : logged (ListKept g) checks x a y) : ∃ positions, Scanned g list start y positions := by
  obtain ⟨⟨hstep, hkept⟩, hlog⟩ := hstep
  have hactive := hkept.trans h.active
  by_cases ha : ∃ timer, a = .updateGameWorld timer
  · obtain ⟨timer, rfl⟩ := ha
    have hserved : served (fun _ => true) list.length (min chunkSize list.length)
        x.1.aliveCheckCursor = checkedPositions x.1 := by
      rw [served_of_all (Nat.min_le_right _ _) fun _ _ => rfl, checkedPositions, h.active]
    have hround := h.round.snoc (Nat.min_le_right _ _) fun _ _ => rfl
    rw [hserved] at hround
    refine ⟨positions ++ [checkedPositions x.1], hactive, ?_, fun ps hps => ?_, ?_⟩
    · rw [hlog, h.log_eq, List.map_append]
      simp only [checks, checkedPlayers_eq, h.active, List.map_cons, List.map_nil]
    · rcases List.mem_append.mp hps with hps | hps
      · exact h.calls ps hps
      · exact ⟨_, timer, _, h.active, hstep, List.mem_singleton.mp hps⟩
    · have hnext : y.1.aliveCheckCursor =
          (x.1.aliveCheckCursor + (checkedPositions x.1).length) % list.length := by
        rw [updateGameWorld_aliveCheckCursor hstep, nextAliveCheck, h.active, checkedPositions,
          length_turns, h.active]
        split
        · rfl
        · rename_i hempty
          rw [Nat.eq_zero_of_not_pos hempty]
          simp
      rw [hnext]
      exact hround
  · have hcursors := step_cursors (fun timer heq => ha ⟨timer, heq⟩) hstep
    have hnone : checks x.1 a = [] := by
      cases a with
      | updateGameWorld timer => exact absurd ⟨timer, rfl⟩ ha
      | _ => rfl
    refine ⟨positions, hactive, by rw [hlog, hnone, List.append_nil, h.log_eq], h.calls, ?_⟩
    rw [hcursors.aliveCheckCursor]
    exact h.round

/-- `k` chunks reach round the list. -/
theorem length_le_chunks {n k : Nat} (h : (n + 2999) / 3000 ≤ k) : n ≤ min chunkSize n * k := by
  rcases Nat.le_total n chunkSize with hn | hn
  · rw [Nat.min_eq_right hn]
    rcases Nat.eq_zero_or_pos n with rfl | hpos
    · exact Nat.zero_le _
    · exact Nat.le_mul_of_pos_right n (by omega)
  · rw [Nat.min_eq_left hn]
    unfold chunkSize
    omega

/-- **Alive-check coverage.**  In every run that leaves a list of `n` active players as it is, from
any cursor: each call of `UpdateGameWorld` runs its check over the players at `min n 3000` different
positions, who are different players if the list names nobody twice; and if it makes at least
`n / 3000` calls, rounded up, it checks every player. -/
theorem run_covers {as : List Action} {log : List (List Nat)}
    (hr : Run (logged (ListKept g) checks) anyStep (w, []) as (w', log)) :
    (∀ checked ∈ log, (∃ v timer v', v.activePlayerList = w.activePlayerList ∧
        CallChecks g v timer v' checked) ∧ ∃ positions : List Nat, positions.Nodup ∧
      (∀ i ∈ positions, i < w.activePlayerList.length) ∧
      positions.length = min 3000 w.activePlayerList.length ∧
      checked = playersAt w.activePlayerList positions ∧
      (w.activePlayerList.Nodup → checked.Nodup)) ∧
    ((w.activePlayerList.length + 2999) / 3000 ≤ log.length →
      ∀ p ∈ w.activePlayerList, ∃ checked ∈ log, p ∈ checked) := by
  obtain ⟨positions, hscanned⟩ : ∃ positions,
      Scanned g w.activePlayerList w.aliveCheckCursor (w', log) positions :=
    hr.invariant (I := fun x => ∃ positions,
        Scanned g w.activePlayerList w.aliveCheckCursor x positions)
      ⟨[], rfl, rfl, by simp, Contiguous.nil⟩ fun _ _ _ ⟨_, h⟩ _ hstep => h.step hstep
  have hlog : log = positions.map (playersAt w.activePlayerList) := hscanned.log_eq
  constructor
  · intro checked hmem
    rw [hlog] at hmem
    obtain ⟨ps, hps, rfl⟩ := List.mem_map.mp hmem
    obtain ⟨v, timer, v', hactive, hcall, rfl⟩ := hscanned.calls ps hps
    rw [← hactive]
    have hnodup : (checkedPositions v).Nodup :=
      turns_nodup (Nat.min_le_right chunkSize v.activePlayerList.length)
    have hlt : ∀ i ∈ checkedPositions v, i < v.activePlayerList.length := by
      intro i hi
      refine lt_of_mem_turns hi (Nat.pos_of_ne_zero fun hzero => ?_)
      rw [checkedPositions, hzero] at hi
      simp [turns] at hi
    refine ⟨⟨v, timer, v', rfl, ?_⟩, _, hnodup, hlt, length_turns _ _ _, rfl,
      fun hlist => nodup_playersAt hlist hnodup hlt⟩
    rw [← checkedPlayers_eq]
    exact callChecks hcall
  · intro hcalls p hp
    obtain ⟨i, hi, rfl⟩ := List.mem_iff_getElem.mp hp
    rw [hlog, List.length_map] at hcalls
    have hmet : i ∈ turns w.activePlayerList.length w.aliveCheckCursor _ :=
      mem_turns (length_le_chunks hcalls) hi
    have hflat := hscanned.round.positions
    rw [List.filter_eq_self.mpr fun _ _ => rfl] at hflat
    rw [← hflat, List.mem_flatten] at hmet
    obtain ⟨ps, hps, his⟩ := hmet
    refine ⟨playersAt w.activePlayerList ps, by rw [hlog]; exact List.mem_map_of_mem hps, ?_⟩
    exact List.mem_map.mpr ⟨i, his, List.getD_eq_getElem _ _ hi⟩

/-- Four players, checked from a cursor left over from a longer list. -/
theorem run_covers_four :
    ∃ w w', w.activePlayerList = [1, 2, 3, 4] ∧ w.aliveCheckCursor = 6 ∧
      Run (logged (ListKept .appending) checks) anyStep (w, []) [.updateGameWorld 0]
        (w', [[3, 4, 1, 2]]) ∧
      (∃ v timer v', v.activePlayerList = [1, 2, 3, 4] ∧
        CallChecks .appending v timer v' [3, 4, 1, 2]) ∧
      ∀ p ∈ w.activePlayerList, ∃ checked ∈ [[3, 4, 1, 2]], p ∈ checked := by
  obtain ⟨w, w', hlist, hcursor, hr⟩ : ∃ w w', w.activePlayerList = [1, 2, 3, 4] ∧
      w.aliveCheckCursor = 6 ∧
      Run (logged (ListKept .appending) checks) anyStep (w, []) [.updateGameWorld 0]
        (w', [[3, 4, 1, 2]]) :=
    ⟨{ init 0 with
        players := fun _ => some (newPlayer (init 0) ⟨0, 1⟩ 99 99 0)
        activePlayerList := [1, 2, 3, 4]
        aliveCheckCursor := 6 }, _, rfl, rfl, .consLogged ⟨rfl, rfl⟩ trivial .nil⟩
  obtain ⟨hcalls, hall⟩ := run_covers hr
  rw [hlist] at hcalls hall
  refine ⟨w, w', hlist, hcursor, hr, (hcalls [3, 4, 1, 2] List.mem_cons_self).1, ?_⟩
  rw [hlist]
  exact hall (by decide)

/-! ## Different players -/

/-- The active players are allocated, and named once. -/
structure Distinct (w : World) : Prop where
  nodup : w.activePlayerList.Nodup
  allocated : ∀ p ∈ w.activePlayerList, w.players p ≠ none

theorem Distinct.steady (h : Distinct w) (hs : Phases.Steady w w') : Distinct w' := by
  refine ⟨hs.active ▸ h.nodup, fun p hp => ?_⟩
  exact hs.allocated (h.allocated p (hs.active ▸ hp))

/-- A new player is none of the old ones. -/
theorem Distinct.created {i : Nat} (h : Distinct w) (hc : Phases.Created w p i w') :
    Distinct w' := by
  have hout : p ∉ w.activePlayerList := fun hp => h.allocated p hp hc.fresh
  refine ⟨?_, fun q hq => ?_⟩
  · rw [hc.active, ← List.concat_eq_append]
    exact h.nodup.concat hout
  · rw [hc.active] at hq
    by_cases hqp : q = p
    · subst hqp
      exact hc.self
    · rw [hc.other q hqp]
      exact h.allocated q ((List.mem_append.mp hq).resolve_right (by simpa using hqp))

theorem Distinct.destroyPlayer {id : SessionId} (h : Distinct w) :
    Outcome Distinct (fun _ => True) (destroyPlayer g w id) := by
  cases hd : GameLogic.destroyPlayer g w id with
  | error e => trivial
  | ok w' =>
    obtain ⟨p, player, msgs, -, -, -, rfl⟩ := Phases.destroyPlayer_eq_ok.mp hd
    refine ⟨?_, fun q hq => ?_⟩
    · rw [Phases.afterDestroy_activePlayerList]
      exact h.nodup.filter _
    · obtain ⟨hq, hne⟩ := List.mem_filter.mp (Phases.afterDestroy_activePlayerList ▸ hq)
      rw [Phases.afterDestroy_players_ne (of_decide_eq_true hne)]
      exact h.allocated q hq

theorem Distinct.flushFrame (h : Distinct w) :
    Outcome Distinct (fun _ => True) (flushFrame g w) := by
  unfold GameLogic.flushFrame
  refine Outcome.bind (P := Distinct) (Outcome.foldlM h fun w' p h _ => ?_) fun w' h => ?_
  · exact Phases.Steady.scanDead.weaken (fun _ hs => h.steady hs) fun _ h => h
  refine Outcome.bind (P := Distinct) ?_ fun w' h => ?_
  · unfold purgeMoving
    apply outcome_any.bind
    intro moving _
    exact ⟨h.nodup, h.allocated⟩
  exact Outcome.bind (P := Distinct) (Outcome.foldlM h fun w' id h _ => h.destroyPlayer)
    fun w' h => ⟨h.nodup, h.allocated⟩

theorem Distinct.step {a : Action} (h : Distinct w) (hstep : step g w a = .ok w') :
    Distinct w' := by
  cases a with
  | createNewPlayer id p randX randY now registered =>
    rcases Phases.outcome_createNewPlayer.of_ok hstep with ⟨-, hcreated⟩ | hsteady
    · exact h.created hcreated
    · exact h.steady hsteady
  | packet ipi locals now =>
    exact h.steady ((Phases.steady_calls.processPacket Phases.Steady.refl packetOk_any).of_ok hstep)
  | updateGameWorld timer =>
    exact h.steady ((Phases.steady_calls.updateGameWorld Phases.Steady.refl).of_ok hstep)
  | flushFrame => exact h.flushFrame.of_ok hstep
  | requestDestroyPlayer id =>
    refine Outcome.of_ok (P := Distinct) (E := fun _ => True) ?_ hstep
    unfold GameLogic.step requestDestroyPlayer
    dsimp only
    split
    · exact h
    · apply outcome_any.bind
      intro player _
      exact ⟨h.nodup, fun p hp => mt Phases.modify_eq_none.mp (h.allocated p hp)⟩

/-- **In every run `activePlayerList` names nobody twice.** -/
theorem run_active_nodup {uniqueCharacterId : UInt32} {as : List Action}
    (hr : Run (fun w a w' => step g w a = .ok w') anyStep (init uniqueCharacterId) as w) :
    w.activePlayerList.Nodup :=
  have hdistinct : Distinct w :=
    hr.invariant ⟨List.nodup_nil, fun _ hp => by cases hp⟩ fun _ _ _ h _ hstep => h.step hstep
  hdistinct.nodup

end GameLogic

end IocpServer
