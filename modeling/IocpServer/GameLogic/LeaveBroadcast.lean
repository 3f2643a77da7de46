import IocpServer.GameLogic.PendingRequests
import IocpServer.GameLogic.ClientView

/-!
# Who is told that a player has left

`FlushFrame` broadcasts `SC_DELETE_CHARACTER` for the player it frees.  `SendAOI` skips every
recipient when the *sender* is dead, and `RequestDestroyPlayer`, which every way out of the game
leads to, has set `isDead` before.

* `LeaveBroadcast` — everybody near is sent the message once.
* `run_leaveBroadcast` — **it holds exactly if the player freed is not dead or nobody is near.**
* `run_drained_dead` — **no player created in a slot with a request on its way: the player freed is
  dead.**
-/

set_option autoImplicit false

namespace IocpServer

open Lib

namespace GameLogic

namespace Phases

/-- Another player that is alive stands in a sector around that of `player`, the one at `p`. -/
def Near (g : Grid) (w : World) (p : Nat) (player : Player) (q : Nat) : Prop :=
  q ≠ p ∧ ∃ other i j, w.players q = some other ∧ other.isDead = false ∧
    player.currentSector = some i ∧ other.currentSector = some j ∧ g.Around i j

/-- The message says that `player` has left, to the player at `q`. -/
def TellsLeave (w : World) (player : Player) (q : Nat) (m : Sending) : Prop :=
  ∃ other, w.players q = some other ∧
    m = (other.sessionId, .deleteCharacter player.playerId.characterId)

/-- Every player near is told once. -/
def LeaveBroadcast (g : Grid) (w : World) (p : Nat) (player : Player) (msgs : List Sending) :
    Prop :=
  ∃ recipients, List.Forall₂ (TellsLeave w player) recipients msgs ∧
    ∀ q, Near g w p player q → recipients.count q = 1

/-- `FlushFrame` is about to drain the request for the player at `p`. -/
structure Drains (s : State) (p : Nat) (player : Player) : Prop where
  flush : s.flush = .draining
  request : ∃ id queue, s.world.destroyPlayerRequestQueue = id :: queue ∧
    s.world.playerList id.index = some p
  player : s.world.players p = some player

variable {g : Grid} {w : World} {p q i : Nat} {player other : Player} {msgs : List Sending}
  {msg : ScMessage} {s t : State}

/-- Where a session is nobody else's, the message goes to it once. -/
theorem LeaveBroadcast.count_messages (h : LeaveBroadcast g w p player msgs)
    (hq : w.players q = some other) (hnear : Near g w p player q)
    (hsession : ∀ r third, w.players r = some third → third.sessionId = other.sessionId → r = q) :
    msgs.count (other.sessionId, .deleteCharacter player.playerId.characterId) = 1 := by
  obtain ⟨recipients, htold, honce⟩ := h
  rw [← honce q hnear]
  clear honce
  induction htold with
  | nil => rfl
  | @cons r m _ _ hr _ ih =>
    obtain ⟨third, hthird, rfl⟩ := hr
    rw [List.count_cons, List.count_cons, ih]
    by_cases hrq : r = q
    · subst hrq
      rw [hq] at hthird
      cases hthird
      simp
    · have hother : third.sessionId ≠ other.sessionId := fun he => hrq (hsession r third hthird he)
      simp [hrq, hother]

/-! ## What the drain sends -/

/-- A dead player tells nobody anything. -/
theorem sendAOI_dead (hp : w.players p = some player) (hdead : player.isDead = true)
    (hi : player.currentSector = some i) : sendAOI g w p msg false = .ok [] := by
  unfold sendAOI
  rw [deref_ok hp]
  show (player.sector >>= _) = _
  rw [sector_eq hi]
  show (List.mapM _ (_ ++ _)) = _
  rw [hdead]
  simp only [Bool.true_or, Bool.not_true, List.filter_false, List.append_nil]
  rfl

/-- A player that is not dead tells everybody nearby. -/
theorem sendAOI_alive (hw : Placed g w) (hp : w.players p = some player)
    (hdead : player.isDead = false) (hi : player.currentSector = some i) :
    ∃ msgs, sendAOI g w p (.deleteCharacter player.playerId.characterId) false = .ok msgs ∧
      List.Forall₂ (TellsLeave w player) (nearby g w p player i) msgs := by
  rw [sendAOI_eq hp hdead hi]
  apply Outcome.exists_ok
  refine Outcome.forall₂ fun q hq => ?_
  have hallocated : w.players q ≠ none := by
    rcases List.mem_append.mp hq with hq | hq
    · exact hw.allocated i q (List.mem_filter.mp hq).1
    · obtain ⟨k, -, hk⟩ := List.mem_flatMap.mp hq
      exact hw.allocated k q hk
  obtain ⟨other, hother⟩ := Option.ne_none_iff_exists'.mp hallocated
  rw [deref_ok hother]
  exact ⟨other, hother, rfl⟩

/-- The sets of players hold no player twice. -/
theorem nodup_invariant : PlaceInvariant g (fun w => ∀ k, (w.sectors k).Nodup) (fun _ => True)
    (fun _ _ => True) (fun _ _ => True) where
  fault := fun _ _ => trivial
  same := fun _ _ h hn k => h.sectors ▸ hn k
  stay := fun _ _ _ _ _ => trivial
  tick := fun _ _ _ _ => trivial
  move := by
    intro w w' p player new hn _ _ hsame
    have hn' : ∀ k, (w'.sectors k).Nodup := fun k => hsame.sectors ▸ hn k
    exact outcome_checkSector_moved hn' fun _ _ _ => nodup_enter (nodup_leave hn')
  attack := fun _ _ _ _ hn _ _ => hn
  create := by
    intro w p player hn _ _ _
    exact outcome_sectorAt.weaken (fun _ _ => nodup_enter hn) fun _ _ => trivial
  remove := by
    intro w j p player hn _ _
    cases hi : player.currentSector with
    | none => simpa only [free_sectors, World.leaveSector, hi] using hn
    | some i => simpa only [free_sectors, World.leaveSector, hi] using nodup_leave hn

/-- It needs nothing of the positions stored. -/
theorem phaseOk_any {b : Action} : PhaseOk (fun _ _ => True) (fun _ _ => True) s b := by
  cases b with
  | logic a => exact packetOk_any
  | _ => trivial

/-- **The broadcast.**  The drain goes through, and everybody near is told once unless the player
that leaves is dead; then nobody is. -/
theorem leaveBroadcast_iff (hw : Placed g s.world) (hn : ∀ k, (s.world.sectors k).Nodup)
    (h : Drains s p player) : ∃ t msgs, step g s .flush = .ok t ∧
      t.world.sent = s.world.sent ++ msgs ∧
      (LeaveBroadcast g s.world p player msgs ↔
        (player.isDead = true → ∀ q, ¬ Near g s.world p player q)) := by
  obtain ⟨w, _, d⟩ := s
  obtain ⟨rfl, ⟨id, queue, hqueue, hlist⟩, hp⟩ := h
  dsimp only at *
  obtain ⟨i, hi, hindex, -⟩ := hw.sector p player hp
  have hdrain : ∀ msgs,
      sendAOI g w p (.deleteCharacter player.playerId.characterId) false = .ok msgs →
      ∃ t, step g ⟨w, .draining, d⟩ .flush = .ok t ∧ t.world.sent = w.sent ++ msgs := by
    intro msgs hmsgs
    have hdestroy := destroyPlayer_eq_ok.mpr ⟨p, player, msgs, hlist, hp, hmsgs, rfl⟩
    refine ⟨⟨{ afterDestroy w p player msgs with destroyPlayerRequestQueue := queue }, .draining,
      d⟩, ?_, afterDestroy_sent⟩
    simp only [step, flushStep, hqueue]
    rw [destroyPlayer_queue hdestroy]
    rfl
  cases hdead : player.isDead with
  | true =>
    obtain ⟨t, hstep, hsent⟩ := hdrain [] (sendAOI_dead hp hdead hi)
    refine ⟨t, [], hstep, hsent, ?_, fun hnobody => ?_⟩
    · rintro ⟨recipients, htold, honce⟩ - q hnear
      cases htold
      exact absurd (honce q hnear) (by simp)
    · exact ⟨[], .nil, fun q hnear => absurd hnear (hnobody rfl q)⟩
  | false =>
    obtain ⟨msgs, hmsgs, htold⟩ := sendAOI_alive hw hp hdead hi
    obtain ⟨t, hstep, hsent⟩ := hdrain msgs hmsgs
    refine ⟨t, msgs, hstep, hsent, fun _ hdead => (by cases hdead), fun _ => ⟨_, htold, ?_⟩⟩
    rintro q ⟨hqp, other, i', j, hq, -, hi', hj, haround⟩
    rw [hi] at hi'
    cases hi'
    have hsector : w.sectorOf q = some j := by
      rw [World.sectorOf, hq]
      exact hj
    rw [hw.count_nearby hn hindex hqp hsector, if_pos haround]

/-! ## Runs -/

/-- **The leave broadcast.**  In every run in which each attack packet that is accepted names a
position in the tile its player stands in, the drain of a request sends `SC_DELETE_CHARACTER` once
to every other live player near if and only if the player freed is not dead or nobody is near. -/
theorem run_leaveBroadcast {uniqueCharacterId : UInt32} {as : List Action}
    (hr : Run (fun s b t => step g s b = .ok t) (TileStep g) (init uniqueCharacterId) as s)
    (h : Drains s p player) : ∃ t msgs, step g s .flush = .ok t ∧
      t.world.sent = s.world.sent ++ msgs ∧
      (LeaveBroadcast g s.world p player msgs ↔
        (player.isDead = true → ∀ q, ¬ Near g s.world p player q)) := by
  have hinv : Placed g s.world ∧ ∀ k, (s.world.sectors k).Nodup := by
    refine hr.invariant (I := fun s => Placed g s.world ∧ ∀ k, (s.world.sectors k).Nodup)
      ⟨Placed.init uniqueCharacterId, fun _ => List.nodup_nil⟩ ?_
    intro _ _ _ ⟨hw, hn⟩ hok hstep
    have hsteps := steps_of_step hstep
    exact ⟨hsteps.placed hw hok, hsteps.places nodup_invariant hn phaseOk_any⟩
  exact leaveBroadcast_iff hinv.1 hinv.2 h

/-- Two players in one tile; the first is disconnected. -/
theorem run_leaveBroadcast_two_players :
    ∃ s player, Run (fun s b t => step .appending s b = .ok t) (TileStep .appending) (init 0)
        [.logic (.createNewPlayer ⟨0, 1⟩ 1 126 0 0 true),
          .logic (.createNewPlayer ⟨1, 2⟩ 2 126 0 0 true),
          .requestDestroyPlayer ⟨0, 1⟩, .destroy, .destroy, .destroy,
          .flush, .flush, .flush, .flush, .flush] s ∧
      Drains s 1 player ∧ player.isDead = true ∧
      ∃ t msgs, step .appending s .flush = .ok t ∧ t.world.sent = s.world.sent ++ msgs ∧
        (LeaveBroadcast .appending s.world 1 player msgs ↔
          (player.isDead = true → ∀ q, ¬ Near .appending s.world 1 player q)) := by
  obtain ⟨s, player, hrun, hdrains, hdead⟩ : ∃ s player,
      Run (fun s b t => step .appending s b = .ok t) (TileStep .appending) (init 0)
        [.logic (.createNewPlayer ⟨0, 1⟩ 1 126 0 0 true),
          .logic (.createNewPlayer ⟨1, 2⟩ 2 126 0 0 true),
          .requestDestroyPlayer ⟨0, 1⟩, .destroy, .destroy, .destroy,
          .flush, .flush, .flush, .flush, .flush] s ∧
      Drains s 1 player ∧ player.isDead = true := by
    refine ⟨_, _, .cons rfl trivial <| .cons rfl trivial <| .cons rfl trivial <|
      .cons rfl trivial <| .cons rfl trivial <| .cons rfl trivial <| .cons rfl trivial <|
      .cons rfl trivial <| .cons rfl trivial <| .cons rfl trivial <| .cons rfl trivial .nil,
      ⟨rfl, ⟨_, _, rfl, rfl⟩, rfl⟩, rfl⟩
  exact ⟨s, player, hrun, hdrains, hdead, run_leaveBroadcast hrun hdrains⟩

/-- The second of them is told nothing. -/
theorem leave_not_broadcast :
    ¬ ∀ uniqueCharacterId as s p player,
      Run (fun s b t => step .appending s b = .ok t) anyStep (init uniqueCharacterId) as s →
        Drains s p player → ∃ t msgs, step .appending s .flush = .ok t ∧
          t.world.sent = s.world.sent ++ msgs ∧
          LeaveBroadcast .appending s.world p player msgs := by
  intro h
  obtain ⟨t, msgs, hstep, hsent, recipients, htold, honce⟩ :=
    h 0 [.logic (.createNewPlayer ⟨0, 1⟩ 1 126 0 0 true),
      .logic (.createNewPlayer ⟨1, 2⟩ 2 126 0 0 true),
      .requestDestroyPlayer ⟨0, 1⟩, .destroy, .destroy, .destroy,
      .flush, .flush, .flush, .flush, .flush] _ 1 _ (runFn_iff_run.mp rfl)
      ⟨rfl, ⟨_, _, rfl, rfl⟩, rfl⟩
  cases hstep
  obtain rfl : msgs = [] := List.self_eq_append_right.mp hsent
  cases htold
  have hnear := honce 2 ⟨by decide, _, 0, 0, rfl, rfl, rfl, rfl, by decide⟩
  exact absurd hnear (by decide)

/-- **Whoever is drained is dead**, when no player is created in a slot with a request on its
way. -/
theorem run_drained_dead {uniqueCharacterId : UInt32} {as : List Action}
    (hr : Run (fun s b t => step g s b = .ok t) (fun s b => TileStep g s b ∧ FreshSlot s b)
      (init uniqueCharacterId) as s) (h : Drains s p player) : player.isDead = true := by
  have hinv : Placed g s.world ∧ Requested s := by
    refine hr.invariant (I := fun s => Placed g s.world ∧ Requested s)
      ⟨Placed.init uniqueCharacterId, nofun, trivial⟩ ?_
    intro _ _ _ ⟨hw, hrequested⟩ hok hstep
    have hsteps := steps_of_step hstep
    exact ⟨hsteps.placed hw hok.1, hrequested.step hw hok.2 hsteps⟩
  obtain ⟨id, queue, hqueue, hlist⟩ := h.request
  obtain ⟨player', hp, hdead⟩ := hinv.2.queued id (hqueue ▸ List.mem_cons_self) p hlist
  rw [h.player] at hp
  cases hp
  exact hdead

end Phases

end GameLogic

end IocpServer
