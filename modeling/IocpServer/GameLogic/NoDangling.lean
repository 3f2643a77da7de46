import IocpServer.GameLogic.PendingRequests

/-!
# Pointers to freed players

`FlushFrame` takes the player it frees out of `activePlayerList`, its sector and `playerList`.  From
`movingPlayerList` only the purge takes it, which comes before the drain and drops the players that
are dead by then.  A request that is enqueued after the purge has kept its player, and before the
drain has ended, makes the drain free a player that `movingPlayerList` still names.

* `Timely` — the step condition: no request comes in between.
* `Lists` — the invariant: every entry is allocated, and the player of a queued request is not kept.
* `run_noDangling` — **in every run of timely requests, of attacks that stay in their tile and of
  players created in fresh slots, no entry names a freed player.**
-/

set_option autoImplicit false

namespace IocpServer

open Lib

namespace GameLogic

namespace Phases

/-! ## The promise and its condition -/

/-- Every entry of the four containers is an allocated player. -/
structure NoDangling (w : World) : Prop where
  playerList : ∀ i p, w.playerList i = some p → w.players p ≠ none
  active : ∀ p ∈ w.activePlayerList, w.players p ≠ none
  moving : ∀ p ∈ w.movingPlayerList, w.players p ≠ none
  sectors : ∀ k, ∀ p ∈ w.sectors k, w.players p ≠ none

/-- The purge of this `FlushFrame` has kept `p` on `movingPlayerList`. -/
def Kept (s : State) (p : Nat) : Prop :=
  match s.flush with
  | .idle | .scanning _ => False
  | .purging kept _ => p ∈ kept
  | .draining => p ∈ s.world.movingPlayerList

/-- The step condition: no request is enqueued for a player that the purge has kept. -/
def Timely (s : State) : Action → Prop
  | .destroy => ∀ id p, s.destroy = .marked id → s.world.playerList id.index = some p → ¬ Kept s p
  | _ => True

/-- The step conditions together. -/
structure FlushOk (g : Grid) (s : State) (b : Action) : Prop where
  tile : TileStep g s b
  fresh : FreshSlot s b
  timely : Timely s b

/-! ## The invariant -/

structure Lists (s : State) : Prop where
  active : ∀ p ∈ s.world.activePlayerList, s.world.players p ≠ none
  moving : ∀ p ∈ s.world.movingPlayerList, s.world.players p ≠ none
  purge : ∀ kept rest, s.flush = .purging kept rest → ∀ p ∈ kept ++ rest, s.world.players p ≠ none
  queued : ∀ id ∈ s.world.destroyPlayerRequestQueue, ∀ p, s.world.playerList id.index = some p →
    ¬ Kept s p

variable {g : Grid} {w w' : World} {s t : State} {p : Nat} {f : Player → Player}

/-- The logic thread's calls, and the scan. -/
theorem Lists.steady {flush flush' : FlushPc} {d : DestroyPc} (h : Lists ⟨w, flush, d⟩)
    (hsteady : Steady w w') (hpurge : ∀ kept rest, flush' ≠ .purging kept rest)
    (hdrain : flush' ≠ .draining) : Lists ⟨w', flush', d⟩ := by
  refine ⟨fun p hp => ?_, fun p hp => ?_, fun kept rest hflush => absurd hflush (hpurge kept rest),
    fun id _ p _ hkept => ?_⟩
  · exact hsteady.allocated (h.active p (hsteady.active ▸ hp))
  · rcases hsteady.moving p hp with hp | hp
    · exact hsteady.allocated (h.moving p hp)
    · exact hp
  · cases flush' with
    | idle | scanning => exact hkept
    | purging kept rest => exact hpurge kept rest rfl
    | draining => exact hdrain rfl

theorem Lists.created {d : DestroyPc} {i : Nat} (h : Lists ⟨w, .idle, d⟩)
    (hcreated : Created w p i w') : Lists ⟨w', .idle, d⟩ := by
  have hallocated : ∀ q, w.players q ≠ none → w'.players q ≠ none := by
    intro q hq
    by_cases hqp : q = p
    · subst hqp
      exact hcreated.self
    · rw [hcreated.other q hqp]
      exact hq
  refine ⟨fun q hq => ?_, fun q hq => ?_, nofun, fun _ _ _ _ hkept => hkept⟩
  · rw [hcreated.active] at hq
    rcases List.mem_append.mp hq with hq | hq
    · exact hallocated q (h.active q hq)
    · obtain rfl := List.mem_singleton.mp hq
      exact hcreated.self
  · rw [hcreated.moving] at hq
    exact hallocated q (h.moving q hq)

/-- A flag is set. -/
theorem Lists.modify {flush : FlushPc} {d d' : DestroyPc} (h : Lists ⟨w, flush, d⟩) :
    Lists ⟨w.modify p f, flush, d'⟩ := by
  have hallocated : ∀ q, w.players q ≠ none → (w.modify p f).players q ≠ none :=
    fun q hq => mt modify_eq_none.mp hq
  refine ⟨fun q hq => hallocated q (h.active q hq), fun q hq => hallocated q (h.moving q hq),
    fun kept rest hflush q hq => hallocated q (h.purge kept rest hflush q hq), ?_⟩
  cases flush <;> exact h.queued

/-- **One drained request.**  Its player is not kept, so no list names it any more. -/
theorem Lists.drain {d : DestroyPc} {id : SessionId} {queue : List SessionId} {player : Player}
    {msgs : List Sending} (h : Lists ⟨w, .draining, d⟩)
    (hqueue : w.destroyPlayerRequestQueue = id :: queue) (hlist : w.playerList id.index = some p) :
    Lists ⟨afterDestroy { w with destroyPlayerRequestQueue := queue } p player msgs, .draining,
      d⟩ := by
  have hp : p ∉ w.movingPlayerList := h.queued id (hqueue ▸ List.mem_cons_self) p hlist
  refine ⟨fun q hq => ?_, fun q hq => ?_, nofun, fun id' hid q hq => ?_⟩
  · obtain ⟨hq, hne⟩ := List.mem_filter.mp (afterDestroy_activePlayerList ▸ hq)
    rw [afterDestroy_players_ne (of_decide_eq_true hne)]
    exact h.active q hq
  · rw [afterDestroy_movingPlayerList] at hq
    have hqp : q ≠ p := ne_of_mem_of_not_mem hq hp
    rw [afterDestroy_players_ne hqp]
    exact h.moving q hq
  · rw [afterDestroy_queue] at hid
    have hmem : id' ∈ w.destroyPlayerRequestQueue := hqueue ▸ List.mem_cons_of_mem id hid
    have hkept := h.queued id' hmem q (afterDestroy_playerList_eq_some.mp hq).2
    unfold Kept at hkept ⊢
    rwa [afterDestroy_movingPlayerList]

/-- **Every step keeps the lists.** -/
theorem Lists.step {b : Action} (h : Lists s) (hrequested : Requested s) (hok : Timely s b)
    (hstep : Steps g s b t) : Lists t := by
  cases hstep with
  | logic ha hstep =>
    rcases steady_or_created ha hstep with hsteady | ⟨_, _, _, _, _, -, hcreated⟩
    · exact h.steady hsteady nofun nofun
    · exact h.created hcreated
  | scanStart => exact h.steady Steady.refl nofun nofun
  | scan hscan => exact h.steady (Steady.scanDead.of_ok hscan) nofun nofun
  | @purgeStart w d =>
    refine ⟨h.active, h.moving, fun kept rest hflush p hp => ?_, fun _ _ _ _ hkept => ?_⟩
    · cases hflush
      exact h.moving p hp
    · exact absurd hkept List.not_mem_nil
  | @purge w d p player kept rest hp =>
    -- a player that is kept is not dead, and those of the queue are
    have hmem : ∀ q ∈ (if player.isMoving && !player.isDead then kept ++ [p] else kept),
        q ∈ kept ∨ q = p ∧ player.isDead = false := by
      intro q hq
      split at hq
      · rename_i hkeep
        rcases List.mem_append.mp hq with hq | hq
        · exact Or.inl hq
        · exact Or.inr ⟨List.mem_singleton.mp hq, by simpa using (Bool.and_eq_true_iff.mp hkeep).2⟩
      · exact Or.inl hq
    refine ⟨h.active, h.moving, fun kept' rest' hflush q hq => ?_, fun id hid q hq hkept => ?_⟩
    · cases hflush
      apply h.purge kept (p :: rest) rfl
      rcases List.mem_append.mp hq with hq | hq
      · rcases hmem q hq with hq | ⟨rfl, -⟩
        · exact List.mem_append_left _ hq
        · exact List.mem_append_right _ List.mem_cons_self
      · exact List.mem_append_right _ (List.mem_cons_of_mem p hq)
    · rcases hmem q hkept with hkept | ⟨rfl, halive⟩
      · exact h.queued id hid q hq hkept
      · obtain ⟨player', hp', hdead⟩ := hrequested.queued id hid q hq
        rw [hp] at hp'
        cases hp'
        rw [halive] at hdead
        cases hdead
  | @drainStart w d kept =>
    refine ⟨h.active, fun p hp => h.purge kept [] rfl p (List.mem_append_left _ hp), nofun, ?_⟩
    exact h.queued
  | @drain w w' d id queue hqueue hdrain =>
    obtain ⟨p, player, msgs, hlist, -, -, rfl⟩ := destroyPlayer_eq_ok.mp hdrain
    exact h.drain hqueue hlist
  | drainEnd => exact h.steady Steady.refl nofun nofun
  | noPlayer => exact h
  | @find w f id p hlist => cases f <;> exact ⟨h.active, h.moving, h.purge, h.queued⟩
  | setDead => exact h.modify
  | setDestroyRequest => exact h.modify
  | @enqueue w f id =>
    refine ⟨h.active, h.moving, h.purge, fun id' hid p hp => ?_⟩
    have hkept : ¬ Kept ⟨w, f, .marked id⟩ p := by
      rcases List.mem_append.mp hid with hid | hid
      · exact h.queued id' hid p hp
      · obtain rfl := List.mem_singleton.mp hid
        exact hok id' p rfl hp
    cases f <;> exact hkept

/-! ## Runs -/

/-- The invariants together. -/
structure Sound (g : Grid) (s : State) : Prop where
  placed : Placed g s.world
  requested : Requested s
  lists : Lists s

theorem Sound.init (uniqueCharacterId : UInt32) : Sound g (init uniqueCharacterId) :=
  ⟨Placed.init uniqueCharacterId, ⟨nofun, trivial⟩, nofun, nofun, nofun, nofun⟩

theorem Sound.step {b : Action} (h : Sound g s) (hok : FlushOk g s b)
    (hstep : Phases.step g s b = .ok t) : Sound g t := by
  have hsteps := steps_of_step hstep
  exact ⟨hsteps.placed h.placed hok.tile, h.requested.step h.placed hok.fresh hsteps,
    h.lists.step h.requested hok.timely hsteps⟩

theorem Sound.noDangling (h : Sound g s) : NoDangling s.world := by
  refine ⟨fun i p hi => ?_, h.lists.active, h.lists.moving, h.placed.allocated⟩
  obtain ⟨player, hp, -⟩ := h.placed.stored i p hi
  rw [hp]
  exact Option.some_ne_none player

/-- **No dangling player.**  In every run in which no request is enqueued for a player that the
purge has kept before the drain has ended, each attack packet that is accepted names a position in
the tile its player stands in, and no player is created in a slot with a request on its way, no
entry of `playerList`, `activePlayerList`, `movingPlayerList` or a sector's set names a player that
has been freed. -/
theorem run_noDangling {uniqueCharacterId : UInt32} {as : List Action}
    (hr : Run (fun s b t => step g s b = .ok t) (FlushOk g) (init uniqueCharacterId) as s) :
    NoDangling s.world := by
  have hsound : Sound g s :=
    hr.invariant (Sound.init uniqueCharacterId) fun _ _ _ h hok hstep => h.step hok hstep
  exact hsound.noDangling

/-- A player walks, is disconnected while `FlushFrame` looks at the active players, and freed. -/
theorem run_noDangling_moving :
    ∃ s, Run (fun s b t => step .appending s b = .ok t) (FlushOk .appending) (init 0)
        [.logic (.createNewPlayer ⟨0, 1⟩ 1 126 0 0 true),
          .logic (.packet ⟨⟨0, 1⟩, .ofBytes [4, 127, 0, 1, 0], 10⟩ ⟨0, 0, 0, 0⟩ 0),
          .flush, .requestDestroyPlayer ⟨0, 1⟩, .destroy, .destroy, .destroy,
          .flush, .flush, .flush, .flush, .flush] s ∧
      s.world.players 1 = none ∧ NoDangling s.world := by
  obtain ⟨s, hrun, hfreed⟩ : ∃ s,
      Run (fun s b t => step .appending s b = .ok t) (FlushOk .appending) (init 0)
        [.logic (.createNewPlayer ⟨0, 1⟩ 1 126 0 0 true),
          .logic (.packet ⟨⟨0, 1⟩, .ofBytes [4, 127, 0, 1, 0], 10⟩ ⟨0, 0, 0, 0⟩ 0),
          .flush, .requestDestroyPlayer ⟨0, 1⟩, .destroy, .destroy, .destroy,
          .flush, .flush, .flush, .flush, .flush] s ∧ s.world.players 1 = none := by
    refine ⟨_, .cons rfl ⟨trivial, ?_, trivial⟩ <| .cons rfl ⟨?_, trivial, trivial⟩ <|
      .cons rfl ⟨trivial, trivial, trivial⟩ <| .cons rfl ⟨trivial, trivial, trivial⟩ <|
      .cons rfl ⟨trivial, trivial, ?_⟩ <| .cons rfl ⟨trivial, trivial, ?_⟩ <|
      .cons rfl ⟨trivial, trivial, ?_⟩ <| .cons rfl ⟨trivial, trivial, trivial⟩ <|
      .cons rfl ⟨trivial, trivial, trivial⟩ <| .cons rfl ⟨trivial, trivial, trivial⟩ <|
      .cons rfl ⟨trivial, trivial, trivial⟩ <| .cons rfl ⟨trivial, trivial, trivial⟩ .nil, rfl⟩
    · rintro - id (hid | hid) <;> cases hid
    · intro p player _ htype
      exact absurd htype (by decide)
    all_goals exact fun _ _ _ _ hkept => hkept
  exact ⟨s, hrun, hfreed, run_noDangling hrun⟩

/-- The same player is disconnected after the purge has kept it. -/
theorem moving_dangles :
    ¬ ∀ uniqueCharacterId as s,
      Run (fun s b t => step .appending s b = .ok t) anyStep (init uniqueCharacterId) as s →
        NoDangling s.world := by
  intro h
  have hnone := h 0 [.logic (.createNewPlayer ⟨0, 1⟩ 1 126 0 0 true),
    .logic (.packet ⟨⟨0, 1⟩, .ofBytes [4, 127, 0, 1, 0], 10⟩ ⟨0, 0, 0, 0⟩ 0),
    .flush, .flush, .flush, .flush, .flush,
    .requestDestroyPlayer ⟨0, 1⟩, .destroy, .destroy, .destroy, .flush] _ (runFn_iff_run.mp rfl)
  exact hnone.moving 1 (by decide) rfl

end Phases

end GameLogic

end IocpServer
