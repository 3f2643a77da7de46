import IocpServer.GameLogic.DeathTerminal
import IocpServer.GameLogic.FramePacing
import IocpServer.GameLogic.Untouched

/-!
# The idle timeout

`lastRecvTime` and `timer` are `int`s filled from `timeGetTime()`.  `UpdateGameWorld` compares
`timer` with `lastRecvTime` and with `lastRecvTime + 30000`, and the sum and either clock jump from
the largest `int` to the smallest.

* `hear` — a history variable: the real time at which each player's `lastRecvTime` was stored.
* `run_lastRecvTime` — the invariant: `lastRecvTime` is what the clock showed then.
* `dying_iff` — when a checked player is marked, in real times.
* `run_timeout_iff` — **in every run a player is marked rightly exactly under `TimesOut`.**
-/

set_option autoImplicit false

namespace IocpServer

open Lib

namespace GameLogic

/-- The `int` that `timeGetTime()` yields at the real time `now`. -/
def clock (now : Nat) : Int32 := (timeGetTime now).toInt32

/-- The call reads the clock at the real time `now`. -/
def ReadAt (now : Nat) : Action → Prop
  | .createNewPlayer _ _ _ _ time _ => time = clock now
  | .packet _ _ time => time = clock now
  | .updateGameWorld timer => timer = clock now
  | _ => True

/-- The history variable behind a call: `CreateNewPlayer` and a packet of the player store
`lastRecvTime`. -/
def hear (w : World) (heard : Nat → Nat) (now : Nat) (a : Action) (q : Nat) : Nat :=
  match a with
  | .createNewPlayer _ p _ _ _ _ => if q = p then now else heard q
  | .packet ipi _ _ =>
    if w.playerList ipi.playerId.index = some q ∧ w.read Player.playerId q = some ipi.playerId
    then now else heard q
  | _ => heard q

/-- A call at a real time, and its entry in the history variable. -/
def Heard (g : Grid) (x : World × (Nat → Nat)) (a : Nat × Action) (y : World × (Nat → Nat)) :
    Prop :=
  step g x.1 a.2 = .ok y.1 ∧ ReadAt a.1 a.2 ∧ y.2 = hear x.1 x.2 a.1 a.2

variable {g : Grid} {w w' : World} {heard : Nat → Nat} {now p q : Nat} {player player' : Player}
  {ipi : IncomingPacketInfo} {locals : Locals} {time : Int32}

/-! ## What `lastRecvTime` holds -/

theorem lastRecvTime_untouched : Untouched Player.lastRecvTime :=
  ⟨fun _ _ => rfl, fun _ _ _ => rfl, fun _ _ _ _ => rfl, fun _ _ => rfl, fun _ _ => rfl⟩

/-- Every player's `lastRecvTime` is what the clock showed at the time in `heard`. -/
def Stamped (w : World) (heard : Nat → Nat) : Prop :=
  ∀ q player, w.players q = some player → player.lastRecvTime = clock (heard q)

theorem Stamped.keep (h : Stamped w heard) (hk : Keeps Player.lastRecvTime w w') :
    Stamped w' heard := by
  intro q player' hq
  obtain ⟨player, hp, heq⟩ := hk q player' hq
  exact heq.trans (h q player hp)

/-- A packet of the player at `p` has been taken. -/
theorem Stamped.received (h : Stamped w heard) (hp : Addressed w ipi p player) :
    Stamped (received w p (clock now)) (hear w heard now (.packet ipi locals time)) := by
  intro q player' hq
  have hid : w.read Player.playerId p = some ipi.playerId := by
    rw [read_eq_some hp.2.1, hp.2.2]
  by_cases hqp : q = p
  · subst hqp
    rw [received_self hp.2.1] at hq
    cases hq
    simp only [hear, hp.1, hid, and_self, if_true]
  · rw [received_ne hqp] at hq
    have hother : ¬w.playerList ipi.playerId.index = some q := by
      rw [hp.1]
      exact fun heq => hqp (Option.some.inj heq).symm
    simp only [hear, hother, false_and, if_false]
    exact h q player' hq

/-- A packet that nobody sent is dropped. -/
theorem hear_dropped (hnone : ∀ p player, ¬Addressed w ipi p player) :
    hear w heard now (.packet ipi locals time) = heard := by
  funext q
  simp only [hear]
  refine if_neg fun ⟨hlist, hid⟩ => ?_
  obtain ⟨player, hq, heq⟩ := Option.map_eq_some_iff.mp hid
  exact hnone q player ⟨hlist, hq, heq⟩

theorem Stamped.packet (h : Stamped w heard) :
    Outcome (fun w' => Stamped w' (hear w heard now (.packet ipi locals time))) (fun _ => True)
      (processPacket g w ipi locals (clock now)) := by
  refine outcome_packet trivial (fun hnone => ?_) (fun p player hp _ => ?_)
    (fun p player hp _ => ?_) (fun attack p player hp _ => ?_) (fun p player hp _ => ?_)
    (fun p player hp _ _ => ?_)
  · rw [hear_dropped hnone]
    exact h
  · refine (keeps_packetProcMoveStart lastRecvTime_untouched (fun _ _ => rfl)
      (received_self hp.2.1)).weaken (fun _ hk => ?_) fun _ h => h
    exact (h.received hp).keep hk
  · refine (keeps_packetProcMoveStop lastRecvTime_untouched (received_self hp.2.1)).weaken
      (fun _ hk => ?_) fun _ h => h
    exact (h.received hp).keep hk
  · refine (keeps_packetProcAttack lastRecvTime_untouched (received_self hp.2.1)).weaken
      (fun _ hk => ?_) fun _ h => h
    exact (h.received hp).keep hk
  · refine (keeps_packetProcEcho Player.lastRecvTime (received_self hp.2.1)).weaken
      (fun _ hk => ?_) fun _ h => h
    exact (h.received hp).keep hk
  · exact h.received hp

theorem Stamped.step {a : Action} (h : Stamped w heard) (hread : ReadAt now a)
    (hstep : step g w a = .ok w') : Stamped w' (hear w heard now a) := by
  cases a with
  | createNewPlayer id p randX randY time registered =>
    cases hread
    intro q player' hq
    rcases (keeps_createNewPlayer lastRecvTime_untouched).of_ok hstep q player' hq with
      hold | ⟨rfl, -, -, hnew⟩
    · have hqp : q ≠ p := by
        rintro rfl
        simp only [GameLogic.step, createNewPlayer, hold] at hstep
        cases hstep
      simp only [hear, if_neg hqp]
      exact h q player' hold
    · simp only [hear, if_true]
      exact hnew
  | packet ipi locals time =>
    cases hread
    exact h.packet.of_ok hstep
  | updateGameWorld timer =>
    exact h.keep ((keeps_updateGameWorld lastRecvTime_untouched).of_ok hstep)
  | flushFrame => exact h.keep ((keeps_flushFrame lastRecvTime_untouched).of_ok hstep)
  | requestDestroyPlayer id =>
    exact h.keep ((keeps_requestDestroyPlayer lastRecvTime_untouched).of_ok hstep)

/-- **In every run `lastRecvTime` is what the clock showed when it was last stored.** -/
theorem run_lastRecvTime {uniqueCharacterId : UInt32} {heard₀ : Nat → Nat}
    {as : List (Nat × Action)}
    (hr : Run (Heard g) anyStep (init uniqueCharacterId, heard₀) as (w, heard)) :
    Stamped w heard := by
  refine hr.invariant (I := fun x => Stamped x.1 x.2) (fun _ _ hq => by cases hq) ?_
  intro x a y h _ hstep
  rw [hstep.2.2]
  exact h.step hstep.2.1 hstep.1

/-! ## The test -/

/-- Whom a check marks, in real times. -/
theorem dying_iff (h : Stamped w heard) (hp : w.players p = some player) (hhp : player.hp ≠ 0)
    (hchecked : p ∈ checkedPlayers w) :
    p ∈ dying w (clock now) ↔
      signed (heard p) < signed now ∧ signed (heard p + 30000) < signed now := by
  have hlimit : player.lastRecvTime + dfNetworkPacketRecvTimeout = signed (heard p + 30000) := by
    rw [h p player hp]
    exact signedAdd (heard p) 30000
  rw [dying, List.mem_filter, hp]
  simp only [Option.map_some, Option.getD_some, hchecked, true_and, expired, decide_eq_true_iff,
    hhp, or_false, hlimit]
  rw [h p player hp]
  exact Iff.rfl

/-- **Idle timeout.**  In every run, a check within `2^31` milliseconds of the player's last packet
(or creation) marks it exactly if more than 30000 ms have passed, exactly under `TimesOut`; it sets
`isDead` of the players it marks and of nobody else. -/
theorem run_timeout_iff {uniqueCharacterId : UInt32} {heard₀ : Nat → Nat}
    {as : List (Nat × Action)}
    (hr : Run (Heard g) anyStep (init uniqueCharacterId, heard₀) as (w, heard))
    (hp : w.players p = some player) (hhp : player.hp ≠ 0) (hchecked : p ∈ checkedPlayers w)
    (hlater : heard p ≤ now) (hsoon : now - heard p < 2147483648)
    (h : step g w (.updateGameWorld (clock now)) = .ok w') :
    ((p ∈ dying w (clock now) ↔ 30000 < now - heard p) ↔
      TimesOut (heard p) (now - heard p) 30000) ∧
    w'.read Player.isDead p = some (player.isDead || decide (p ∈ dying w (clock now))) := by
  refine ⟨?_, updateGameWorld_isDead h hp⟩
  obtain ⟨passed, rfl⟩ := Nat.exists_eq_add_of_le hlater
  rw [Nat.add_sub_cancel_left] at hsoon ⊢
  rw [dying_iff (run_lastRecvTime hr) hp hhp hchecked]
  exact timeout_right_iff hsoon (by omega)

/-- A call, and its entry in the history variable. -/
theorem heard_step {a : Action} (hread : ReadAt now a) (h : step g w a = .ok w') :
    Heard g (w, heard) (now, a) (w', hear w heard now a) := ⟨h, hread, rfl⟩

/-- A player created at time 0 is checked 40 seconds later. -/
theorem run_timeout_iff_idle :
    ∃ w heard w', Run (Heard .appending) anyStep (init 0, fun _ => 0)
        [(0, .createNewPlayer ⟨0, 1⟩ 1 99 99 (clock 0) true)] (w, heard) ∧
      step .appending w (.updateGameWorld (clock 40000)) = .ok w' ∧
      1 ∈ dying w (clock 40000) ∧
      w'.read Player.isDead 1 = some (false || decide (1 ∈ dying w (clock 40000))) := by
  obtain ⟨w, heard, player, w', hr, hp, hhp, halive, hchecked, hheard, h⟩ :
      ∃ w heard player w', Run (Heard .appending) anyStep (init 0, fun _ => 0)
        [(0, .createNewPlayer ⟨0, 1⟩ 1 99 99 (clock 0) true)] (w, heard) ∧
      w.players 1 = some player ∧ player.hp ≠ 0 ∧ player.isDead = false ∧
      1 ∈ checkedPlayers w ∧ heard 1 = 0 ∧
      step .appending w (.updateGameWorld (clock 40000)) = .ok w' :=
    ⟨_, _, _, _, .cons (heard_step rfl rfl) trivial .nil, rfl, by decide, rfl, .head _, rfl, rfl⟩
  have hmarks := run_timeout_iff hr hp hhp hchecked (by omega) (by omega) h
  rw [hheard, halive] at hmarks
  refine ⟨w, heard, w', hr, h, ?_, hmarks.2⟩
  exact (hmarks.1.mpr (.inl (by decide))).mpr (by decide)

/-- Created 48 ms before the signed clock jumps, a player is marked one millisecond later. -/
theorem marked_after_one_ms :
    ∃ w heard player w', Run (Heard .appending) anyStep (init 0, fun _ => 0)
        [(2147483600, .createNewPlayer ⟨0, 1⟩ 1 99 99 (clock 2147483600) true)] (w, heard) ∧
      w.players 1 = some player ∧ player.hp ≠ 0 ∧ player.isDead = false ∧
      1 ∈ checkedPlayers w ∧ heard 1 = 2147483600 ∧
      step .appending w (.updateGameWorld (clock 2147483601)) = .ok w' ∧
      w'.read Player.isDead 1 = some true ∧
      ¬(1 ∈ dying w (clock 2147483601) ↔ 30000 < 2147483601 - heard 1) :=
  ⟨_, _, _, _, .cons (heard_step rfl rfl) trivial .nil, rfl, by decide, rfl, .head _, rfl, rfl, rfl,
    by decide⟩

end GameLogic

end IocpServer
