import IocpServer.GameLogic.PacketEffects
import IocpServer.Lib.Run

/-!
# No teleport

The five movement handlers reject a position that is more than `dfERROR_RANGE` away and send
`SC_SYNC` instead.  `CS_MOVE_STOP` and the attacks do so only while `isSynced` is false, and the
first rejection sets it for good.

* `Lawful` — a packet moves its player by at most `dfERROR_RANGE`, or not at all.
* `SyncOk` — the condition: no far position comes from a player who was corrected before.
* `lawful_iff` — **a packet is lawful if and only if it meets the condition.**
* `run_lawful_iff` — **so is a run.**
-/

set_option autoImplicit false

namespace IocpServer

open Lib

namespace GameLogic

/-- At most `dfERROR_RANGE` apart, in each coordinate. -/
def InRange (old new : Pos) : Prop :=
  ((new.1.toNat : Int) - old.1.toNat).natAbs ≤ dfErrorRange ∧
    ((new.2.toNat : Int) - old.2.toNat).natAbs ≤ dfErrorRange

/-- The packets that carry a position. -/
def IsMovement (packetType : UInt8) : Prop := packetType = dfPacketCsMoveStart ∨ IsStop packetType

/-- The law of a step: a movement packet moves its player by at most `dfERROR_RANGE`; from a
position that is further away it does not move it and sends `SC_SYNC`. -/
def Lawful (g : Grid) (w : World) : Action → Prop
  | .packet ipi locals now => ∀ p player w', Addressed w ipi p player → IsMovement ipi.packetType →
    processPacket g w ipi locals now = .ok w' →
      ∃ player', w'.players p = some player' ∧ InRange player.pos player'.pos ∧
        (tooFar player (readMove ipi.packetBuffer locals) = true → player'.pos = player.pos ∧
          ∃ msgs, w'.sent = w.sent ++ msgs ∧ syncMessage player ∈ msgs)
  | _ => True

/-- No `CS_MOVE_STOP` and no attack of a synced player names a position that is too far away. -/
def SyncOk (w : World) : Action → Prop
  | .packet ipi locals _ => IsStop ipi.packetType → ∀ p player, Addressed w ipi p player →
    player.isSynced = true → tooFar player (readMove ipi.packetBuffer locals) = false
  | _ => True

variable {g : Grid} {w w' : World} {p : Nat} {player : Player} {move : CSMoveInfo} {new : Pos}

theorem InRange.refl (pos : Pos) : InRange pos pos := by
  simp [InRange]

/-- `tooFar` is the negation of being in range. -/
theorem inRange_iff : InRange player.pos (move.x, move.y) ↔ tooFar player move = false := by
  simp only [InRange, Player.pos, tooFar, Bool.or_eq_false_iff, decide_eq_false_iff_not, not_lt]
  rw [← Int.natAbs_neg, Int.neg_sub, ← Int.natAbs_neg (_ - (player.y.toNat : Int)), Int.neg_sub]

/-- A stored position obeys the law when it is in range, or when it is the old one and `SC_SYNC` was
sent. -/
theorem Handled.lawful {sync : Bool} {moving : List Nat}
    (h : Handled w p player new sync moving w')
    (hnew : tooFar player move = true ∧ sync = true ∧ new = player.pos ∨
      tooFar player move = false ∧ new = (move.x, move.y)) :
    ∃ player', w'.players p = some player' ∧ InRange player.pos player'.pos ∧
      (tooFar player move = true → player'.pos = player.pos ∧
        ∃ msgs, w'.sent = w.sent ++ msgs ∧ syncMessage player ∈ msgs) := by
  obtain ⟨player', hp', hpos⟩ := Option.map_eq_some_iff.mp h.self
  obtain ⟨rest, hrest⟩ := h.sent
  rcases hnew with ⟨hfar, rfl, rfl⟩ | ⟨hnear, rfl⟩
  · refine ⟨player', hp', ?_, fun _ => ⟨hpos, syncMessage player :: rest, ?_, List.mem_cons_self⟩⟩
    · rw [hpos]
      exact InRange.refl _
    · simpa using hrest.symm
  · refine ⟨player', hp', ?_, fun hfar => ?_⟩
    · rw [hpos]
      exact inRange_iff.mpr hnear
    · rw [hnear] at hfar
      cases hfar

/-- **A packet is lawful if and only if it meets the condition.** -/
theorem lawful_iff {a : Action} (h : step g w a = .ok w') : Lawful g w a ↔ SyncOk w a := by
  cases a with
  | packet ipi locals now =>
    have heffect : PacketEffect w ipi locals w' := outcome_processPacket.of_ok h
    constructor
    · intro hlaw htype p player hp hsynced
      obtain ⟨player', hp', hrange, -⟩ := hlaw p player w' hp (Or.inr htype) h
      cases heffect with
      | start _ hstart _ =>
        rw [hstart] at htype
        exact absurd htype (by unfold IsStop; decide)
      | @stop q other hq _ hhandled =>
        cases hp.1.symm.trans hq.1
        cases hp.2.1.symm.trans hq.2.1
        have hself := hhandled.self
        rw [read_eq_some hp'] at hself
        have haccepted : stopPosition player (readMove ipi.packetBuffer locals) =
            ((readMove ipi.packetBuffer locals).x, (readMove ipi.packetBuffer locals).y) := by
          simp [stopPosition, mustSync, hsynced]
        rw [Option.some.inj hself, haccepted] at hrange
        exact inRange_iff.mp hrange
      | none hnone _ => exact absurd htype (hnone p player hp).2
    · intro hok p player w'' hp hmove hstep
      cases h.symm.trans hstep
      cases heffect with
      | @start q other hq _ hhandled =>
        cases hp.1.symm.trans hq.1
        cases hp.2.1.symm.trans hq.2.1
        apply hhandled.lawful
        cases hfar : tooFar player (readMove ipi.packetBuffer locals) with
        | true => exact Or.inl ⟨rfl, rfl, by simp [startPosition, hfar, Player.pos]⟩
        | false => exact Or.inr ⟨rfl, by simp [startPosition, hfar]⟩
      | @stop q other hq htype hhandled =>
        cases hp.1.symm.trans hq.1
        cases hp.2.1.symm.trans hq.2.1
        apply hhandled.lawful
        cases hfar : tooFar player (readMove ipi.packetBuffer locals) with
        | true =>
          have hsynced : player.isSynced = false := by
            rw [← Bool.not_eq_true]
            intro hsynced
            rw [hok htype p player hp hsynced] at hfar
            cases hfar
          exact Or.inl ⟨rfl, by simp [mustSync, hsynced, hfar],
            by simp [stopPosition, mustSync, hsynced, hfar, Player.pos]⟩
        | false => exact Or.inr ⟨rfl, by simp [stopPosition, mustSync, hfar]⟩
      | none hnone _ =>
        obtain ⟨hstart, hstop⟩ := hnone p player hp
        rcases hmove with hmove | hmove
        · exact absurd hmove hstart
        · exact absurd hmove hstop
  | _ => exact Iff.rfl

/-- **No teleport**: every packet of a run is lawful if and only if every one meets the
condition. -/
theorem run_lawful_iff {uniqueCharacterId : UInt32} {as : List Action} :
    Run (fun w a w' => step g w a = .ok w') (Lawful g) (init uniqueCharacterId) as w ↔
      Run (fun w a w' => step g w a = .ok w') SyncOk (init uniqueCharacterId) as w :=
  run_congr fun _ _ _ h => lawful_iff h

/-- A player at (100, 100) stops at (1000, 1000), twice: the first time it is corrected, the second
time it is there. -/
theorem second_stop_teleports :
    ∃ w w', Run (fun w a w' => step .appending w a = .ok w') anyStep (init 0)
        [.createNewPlayer ⟨0, 1⟩ 1 99 99 0 true,
          .packet ⟨⟨0, 1⟩, .ofBytes [4, 232, 3, 232, 3], 12⟩ ⟨0, 0, 0, 0⟩ 0] w ∧
      step .appending w (.packet ⟨⟨0, 1⟩, .ofBytes [4, 232, 3, 232, 3], 12⟩ ⟨0, 0, 0, 0⟩ 0) =
        .ok w' ∧
      (w.players 1).map Player.pos = some (100, 100) ∧
      (w'.players 1).map Player.pos = some (1000, 1000) ∧
      ¬ Lawful .appending w
        (.packet ⟨⟨0, 1⟩, .ofBytes [4, 232, 3, 232, 3], 12⟩ ⟨0, 0, 0, 0⟩ 0) := by
  refine ⟨_, _, runFn_iff_run.mp rfl, rfl, rfl, rfl, fun hlaw => ?_⟩
  obtain ⟨player', hp', hrange, -⟩ := hlaw 1 _ _ ⟨rfl, rfl, rfl⟩ (Or.inr (Or.inl rfl)) rfl
  cases hp'
  exact absurd hrange.1 (by decide)

end GameLogic

end IocpServer
