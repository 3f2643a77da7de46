import IocpServer.GameLogic.Figures
import IocpServer.Lib.Run

/-!
# The side an attack is announced on and the side it is searched on

The attack handlers announce `direction`, which they store; `CheckDamagedPlayer` looks at
`faceDirection`, which only `CreateNewPlayer` and `PacketProcMoveStart` store.

* `note` — a history variable: where each player's own packets last turned it.
* `run_facing` — the invariant: it is the player's `faceDirection`.
* `run_sideAgrees_iff` — **an attack is searched on the side it is announced on exactly if the
  player was last turned to that side.**
-/

set_option autoImplicit false

namespace IocpServer

open Lib

namespace GameLogic

/-- The history variable behind a call: a new player looks to its spawn direction, and a
`CS_MOVE_START` turns its player unless it leads straight up or down. -/
def note (w : World) (face : Nat → UInt8) (a : Action) (q : Nat) : UInt8 :=
  match a with
  | .createNewPlayer id p randX randY now _ =>
    if q = p then (newPlayer w id randX randY now).direction else face q
  | .packet ipi locals _ =>
    match w.players q with
    | none => face q
    | some player =>
      if Starts w ipi q player then turned (readMove ipi.packetBuffer locals).direction (face q)
      else face q
  | _ => face q

/-- A call, and its entry in the history variable. -/
def Noted (g : Grid) (x : World × (Nat → UInt8)) (a : Action) (y : World × (Nat → UInt8)) : Prop :=
  step g x.1 a = .ok y.1 ∧ y.2 = note x.1 x.2 a

/-- The two directions lead to the same side. -/
def SameSide (direction faceDirection : UInt8) : Prop :=
  ∃ left, isLeft direction = some left ∧ isLeft faceDirection = some left

/-- The player at `p` has announced its `direction`, and the rectangle `CheckDamagedPlayer` searches
extends to that side. -/
def SideAgrees (w : World) (p : Nat) : Prop :=
  ∃ moved, w.players p = some moved ∧ SameSide moved.direction moved.faceDirection

variable {g : Grid} {w w₁ w' : World} {p q : Nat} {player other : Player} {attack : AttackType}
  {left : Bool} {ipi : IncomingPacketInfo} {locals : Locals} {now : Int32} {face : Nat → UInt8}

/-! ## The searched side -/

/-- On the left nobody further right than the player is in range, on the right nobody further
left. -/
theorem inAttackRange_side (h : inAttackRange attack left player other = true) :
    if left then other.x.toNat ≤ player.x.toNat else player.x.toNat ≤ other.x.toNat := by
  unfold inAttackRange at h
  cases left with
  | true =>
    simp only [if_true, Bool.not_eq_true', Bool.or_eq_false_iff, decide_eq_false_iff_not] at h
    simp only [if_true]
    omega
  | false =>
    simp only [Bool.false_eq_true, if_false, Bool.not_eq_true', Bool.or_eq_false_iff,
      decide_eq_false_iff_not] at h
    simp only [Bool.false_eq_true, if_false]
    omega

/-- **Whoever is hit stands in the rectangle on the side of `faceDirection`**, so on that side of the
player. -/
theorem target_side (h : target g w p player attack = some q) :
    ∃ left other, isLeft player.faceDirection = some left ∧ w.players q = some other ∧
      inAttackRange attack left player other = true ∧
      if left then other.x.toNat ≤ player.x.toNat else player.x.toNat ≤ other.x.toNat := by
  have hreached : ∀ {left : Bool}, reaches w attack left player q = true →
      ∃ other, w.players q = some other ∧ inAttackRange attack left player other = true := by
    intro left hq
    unfold reaches at hq
    cases hplayer : w.players q with
    | none => rw [hplayer] at hq; cases hq
    | some other => rw [hplayer] at hq; exact ⟨other, rfl, hq⟩
  unfold target at h
  split at h
  · rename_i left i hside _
    obtain ⟨other, hother, hin⟩ := hreached (List.find?_some h)
    exact ⟨left, other, hside, hother, hin, inAttackRange_side hin⟩
  · cases h

/-! ## Runs -/

theorem noted {a : Action} (h : step g w a = .ok w') :
    Noted g (w, face) a (w', note w face a) := ⟨h, rfl⟩

/-- The history variable is the `faceDirection` of every player. -/
theorem run_facing {uniqueCharacterId : UInt32} {face₀ : Nat → UInt8} {as : List Action}
    (hr : Run (Noted g) anyStep (init uniqueCharacterId, face₀) as (w, face))
    (hp : w.players p = some player) : player.faceDirection = face p := by
  have hinv : ∀ q player, w.players q = some player → player.faceDirection = face q := by
    refine hr.invariant (I := fun x => ∀ q player, x.1.players q = some player →
      player.faceDirection = x.2 q) (fun _ _ hq => by cases hq) ?_
    intro x a y hinv _ hstep q player' hq
    rw [hstep.2]
    rcases figure_step hstep.1 hq with ⟨player, hq', hfigure⟩ | hcreates
    · have hface : player'.faceDirection = facing x.1 q player a :=
        congrArg Figure.faceDirection hfigure
      rw [hface]
      cases a with
      | createNewPlayer id p randX randY now registered =>
        have hqp : q ≠ p := by
          rintro rfl
          have hstep := hstep.1
          simp only [step, createNewPlayer, hq'] at hstep
          cases hstep
        simp only [note, if_neg hqp]
        exact hinv q player hq'
      | packet ipi locals now =>
        simp only [note, hq', facing, hinv q player hq']
      | _ => exact hinv q player hq'
    · cases a with
      | createNewPlayer id p randX randY now registered =>
        obtain ⟨rfl, -, -, hfigure⟩ := hcreates
        simp only [note, if_pos]
        exact congrArg Figure.faceDirection hfigure
      | _ => exact hcreates.elim
  exact hinv p player hp

/-- **Attack side and broadcast.**  After every history of packets, an attack packet that its
handler works off announces its direction, and `CheckDamagedPlayer` searches on the announced side
exactly if the player was last turned to that side. -/
theorem run_sideAgrees_iff {uniqueCharacterId : UInt32} {face₀ : Nat → UInt8} {as : List Action}
    (hr : Run (Noted g) anyStep (init uniqueCharacterId, face₀) as (w, face))
    (hp : Addressed w ipi p player) (htype : ipi.packetType = attack.packetType)
    (h : step g w (.packet ipi locals now) = .ok w') :
    ∃ w₁ moved,
      broadcast g (stopStored (received w p now) p { player with lastRecvTime := now }
        (readMove ipi.packetBuffer locals)) p attack.message = .ok w₁ ∧
      checkDamagedPlayer g w₁ p attack = .ok w' ∧ w₁.players p = some moved ∧
      moved.direction = (readMove ipi.packetBuffer locals).direction ∧
      (SideAgrees w₁ p ↔ SameSide (readMove ipi.packetBuffer locals).direction (face p)) := by
  have hself := @received_self w p player now hp.2.1
  rw [step, processPacket_eq hp, htype, dispatch_attack, packetProcAttack_eq hself] at h
  obtain ⟨w₁, hannounced, hsearched⟩ := bind_eq_ok h
  obtain ⟨msgs, rfl⟩ := outcome_broadcast.of_ok hannounced
  have hmoved : ((stopStored (received w p now) p { player with lastRecvTime := now }
      (readMove ipi.packetBuffer locals)).send msgs).players p =
      some (stop { player with lastRecvTime := now } (readMove ipi.packetBuffer locals)) :=
    stopStored_self hself
  refine ⟨_, _, hannounced, hsearched, hmoved, rfl, ?_⟩
  rw [← run_facing hr hp.2.1]
  constructor
  · rintro ⟨moved, hmoved', hside⟩
    cases hmoved.symm.trans hmoved'
    exact hside
  · intro hside
    exact ⟨_, hmoved, hside⟩

/-- A player spawned looking right is turned left by a `CS_MOVE_START` and attacks to the left. -/
theorem run_sideAgrees_iff_turned :
    ∃ w face player w' w₁, Run (Noted .appending) anyStep (init 0, fun _ => 0)
        [.createNewPlayer ⟨0, 1⟩ 1 99 99 0 true,
          .packet ⟨⟨0, 1⟩, .ofBytes [0, 100, 0, 100, 0], 10⟩ ⟨0, 0, 0, 0⟩ 0] (w, face) ∧
      Addressed w ⟨⟨0, 1⟩, .ofBytes [0, 100, 0, 100, 0], 20⟩ 1 player ∧
      step .appending w (.packet ⟨⟨0, 1⟩, .ofBytes [0, 100, 0, 100, 0], 20⟩ ⟨0, 0, 0, 0⟩ 0) =
        .ok w' ∧
      checkDamagedPlayer .appending w₁ 1 .attack1 = .ok w' ∧ SideAgrees w₁ 1 := by
  obtain ⟨w, face, player, w', hr, hp, hstep, hside⟩ : ∃ w face player w',
      Run (Noted .appending) anyStep (init 0, fun _ => 0)
        [.createNewPlayer ⟨0, 1⟩ 1 99 99 0 true,
          .packet ⟨⟨0, 1⟩, .ofBytes [0, 100, 0, 100, 0], 10⟩ ⟨0, 0, 0, 0⟩ 0] (w, face) ∧
      Addressed w ⟨⟨0, 1⟩, .ofBytes [0, 100, 0, 100, 0], 20⟩ 1 player ∧
      step .appending w (.packet ⟨⟨0, 1⟩, .ofBytes [0, 100, 0, 100, 0], 20⟩ ⟨0, 0, 0, 0⟩ 0) =
        .ok w' ∧ SameSide 0 (face 1) := by
    refine ⟨_, _, _, _, .cons (noted rfl) trivial (.cons (noted rfl) trivial .nil), ⟨rfl, rfl, rfl⟩,
      rfl, true, rfl, ?_⟩
    rfl
  obtain ⟨w₁, -, -, hsearched, -, -, hiff⟩ :=
    run_sideAgrees_iff hr hp (rfl : _ = AttackType.attack1.packetType) hstep
  exact ⟨w, face, player, w', w₁, hr, hp, hstep, hsearched, hiff.mpr hside⟩

/-- Spawned looking right, a player attacks to the left: the rectangle is on its right. -/
theorem attack_behind :
    ∃ w player w₁ w', Run (fun w a w' => step .appending w a = .ok w') anyStep (init 0)
        [.createNewPlayer ⟨0, 1⟩ 1 99 99 0 true] w ∧
      Addressed w ⟨⟨0, 1⟩, .ofBytes [0, 100, 0, 100, 0], 20⟩ 1 player ∧
      step .appending w (.packet ⟨⟨0, 1⟩, .ofBytes [0, 100, 0, 100, 0], 20⟩ ⟨0, 0, 0, 0⟩ 0) =
        .ok w' ∧
      broadcast .appending (stopStored (received w 1 0) 1 player ⟨0, 100, 100⟩) 1 .attack1 =
        .ok w₁ ∧
      checkDamagedPlayer .appending w₁ 1 .attack1 = .ok w' ∧ ¬SideAgrees w₁ 1 := by
  refine ⟨_, _, _, _, runFn_iff_run.mp rfl, ⟨rfl, rfl, rfl⟩, rfl, rfl, rfl, ?_⟩
  rintro ⟨moved, hmoved, left, hannounced, hsearched⟩
  cases hmoved
  cases hannounced
  cases hsearched

end GameLogic

end IocpServer
