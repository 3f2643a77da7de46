import IocpServer.GameLogic.Handlers

/-!
# The `switch` of `ProcessPackets`

A packet of the player that `playerList` holds under its id sets `lastRecvTime` and goes to the
handler of its type.

* `Addressed` — whose packet it is; `received` — the world the handler finds.
* `processPacket_eq`, `dispatch_moveStart` and its like — the handler that is called.
* `outcome_packet` — **`ProcessPackets` hands a packet of a current player to the handler of its
  type, and drops every other.**
-/

set_option autoImplicit false

namespace IocpServer

open Lib

namespace GameLogic

/-- The player whose packet it is. -/
def Addressed (w : World) (ipi : IncomingPacketInfo) (p : Nat) (player : Player) : Prop :=
  w.playerList ipi.playerId.index = some p ∧ w.players p = some player ∧
    player.playerId = ipi.playerId

/-- The packets that end a movement. -/
def IsStop (packetType : UInt8) : Prop :=
  packetType = dfPacketCsMoveStop ∨ packetType = dfPacketCsAttack1 ∨
    packetType = dfPacketCsAttack2 ∨ packetType = dfPacketCsAttack3

/-- `player->lastRecvTime = timeGetTime()`. -/
def received (w : World) (p : Nat) (now : Int32) : World :=
  w.modify p fun player => { player with lastRecvTime := now }

/-- The packet that calls the attack's handler. -/
def AttackType.packetType : AttackType → UInt8
  | attack1 => dfPacketCsAttack1
  | attack2 => dfPacketCsAttack2
  | attack3 => dfPacketCsAttack3

variable {g : Grid} {w : World} {p q : Nat} {player : Player} {packetBuffer : CPacket}
  {locals : Locals} {attack : AttackType} {ipi : IncomingPacketInfo} {now : Int32}

theorem isStop_attack : IsStop attack.packetType := by
  cases attack <;> unfold IsStop <;> decide

theorem not_isStop_start : ¬IsStop dfPacketCsMoveStart := by
  unfold IsStop
  decide

theorem not_isStop_echo : ¬IsStop dfPacketCsEcho := by
  unfold IsStop
  decide

@[simp] theorem received_self (hp : w.players p = some player) :
    (received w p now).players p = some { player with lastRecvTime := now } := by
  rw [received, modify_players_self, hp]
  rfl

@[simp] theorem received_ne (h : q ≠ p) : (received w p now).players q = w.players q :=
  modify_players_ne h

/-- A packet of a current player is handed on. -/
theorem processPacket_eq (hp : Addressed w ipi p player) : processPacket g w ipi locals now =
    dispatch g (received w p now) p ipi.packetType ipi.packetBuffer locals := by
  unfold processPacket
  rw [hp.1]
  show (w.deref p >>= _) = _
  rw [deref_ok hp.2.1]
  exact if_neg (not_not.mpr hp.2.2)

theorem dispatch_moveStart : dispatch g w p dfPacketCsMoveStart packetBuffer locals =
    packetProcMoveStart g w p packetBuffer locals := rfl

theorem dispatch_moveStop : dispatch g w p dfPacketCsMoveStop packetBuffer locals =
    packetProcMoveStop g w p packetBuffer locals := rfl

theorem dispatch_attack : dispatch g w p attack.packetType packetBuffer locals =
    packetProcAttack attack g w p packetBuffer locals := by
  cases attack <;> rfl

theorem dispatch_echo : dispatch g w p dfPacketCsEcho packetBuffer locals =
    packetProcEcho w p packetBuffer locals := rfl

/-- **The `switch` of `ProcessPackets`**, and the tests in front of it. -/
theorem outcome_packet {Q : World → Prop} {E : Fault → Prop} (hfault : E .useAfterFree)
    (hdropped : (∀ p player, ¬Addressed w ipi p player) → Q w)
    (hstart : ∀ p player, Addressed w ipi p player → ipi.packetType = dfPacketCsMoveStart →
      Outcome Q E (packetProcMoveStart g (received w p now) p ipi.packetBuffer locals))
    (hstop : ∀ p player, Addressed w ipi p player → ipi.packetType = dfPacketCsMoveStop →
      Outcome Q E (packetProcMoveStop g (received w p now) p ipi.packetBuffer locals))
    (hattack : ∀ attack p player, Addressed w ipi p player → ipi.packetType = attack.packetType →
      Outcome Q E (packetProcAttack attack g (received w p now) p ipi.packetBuffer locals))
    (hecho : ∀ p player, Addressed w ipi p player → ipi.packetType = dfPacketCsEcho →
      Outcome Q E (packetProcEcho (received w p now) p ipi.packetBuffer locals))
    (hother : ∀ p player, Addressed w ipi p player → ipi.packetType ≠ dfPacketCsMoveStart →
      ¬IsStop ipi.packetType → Q (received w p now)) :
    Outcome Q E (processPacket g w ipi locals now) := by
  unfold processPacket
  split
  · rename_i hlist
    refine hdropped fun p player hp => ?_
    cases hlist.symm.trans hp.1
  · rename_i p hlist
    cases hp : w.players p with
    | none =>
      rw [deref_none hp]
      exact hfault
    | some player =>
      rw [deref_ok hp]
      apply Outcome.ite
      · intro hid
        refine hdropped fun q other hq => ?_
        cases hlist.symm.trans hq.1
        cases hp.symm.trans hq.2.1
        exact hid hq.2.2
      · intro hid
        have haddressed : Addressed w ipi p player := ⟨hlist, hp, not_not.mp hid⟩
        show Outcome Q E (dispatch g (received w p now) p ipi.packetType ipi.packetBuffer locals)
        unfold dispatch
        apply Outcome.ite
        · exact hstart p player haddressed
        intro hnotStart
        apply Outcome.ite
        · exact hstop p player haddressed
        intro hnotStop
        apply Outcome.ite
        · exact hattack .attack1 p player haddressed
        intro hnot1
        apply Outcome.ite
        · exact hattack .attack2 p player haddressed
        intro hnot2
        apply Outcome.ite
        · exact hattack .attack3 p player haddressed
        intro hnot3
        apply Outcome.ite
        · exact hecho p player haddressed
        intro _
        refine hother p player haddressed hnotStart ?_
        rintro (h | h | h | h)
        · exact hnotStop h
        · exact hnot1 h
        · exact hnot2 h
        · exact hnot3 h

end GameLogic

end IocpServer
