import IocpServer.GameLogic.FlushPhases
import IocpServer.GameLogic.SelfMessages
import IocpServer.GameLogic.Untouched

/-!
# What the calls do to hit points, and whom they send what

A call of the logic thread is a sequence of effects: a write that leaves names and `hp` alone, a
broadcast of messages that tell nobody about its own `hp`, or a hit with the `SC_DAMAGE` around it.
Before them `CreateNewPlayer` has put a player into the world and greeted its session, and
`PacketProcEcho` has answered.

* `Known` — the receiver of a message is there, and so are the characters it names.
* `toldHp`, `TrueHp` — the `hp` a message tells.
* `Effect`, `Effects` — the effects; `Begins` — what comes before them.
* `step_effects` — **every call begins so and goes on with such effects.**
-/

set_option autoImplicit false

namespace IocpServer

open Lib

namespace GameLogic

/-! ## Messages -/

/-- The characters a message names. -/
def named : ScMessage → List UInt32
  | .createMyCharacter id _ _ _ _ | .createOtherCharacter id _ _ _ _ | .deleteCharacter id
  | .moveStart id _ _ _ | .moveStop id _ _ _ | .attack1 id _ _ _ | .attack2 id _ _ _
  | .attack3 id _ _ _ | .sync id _ _ => [id]
  | .damage attackId damageId _ => [attackId, damageId]
  | .echo _ => []

/-- The `hp` a message tells, and whose it is. -/
def toldHp : ScMessage → Option (UInt32 × UInt8)
  | .createMyCharacter id _ _ _ hp | .createOtherCharacter id _ _ _ hp | .damage _ id hp =>
    some (id, hp)
  | _ => none

/-- The answer to a `CS_ECHO`. -/
def answer : Sending → Option (SessionId × UInt32)
  | (session, .echo time) => some (session, time)
  | _ => none

/-- The receiver is there, and so are the characters the message names. -/
def Known (w : World) (m : Sending) : Prop :=
  (∃ q other, w.players q = some other ∧ other.sessionId = m.1) ∧
    ∀ id ∈ named m.2, ∃ q other, w.players q = some other ∧ other.playerId.characterId = id

/-- The `hp` a message tells, if any, is what the character has. -/
def TrueHp (w : World) (msg : ScMessage) : Prop :=
  ∀ told, toldHp msg = some told →
    ∃ q other, w.players q = some other ∧ told = (other.playerId.characterId, other.hp)

/-- A message between those who are there, with the `hp` it tells true, and no answer. -/
structure Plain (w : World) (m : Sending) : Prop where
  known : Known w m
  hp : TrueHp w m.2
  noAnswer : answer m = none

/-! ## Effects -/

/-- The player is in the set of its sector. -/
def Seated (w : World) (q : Nat) (player : Player) : Prop :=
  ∃ i, player.currentSector = some i ∧ q ∈ w.sectors i

/-- The player at `q` is who it was, with the `hp` it had, and no less dead. -/
structure Same (w w' : World) (q : Nat) (player player' : Player) : Prop where
  names : player'.names = player.names
  hp : player'.hp = player.hp
  dead : player.isDead = true → player'.isDead = true
  seated : Seated w q player → Seated w' q player'

/-- A write that leaves alone who is who, all `hp` and what has been sent. -/
structure Silent (w w' : World) : Prop where
  sent : w'.sent = w.sent
  counter : w'.uniqueCharacterId = w.uniqueCharacterId
  players : ∀ q player', w'.players q = some player' →
    ∃ player, w.players q = some player ∧ Same w w' q player player'

inductive Effect (w : World) : World → Prop
  | silent {w' : World} (h : Silent w w') : Effect w w'
  | tell {msgs : List Sending} (h : ∀ m ∈ msgs, Plain w m) : Effect w (w.send msgs)
  /-- The player at `q` is hit, and told so if it lives. -/
  | strike {q : Nat} {other : Player} {attack : AttackType} {msgs : List Sending}
      (hq : w.players q = some other)
      (hmsgs : ∀ m ∈ msgs, Known w m ∧
        ∃ attackId, m.2 = .damage attackId other.playerId.characterId (wounded attack other).hp)
      (htold : other.isDead = false → Seated w q other → ∃ attackId, (other.sessionId,
        .damage attackId other.playerId.characterId (wounded attack other).hp) ∈ msgs) :
      Effect w ((w.modify q (wounded attack)).send msgs)

def Effects : World → World → Prop := Relation.ReflTransGen Effect

/-- The answer a call owes: to a current player's `CS_ECHO`. -/
def owed (w : World) : Action → List (SessionId × UInt32)
  | .packet ipi locals _ =>
    match (w.playerList ipi.playerId.index).bind w.players with
    | none => []
    | some player =>
      if player.playerId = ipi.playerId ∧ ipi.packetType = dfPacketCsEcho then
        [(player.sessionId, (ipi.packetBuffer.extractUInt32 locals.time).1)]
      else []
  | _ => []

/-- What a call has done before its effects. -/
inductive Begins (w : World) : Action → World → Prop
  | call {a : Action} (howed : owed w a = []) : Begins w a w
  | unregistered {id : SessionId} {p randX randY : Nat} {now : Int32} {registered : Bool} :
      Begins w (.createNewPlayer id p randX randY now registered)
        { w with uniqueCharacterId := w.uniqueCharacterId + 1 }
  /-- The player is greeted. -/
  | created {id : SessionId} {p randX randY : Nat} {now : Int32} {registered : Bool} {w₁ : World}
      {player : Player} {direction : UInt8} {x y : UInt16}
      (hp : w.players p = none) (hself : w₁.players p = some player)
      (hnames : player.names = (id, w.uniqueCharacterId + 1)) (hhp : player.hp = 100)
      (hseated : Seated w₁ p player)
      (hother : ∀ q, q ≠ p → w₁.players q = w.players q)
      (hsectors : ∀ i q, q ∈ w.sectors i → q ∈ w₁.sectors i)
      (hcounter : w₁.uniqueCharacterId = w.uniqueCharacterId + 1)
      (hsent : w₁.sent = w.sent ++
        [(id, .createMyCharacter (w.uniqueCharacterId + 1) direction x y 100)]) :
      Begins w (.createNewPlayer id p randX randY now registered) w₁
  /-- The packet is answered. -/
  | answered {ipi : IncomingPacketInfo} {locals : Locals} {now : Int32} {p : Nat} {player : Player}
      (hp : Addressed w ipi p player) (htype : ipi.packetType = dfPacketCsEcho) :
      Begins w (.packet ipi locals now) ((received w p now).send
        [(player.sessionId, .echo (ipi.packetBuffer.extractUInt32 locals.time).1)])

variable {g : Grid} {w w₁ w₂ w' : World} {p q i : Nat} {player player' other : Player}
  {f : Player → Player} {msgs : List Sending} {msg : ScMessage} {m : Sending}
  {attack : AttackType} {move : CSMoveInfo} {packetBuffer : CPacket} {locals : Locals}

/-! ## The rules -/

theorem Same.refl (h : ∀ i, q ∈ w.sectors i → q ∈ w'.sectors i) : Same w w' q player player :=
  ⟨rfl, rfl, fun h => h, fun ⟨i, hi, hmem⟩ => ⟨i, hi, h i hmem⟩⟩

theorem Effects.silent (h : Effects w w₁) (hs : Silent w₁ w') : Effects w w' :=
  h.tail (.silent hs)

theorem Effects.tell (h : Effects w w₁) (hm : ∀ m ∈ msgs, Plain w₁ m) : Effects w (w₁.send msgs) :=
  h.tail (.tell hm)

/-- A write to one player. -/
structure Mild (f : Player → Player) : Prop where
  names : ∀ player, (f player).names = player.names
  hp : ∀ player, (f player).hp = player.hp
  dead : ∀ player, player.isDead = true → (f player).isDead = true
  sector : ∀ player, (f player).currentSector = player.currentSector

theorem Mild.silent (hf : Mild f) : Silent w (w.modify p f) := by
  refine ⟨rfl, rfl, fun q player' hq => ?_⟩
  by_cases hqp : q = p
  · subst hqp
    rw [modify_players_self] at hq
    obtain ⟨player, hp, rfl⟩ := Option.map_eq_some_iff.mp hq
    refine ⟨player, hp, hf.names player, hf.hp player, hf.dead player, fun h => ?_⟩
    obtain ⟨i, hi, hmem⟩ := h
    exact ⟨i, (hf.sector player).trans hi, hmem⟩
  · rw [modify_players_ne hqp] at hq
    exact ⟨player', hq, .refl fun _ h => h⟩

theorem Effects.modify (h : Effects w w₁) (hf : Mild f) : Effects w (w₁.modify p f) :=
  h.silent hf.silent

/-- A write to the lists and cursors. -/
theorem Effects.lists (h : Effects w w₁) (players : w'.players = w₁.players)
    (sectors : w'.sectors = w₁.sectors) (sent : w'.sent = w₁.sent)
    (counter : w'.uniqueCharacterId = w₁.uniqueCharacterId) : Effects w w' := by
  refine h.silent ⟨sent, counter, fun q player' hq => ?_⟩
  rw [players] at hq
  exact ⟨player', hq, .refl fun i h => sectors ▸ h⟩

/-- A player goes from one sector to another. -/
theorem silent_seat {prev curr : Nat} : Silent w ((w.leave p prev).enter g p curr) := by
  refine ⟨rfl, rfl, fun q player' hq => ?_⟩
  by_cases hqp : q = p
  · subst hqp
    rw [enter_players_self, leave_players_self, Option.map_map] at hq
    obtain ⟨player, hp, rfl⟩ := Option.map_eq_some_iff.mp hq
    exact ⟨player, hp, rfl, rfl, fun h => h, fun _ =>
      ⟨curr, rfl, mem_sectors_enter.mpr (Or.inr ⟨rfl, rfl⟩)⟩⟩
  · rw [enter_players_ne hqp, leave_players_ne hqp] at hq
    refine ⟨player', hq, .refl fun i h => ?_⟩
    exact mem_sectors_enter.mpr (Or.inl (mem_sectors_leave.mpr ⟨h, fun h => hqp h.1⟩))

/-- A player leaves its sector and is freed. -/
theorem silent_destroy : Silent (w.send msgs) (Phases.afterDestroy w p player msgs) := by
  have hsectors : ∀ i q, q ≠ p → q ∈ w.sectors i →
      q ∈ (Phases.afterDestroy w p player msgs).sectors i := by
    intro i q hqp hmem
    unfold Phases.afterDestroy World.leaveSector
    split
    · exact hmem
    · exact mem_sectors_leave.mpr ⟨hmem, fun h => hqp h.1⟩
  refine ⟨Phases.afterDestroy_sent, ?_, fun q player' hq => ?_⟩
  · unfold Phases.afterDestroy World.leaveSector
    split <;> rfl
  · by_cases hqp : q = p
    · subst hqp
      rw [Phases.afterDestroy, free_players_self] at hq
      cases hq
    · rw [Phases.afterDestroy_players_ne hqp] at hq
      exact ⟨player', hq, .refl fun i => hsectors i q hqp⟩

/-! ## The messages of the broadcasts -/

theorem plain_of (hp : w.players p = some player) (hq : w.players q = some other)
    (hto : m.1 = other.sessionId) (hnames : named m.2 = [player.playerId.characterId])
    (htold : toldHp m.2 = none ∨ toldHp m.2 = some (player.playerId.characterId, player.hp))
    (hanswer : answer m = none) : Plain w m := by
  refine ⟨⟨⟨q, other, hq, hto.symm⟩, fun id hid => ?_⟩, fun told h => ?_, hanswer⟩
  · rw [hnames, List.mem_singleton] at hid
    exact ⟨p, player, hp, hid.symm⟩
  · rcases htold with htold | htold
    · rw [htold] at h
      cases h
    · rw [htold] at h
      exact ⟨p, player, hp, (Option.some.inj h).symm⟩

/-- `SendAOI` sends the same to players that are there. -/
theorem mem_sendAOI {sendMe : Bool} (h : sendAOI g w p msg sendMe = .ok msgs) (hm : m ∈ msgs) :
    ∃ q other, w.players q = some other ∧ m = (other.sessionId, msg) := by
  unfold sendAOI at h
  obtain ⟨player, -, h⟩ := bind_eq_ok h
  obtain ⟨i, -, h⟩ := bind_eq_ok h
  obtain ⟨q, -, hq⟩ := (mem_mapM h).mp hm
  obtain ⟨other, hother, hq⟩ := bind_eq_ok hq
  cases hq
  exact ⟨q, other, Phases.deref_eq_ok.mp hother, rfl⟩

/-- With `sendMe` it also sends to the player itself, if that lives and is in the set of its
sector. -/
theorem self_mem_sendAOI (hp : w.players p = some player) (hdead : player.isDead = false)
    (hseated : Seated w p player) (h : sendAOI g w p msg true = .ok msgs) :
    (player.sessionId, msg) ∈ msgs := by
  obtain ⟨i, hi, hmem⟩ := hseated
  unfold sendAOI at h
  rw [deref_ok hp] at h
  obtain ⟨_, ⟨⟩, h⟩ := bind_eq_ok h
  rw [sector_eq hi] at h
  obtain ⟨_, ⟨⟩, h⟩ := bind_eq_ok h
  refine (mem_mapM h).mpr ⟨p, List.mem_append_left _ (List.mem_filter.mpr ⟨hmem, ?_⟩), ?_⟩
  · simp [hdead]
  · rw [deref_ok hp]
    rfl

/-- What two players near each other are told about each other. -/
theorem plain_appear (hp : w.players p = some player) (h : appear w player q = .ok msgs)
    (hm : m ∈ msgs) : Plain w m := by
  unfold appear at h
  obtain ⟨other, hother, h⟩ := bind_eq_ok h
  have hq := Phases.deref_eq_ok.mp hother
  split at h
  · cases h
    cases hm
  · cases h
    simp only [List.mem_append, List.mem_cons, List.not_mem_nil, or_false] at hm
    rcases hm with ((rfl | rfl) | hm) | hm
    · exact plain_of hq hp rfl rfl (.inr rfl) rfl
    · exact plain_of hp hq rfl rfl (.inr rfl) rfl
    · split at hm
      · rw [List.mem_singleton.mp hm]
        exact plain_of hp hq rfl rfl (.inl rfl) rfl
      · cases hm
    · split at hm
      · rw [List.mem_singleton.mp hm]
        exact plain_of hq hp rfl rfl (.inl rfl) rfl
      · cases hm

theorem plain_disappear (hp : w.players p = some player) (h : disappear w player q = .ok msgs)
    (hm : m ∈ msgs) : Plain w m := by
  unfold disappear at h
  obtain ⟨other, hother, h⟩ := bind_eq_ok h
  have hq := Phases.deref_eq_ok.mp hother
  split at h
  · cases h
    cases hm
  · cases h
    simp only [List.mem_cons, List.not_mem_nil, or_false] at hm
    rcases hm with rfl | rfl
    · exact plain_of hq hp rfl rfl (.inl rfl) rfl
    · exact plain_of hp hq rfl rfl (.inl rfl) rfl

theorem plain_introduce (hp : w.players p = some player) (h : introduce w player q = .ok msgs)
    (hm : m ∈ msgs) : Plain w m := by
  unfold introduce at h
  obtain ⟨other, hother, h⟩ := bind_eq_ok h
  have hq := Phases.deref_eq_ok.mp hother
  split at h
  · cases h
    cases hm
  · cases h
    rcases List.mem_append.mp hm with hm | hm
    · rw [List.mem_singleton.mp hm]
      exact plain_of hq hp rfl rfl (.inr rfl) rfl
    · split at hm
      · rw [List.mem_singleton.mp hm]
        exact plain_of hq hp rfl rfl (.inl rfl) rfl
      · cases hm

theorem plain_sectorMessages {prevX prevY : UInt16} (h : sectorMessages g w p prevX prevY = .ok msgs)
    (hm : m ∈ msgs) : Plain w m := by
  unfold sectorMessages at h
  obtain ⟨player, hplayer, h⟩ := bind_eq_ok h
  have hp := Phases.deref_eq_ok.mp hplayer
  obtain ⟨created, hcreated, h⟩ := bind_eq_ok h
  obtain ⟨deleted, hdeleted, h⟩ := bind_eq_ok h
  cases h
  rcases List.mem_append.mp hm with hm | hm
  · obtain ⟨q, -, ms, hms, hm⟩ := (mem_flatten_mapM hcreated).mp hm
    exact plain_appear hp hms hm
  · obtain ⟨q, -, ms, hms, hm⟩ := (mem_flatten_mapM hdeleted).mp hm
    exact plain_disappear hp hms hm

/-- A message about the player that `SendAOI` sends for. -/
theorem plain_sendAOI {sendMe : Bool} (hp : w.players p = some player)
    (hnames : named msg = [player.playerId.characterId])
    (htold : toldHp msg = none ∨ toldHp msg = some (player.playerId.characterId, player.hp))
    (hanswer : ∀ session, answer (session, msg) = none)
    (h : sendAOI g w p msg sendMe = .ok msgs) (hm : m ∈ msgs) : Plain w m := by
  obtain ⟨q, other, hq, rfl⟩ := mem_sendAOI h hm
  exact plain_of hp hq rfl hnames htold (hanswer _)

theorem plain_makeSectorSpawnPackets (h : makeSectorSpawnPackets g w p = .ok msgs) (hm : m ∈ msgs) :
    Plain w m := by
  unfold makeSectorSpawnPackets at h
  obtain ⟨player, hplayer, h⟩ := bind_eq_ok h
  have hp := Phases.deref_eq_ok.mp hplayer
  obtain ⟨shown, hshown, h⟩ := bind_eq_ok h
  obtain ⟨own, hown, h⟩ := bind_eq_ok h
  cases h
  rcases List.mem_append.mp hm with hm | hm
  · exact plain_sendAOI hp rfl (.inr rfl) (fun _ => rfl) hshown hm
  · unfold sendAOIToSelf at hown
    rw [deref_ok hp] at hown
    obtain ⟨_, ⟨⟩, hown⟩ := bind_eq_ok hown
    obtain ⟨i, -, hown⟩ := bind_eq_ok hown
    obtain ⟨parts, hparts, hown⟩ := bind_eq_ok hown
    cases hown
    obtain ⟨q, -, ms, hms, hm⟩ := (mem_flatten_mapM hparts).mp hm
    exact plain_introduce hp hms hm

/-! ## The calls -/

theorem Effects.checkSector {prevX prevY : UInt16} (h : Effects w w₁) :
    Outcome (Effects w) (fun _ => True) (checkSector g w₁ p prevX prevY) := by
  unfold GameLogic.checkSector
  apply outcome_deref_some.bind
  intro player hp
  apply outcome_any.bind
  intro index _
  apply Outcome.ite
  · intro _
    refine outcome_of_ok fun w' hw' => ?_
    obtain ⟨prev, curr, msgs, -, -, hmsgs, rfl⟩ := sectorUpdate_eq_ok hp hw'
    exact (h.silent silent_seat).tell fun m hm => plain_sectorMessages hmsgs hm
  · intro _
    exact h

theorem Effects.broadcast {message : UInt32 → UInt8 → UInt16 → UInt16 → ScMessage}
    (hnames : ∀ id direction x y, named (message id direction x y) = [id])
    (htold : ∀ id direction x y, toldHp (message id direction x y) = none)
    (hanswer : ∀ session id direction x y, answer (session, message id direction x y) = none)
    (h : Effects w w₁) :
    Outcome (Effects w) (fun _ => True) (broadcast g w₁ p message) := by
  unfold GameLogic.broadcast
  apply outcome_deref_some.bind
  intro moved hp
  refine outcome_of_ok fun w' hw' => ?_
  obtain ⟨msgs, hmsgs, hw'⟩ := bind_eq_ok hw'
  cases hw'
  exact h.tell fun m hm => plain_sendAOI hp (hnames _ _ _ _) (.inl (htold _ _ _ _))
    (fun session => hanswer session _ _ _ _) hmsgs hm

/-- The hit and the `SC_DAMAGE` around it; the attacker is there. -/
theorem Effects.strike (h : Effects w w₁) (hp : w₁.players p = some player)
    (hq : w₁.players q = some other) :
    Outcome (Effects w) (fun _ => True) (strike g w₁ attack player q) := by
  refine outcome_of_ok fun w' hw' => ?_
  have hwounded : (w₁.modify q (wounded attack)).players q = some (wounded attack other) := by
    rw [modify_players_self, hq]
    rfl
  have hthere : ∀ r third, (w₁.modify q (wounded attack)).players r = some third →
      ∃ third', w₁.players r = some third' ∧ third'.sessionId = third.sessionId ∧
        third'.playerId = third.playerId := by
    intro r third hr
    by_cases hrq : r = q
    · subst hrq
      cases hwounded.symm.trans hr
      exact ⟨other, hq, rfl, rfl⟩
    · rw [modify_players_ne hrq] at hr
      exact ⟨third, hr, rfl, rfl⟩
  unfold GameLogic.strike at hw'
  change ((w₁.modify q (wounded attack)).deref q >>= _) = _ at hw'
  rw [deref_ok hwounded] at hw'
  obtain ⟨_, ⟨⟩, hw'⟩ := bind_eq_ok hw'
  obtain ⟨msgs, hmsgs, hw'⟩ := bind_eq_ok hw'
  cases hw'
  refine h.tail (.strike hq (fun m hm => ?_) fun hdead hseated => ?_)
  · obtain ⟨r, third, hr, rfl⟩ := mem_sendAOI hmsgs hm
    obtain ⟨third', hr', hsession, -⟩ := hthere r third hr
    refine ⟨⟨⟨r, third', hr', hsession⟩, fun id hid => ?_⟩, _, rfl⟩
    simp only [named, List.mem_cons, List.not_mem_nil, or_false] at hid
    rcases hid with rfl | rfl
    · exact ⟨p, player, hp, rfl⟩
    · exact ⟨q, other, hq, rfl⟩
  · have told := self_mem_sendAOI hwounded hdead hseated hmsgs
    exact ⟨_, told⟩

theorem findTarget_players {left : Bool} {qs : List Nat}
    (h : findTarget w attack left player qs = .ok (some q)) : ∃ other, w.players q = some other := by
  induction qs with
  | nil => cases h
  | cons r qs ih =>
    unfold findTarget at h
    obtain ⟨other, hother, h⟩ := bind_eq_ok h
    split at h
    · cases h
      exact ⟨other, Phases.deref_eq_ok.mp hother⟩
    · exact ih h

theorem Effects.strikeAhead {left : Bool} (h : Effects w w₁) (hp : w₁.players p = some player) :
    Outcome (Effects w) (fun _ => True) (strikeAhead g w₁ attack left player) := by
  unfold GameLogic.strikeAhead
  dsimp only
  split
  · exact h
  · refine outcome_of_ok fun w' hw' => ?_
    obtain ⟨found, hfound, hw'⟩ := bind_eq_ok hw'
    cases found with
    | none =>
      cases hw'
      exact h
    | some q =>
      obtain ⟨other, hq⟩ := findTarget_players hfound
      exact (h.strike hp hq).of_ok hw'

theorem Effects.checkDamagedPlayer (h : Effects w w₁) :
    Outcome (Effects w) (fun _ => True) (checkDamagedPlayer g w₁ p attack) := by
  unfold GameLogic.checkDamagedPlayer
  apply outcome_deref_some.bind
  intro player hp
  split
  · exact h
  · apply outcome_any.bind
    intro i _
    refine outcome_of_ok fun w' hw' => ?_
    obtain ⟨found, hfound, hw'⟩ := bind_eq_ok hw'
    cases found with
    | none => exact (h.strikeAhead hp).of_ok hw'
    | some q =>
      obtain ⟨other, hq⟩ := findTarget_players hfound
      exact (h.strike hp hq).of_ok hw'

/-! ## Packets -/

theorem owed_addressed {ipi : IncomingPacketInfo} {now : Int32} (hp : Addressed w ipi p player) :
    owed w (.packet ipi locals now) =
      if ipi.packetType = dfPacketCsEcho then
        [(player.sessionId, (ipi.packetBuffer.extractUInt32 locals.time).1)]
      else [] := by
  simp only [owed, hp.1, Option.bind_some, hp.2.1, hp.2.2, true_and]

theorem owed_dropped {ipi : IncomingPacketInfo} {now : Int32}
    (h : ∀ p player, ¬Addressed w ipi p player) : owed w (.packet ipi locals now) = [] := by
  cases hplayer : (w.playerList ipi.playerId.index).bind w.players with
  | none => simp only [owed, hplayer]
  | some player =>
    obtain ⟨p, hlist, hp⟩ := Option.bind_eq_some_iff.mp hplayer
    simp only [owed, hplayer]
    exact if_neg fun hid => h p player ⟨hlist, hp, hid.1⟩

theorem mild_received (now : Int32) : Mild fun player => { player with lastRecvTime := now } :=
  ⟨fun _ => rfl, fun _ => rfl, fun _ h => h, fun _ => rfl⟩

theorem mild_started (move : CSMoveInfo) : Mild (started · move) :=
  ⟨fun _ => rfl, fun _ => rfl, fun _ h => h, fun _ => rfl⟩

theorem mild_stop (move : CSMoveInfo) : Mild (stop · move) :=
  ⟨fun _ => rfl, fun _ => rfl, fun _ h => h, fun _ => rfl⟩

/-- `SC_SYNC`, or nothing. -/
theorem Effects.sync {c : Prop} [Decidable c] (h : Effects w w₁) (hp : w₁.players p = some player) :
    Effects w (w₁.send (if c then [syncMessage player] else [])) := by
  refine h.tell fun m hm => ?_
  split at hm
  · rw [List.mem_singleton.mp hm]
    exact plain_of hp hp rfl rfl (.inl rfl) rfl
  · cases hm

theorem effects_packetProcMoveStart (hp : w.players p = some player) :
    Outcome (Effects w) (fun _ => True) (packetProcMoveStart g w p packetBuffer locals) := by
  rw [packetProcMoveStart_eq hp]
  have stored : Effects w (startStored w p player (readMove packetBuffer locals)) :=
    ((Effects.sync .refl hp).modify (mild_started _)).lists rfl rfl rfl rfl
  refine stored.checkSector.bind fun w₁ h => ?_
  exact h.broadcast (fun _ _ _ _ => rfl) (fun _ _ _ _ => rfl) fun _ _ _ _ _ => rfl

theorem effects_packetProcMoveStop (hp : w.players p = some player) :
    Outcome (Effects w) (fun _ => True) (packetProcMoveStop g w p packetBuffer locals) := by
  rw [packetProcMoveStop_eq hp]
  have stored : Effects w (stopStored w p player (readMove packetBuffer locals)) :=
    (Effects.sync .refl hp).modify (mild_stop _)
  refine stored.checkSector.bind fun w₁ h => ?_
  exact h.broadcast (fun _ _ _ _ => rfl) (fun _ _ _ _ => rfl) fun _ _ _ _ _ => rfl

theorem effects_packetProcAttack (hp : w.players p = some player) :
    Outcome (Effects w) (fun _ => True) (packetProcAttack attack g w p packetBuffer locals) := by
  rw [packetProcAttack_eq hp]
  have stored : Effects w (stopStored w p player (readMove packetBuffer locals)) :=
    (Effects.sync .refl hp).modify (mild_stop _)
  refine (stored.broadcast ?_ ?_ ?_).bind fun w₁ h => h.checkDamagedPlayer
  all_goals
    intros
    cases attack <;> rfl

/-- What a packet does behind what it begins with. -/
theorem step_packet {ipi : IncomingPacketInfo} {now : Int32}
    (h : processPacket g w ipi locals now = .ok w') :
    ∃ w₁, Begins w (.packet ipi locals now) w₁ ∧ Effects w₁ w' := by
  by_cases hecho : ∃ p player, Addressed w ipi p player ∧ ipi.packetType = dfPacketCsEcho
  · obtain ⟨p, player, hp, htype⟩ := hecho
    rw [processPacket_eq hp, htype, dispatch_echo, packetProcEcho_eq (received_self hp.2.1)] at h
    cases h
    exact ⟨_, .answered hp htype, .refl⟩
  · have howed : owed w (.packet ipi locals now) = [] := by
      by_cases hdropped : ∃ p player, Addressed w ipi p player
      · obtain ⟨p, player, hp⟩ := hdropped
        exact (owed_addressed hp).trans (if_neg fun htype => hecho ⟨p, player, hp, htype⟩)
      · exact owed_dropped fun p player hp => hdropped ⟨p, player, hp⟩
    suffices hall : Outcome (Effects w) (fun _ => True) (processPacket g w ipi locals now) from
      ⟨w, .call howed, hall.of_ok h⟩
    have behind {p : Nat} {w₂ : World} (h : Effects (received w p now) w₂) : Effects w w₂ :=
      Relation.ReflTransGen.trans (Effects.modify .refl (mild_received now)) h
    apply outcome_packet trivial
    · exact fun _ => .refl
    · exact fun p player hp _ => (effects_packetProcMoveStart (received_self hp.2.1)).weaken
        (fun _ => behind) fun _ h => h
    · exact fun p player hp _ => (effects_packetProcMoveStop (received_self hp.2.1)).weaken
        (fun _ => behind) fun _ h => h
    · exact fun attack p player hp _ => (effects_packetProcAttack (received_self hp.2.1)).weaken
        (fun _ => behind) fun _ h => h
    · exact fun p player hp htype => absurd ⟨p, player, hp, htype⟩ hecho
    · exact fun p player hp _ _ => behind .refl

/-! ## The other calls -/

theorem effects_updateGameWorld {timer : Int32} :
    Outcome (Effects w) (fun _ => True) (updateGameWorld g w timer) := by
  unfold updateGameWorld
  refine Outcome.bind (P := Effects w) (Outcome.foldlM .refl ?_) ?_
  · intro w₁ i h _
    unfold checkAlive
    apply outcome_any.bind
    intro player _
    apply Outcome.ite
    · intro _
      exact h.modify ⟨fun _ => rfl, fun _ => rfl, fun _ _ => rfl, fun _ => rfl⟩
    · intro _
      exact h
  · intro w₁ h
    have hcursor : ∀ (c : Prop) [Decidable c] n,
        Effects w (if c then { w₁ with aliveCheckCursor := n } else w₁) := by
      intro c _ n
      split
      · exact h.lists rfl rfl rfl rfl
      · exact h
    refine Outcome.bind (P := fun s => Effects w s.1)
      (Outcome.foldlM (hcursor _ _) fun s i h _ => ?_) ?_
    · refine outcome_moveEntry (fun _ _ => trivial) h fun p => ?_
      unfold movePlayer
      apply outcome_any.bind
      intro player _
      refine Effects.checkSector (h.modify ?_)
      exact ⟨fun _ => rfl, fun _ => rfl, fun _ h => h, fun _ => rfl⟩
    · intro s h
      dsimp only
      split
      · exact h.lists rfl rfl rfl rfl
      · exact h

theorem effects_requestDestroyPlayer {id : SessionId} :
    Outcome (Effects w) (fun _ => True) (requestDestroyPlayer w id) := by
  unfold requestDestroyPlayer
  split
  · exact .refl
  · apply outcome_any.bind
    intro player _
    refine Effects.lists (show Effects w (w.modify _ _) from .modify .refl ?_) rfl rfl rfl rfl
    exact ⟨fun _ => rfl, fun _ => rfl, fun _ _ => rfl, fun _ => rfl⟩

theorem effects_flushFrame : Outcome (Effects w) (fun _ => True) (flushFrame g w) := by
  unfold flushFrame
  refine Outcome.bind (P := Effects w) (Outcome.foldlM .refl ?_) ?_
  · intro w₁ p h _
    unfold scanDead
    apply outcome_any.bind
    intro player _
    apply Outcome.ite
    · intro _
      refine Effects.lists (show Effects w (w₁.modify _ _) from h.modify ?_) rfl rfl rfl rfl
      exact ⟨fun _ => rfl, fun _ => rfl, fun _ h => h, fun _ => rfl⟩
    · intro _
      exact h
  intro w₁ h
  refine Outcome.bind (P := Effects w) ?_ ?_
  · unfold purgeMoving
    apply outcome_any.bind
    intro moving _
    exact h.lists rfl rfl rfl rfl
  intro w₂ h
  refine Outcome.bind (P := Effects w) (Outcome.foldlM h ?_) fun w₃ h => h.lists rfl rfl rfl rfl
  intro w₃ id h _
  refine outcome_of_ok fun w' hw' => ?_
  obtain ⟨p, player, msgs, -, hp, hmsgs, rfl⟩ := Phases.destroyPlayer_eq_ok.mp hw'
  exact (h.tell fun m hm => plain_sendAOI hp rfl (.inl rfl) (fun _ => rfl)
    hmsgs hm).silent silent_destroy

/-- `CreateNewPlayer` places and greets the player; then it is shown around. -/
theorem step_create {id : SessionId} {randX randY : Nat} {now : Int32} {registered : Bool}
    (h : createNewPlayer g w id p randX randY now registered = .ok w') :
    ∃ w₁, Begins w (.createNewPlayer id p randX randY now registered) w₁ ∧ Effects w₁ w' := by
  unfold createNewPlayer at h
  split at h
  · cases h
  · rename_i hp
    split at h
    · cases h
      exact ⟨_, .unregistered, .refl⟩
    · obtain ⟨index, hindex, h⟩ := bind_eq_ok h
      obtain ⟨msgs, hmsgs, h⟩ := bind_eq_ok h
      cases h
      refine ⟨_, .created hp (show _ = some { newPlayer w id randX randY now with
        currentSector := some index } from ?_) rfl rfl ?_ (fun q hqp => ?_) (fun i q hmem => ?_) rfl rfl,
        Effects.tell .refl fun m hm => plain_makeSectorSpawnPackets hmsgs hm⟩
      · simp only [send_players, store_players, enter_players_self, alloc_players_self]
        rfl
      · exact ⟨index, rfl, mem_sectors_enter.mpr (Or.inr ⟨rfl, rfl⟩)⟩
      · simp only [send_players, store_players, enter_players_ne hqp, alloc_players_ne hqp]
      · exact mem_sectors_enter.mpr (Or.inl hmem)

/-- **Every call begins with a greeting, an answer or nothing, and goes on with effects.** -/
theorem step_effects {a : Action} (h : step g w a = .ok w') :
    ∃ w₁, Begins w a w₁ ∧ Effects w₁ w' := by
  cases a with
  | createNewPlayer id p randX randY now registered => exact step_create h
  | packet ipi locals now => exact step_packet h
  | updateGameWorld timer => exact ⟨w, .call rfl, effects_updateGameWorld.of_ok h⟩
  | flushFrame => exact ⟨w, .call rfl, effects_flushFrame.of_ok h⟩
  | requestDestroyPlayer id => exact ⟨w, .call rfl, effects_requestDestroyPlayer.of_ok h⟩

end GameLogic

end IocpServer
