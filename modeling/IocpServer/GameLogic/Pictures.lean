import IocpServer.GameLogic.ClientView
import IocpServer.GameLogic.Effects
import IocpServer.Lib.Replay

/-!
# The picture a client has of another character

A client that takes over what `PacketDefine.h` says of each message has, of every character it has
been shown and not lost, a direction, a position and an `hp`, and whether it moves.  The calls send
the messages of many pairs of players in one list, some of them twice.

* `Picture`, `pictureOf` — what a session has of a character after some messages.
* `Pair` — a session and a character id that belong to one player each.
* `outcome_sendAOI_acts`, `outcome_makeSectorSpawnPackets_acts`, `outcome_sectorMessages_acts` —
  **what a broadcast, a spawn and a sector change do to the picture of a pair.**
-/

set_option autoImplicit false

namespace IocpServer

open Lib

namespace GameLogic

structure Picture where
  direction : UInt8
  isMoving : Bool
  x : UInt16
  y : UInt16
  hp : UInt8
  deriving DecidableEq

def Player.picture (player : Player) : Picture :=
  ⟨player.direction, player.isMoving, player.x, player.y, player.hp⟩

namespace Picture

/-- A picture is turned and put somewhere. -/
def put (picture : Picture) (direction : UInt8) (isMoving : Bool) (x y : UInt16) : Picture :=
  { picture with direction := direction, isMoving := isMoving, x := x, y := y }

end Picture

/-- Whose picture a message changes, and how.  Only a character that is there is changed. -/
def change : ScMessage → Option (UInt32 × (Option Picture → Option Picture))
  | .createOtherCharacter id direction x y hp =>
    some (id, fun _ => some ⟨direction, false, x, y, hp⟩)
  | .deleteCharacter id => some (id, fun _ => none)
  | .moveStart id direction x y => some (id, Option.map (·.put direction true x y))
  | .moveStop id direction x y | .attack1 id direction x y | .attack2 id direction x y
  | .attack3 id direction x y => some (id, Option.map (·.put direction false x y))
  | .damage _ id hp => some (id, Option.map ({ · with hp := hp }))
  | .sync id x y => some (id, Option.map ({ · with x := x, y := y }))
  | .createMyCharacter _ _ _ _ _ | .echo _ => none

/-- The session takes over what a message says of the character. -/
def takeOver (session : SessionId) (id : UInt32) (known : Option Picture) (m : Sending) :
    Option Picture :=
  match change m.2 with
  | none => known
  | some (about, f) => if m.1 = session ∧ about = id then f known else known

/-- What the session has of the character after the messages. -/
def pictureOf (session : SessionId) (id : UInt32) (log : List Sending) : Option Picture :=
  log.foldl (takeOver session id) none

/-- The session is that of the player at `p` only, the character that of the player at `q` only. -/
structure Pair (names : Nat → Option (SessionId × UInt32)) (p q : Nat) (session : SessionId)
    (id : UInt32) : Prop where
  ne : p ≠ q
  viewer : ∃ own, names p = some (session, own)
  subject : ∃ receiver, names q = some (receiver, id)
  session : ∀ r own, names r = some (session, own) → r = p
  id : ∀ r receiver, names r = some (receiver, id) → r = q

variable {g : Grid} {w : World} {p q r a i : Nat} {mover other : Player} {msg : ScMessage}
  {m : Sending} {log msgs : List Sending} {session receiver : SessionId} {id : UInt32}
  {known : Option Picture} {f : Option Picture → Option Picture}

/-! ## One message -/

theorem pictureOf_append : pictureOf session id (log ++ msgs) =
    msgs.foldl (takeOver session id) (pictureOf session id log) :=
  List.foldl_append

theorem takeOver_none (h : change msg = none) :
    takeOver session id known (receiver, msg) = known := by
  rw [takeOver, h]

/-- A message about the player at `a` to the one at `r`. -/
theorem Pair.takeOver (P : Pair (w.read Player.names) p q session id)
    (hr : w.players r = some other) (ha : w.players a = some mover)
    (hmsg : change msg = some (mover.playerId.characterId, f)) (known : Option Picture) :
    takeOver session id known (other.sessionId, msg) =
      if r = p ∧ a = q then f known else known := by
  have hr := read_eq_some (φ := Player.names) hr
  have ha := read_eq_some (φ := Player.names) ha
  rw [GameLogic.takeOver, hmsg]
  refine if_congr ⟨?_, ?_⟩ rfl rfl
  · rintro ⟨rfl, rfl⟩
    exact ⟨P.session r _ hr, P.id a _ ha⟩
  · rintro ⟨rfl, rfl⟩
    obtain ⟨own, hviewer⟩ := P.viewer
    obtain ⟨receiver, hsubject⟩ := P.subject
    rw [hr] at hviewer
    rw [ha] at hsubject
    exact ⟨congrArg Prod.fst (Option.some.inj hviewer),
      congrArg Prod.snd (Option.some.inj hsubject)⟩

theorem Pair.acts (P : Pair (w.read Player.names) p q session id)
    (hr : w.players r = some other) (ha : w.players a = some mover)
    (hmsg : change msg = some (mover.playerId.characterId, f)) :
    ActsIf (GameLogic.takeOver session id) (r = p ∧ a = q) [(other.sessionId, msg)] f := by
  constructor
  · intro h known
    rw [List.foldl_cons, List.foldl_nil, P.takeOver hr ha hmsg, if_pos h]
  · intro h known
    rw [List.foldl_cons, List.foldl_nil, P.takeOver hr ha hmsg, if_neg h]

/-- Messages nobody but the player itself gets about itself. -/
theorem Pair.sync (P : Pair (w.read Player.names) p q session id)
    (hr : w.players r = some other) (known : Option Picture) :
    GameLogic.takeOver session id known (syncMessage other) = known := by
  rw [syncMessage, P.takeOver hr hr rfl, if_neg]
  rintro ⟨rfl, h⟩
  exact P.ne h

/-- Nothing that is sent to others or about others changes the picture. -/
theorem pictureOf_none (h : ∀ m ∈ log, m.1 ≠ session ∨ id ∉ named m.2) :
    pictureOf session id log = none := by
  induction log using List.reverseRecOn with
  | nil => rfl
  | append_singleton log m ih =>
    rw [pictureOf_append, ih fun m' hm' => h m' (List.mem_append_left _ hm')]
    have hm := h m (List.mem_append_right _ List.mem_cons_self)
    obtain ⟨receiver, msg⟩ := m
    rw [List.foldl_cons, List.foldl_nil]
    unfold GameLogic.takeOver
    split
    · rfl
    · rename_i about f hmsg
      have hnamed : about ∈ named msg := by
        cases msg <;> simp only [change, Option.some.injEq, Prod.mk.injEq, reduceCtorEq] at hmsg <;>
          simp [named, hmsg.1]
      rw [if_neg]
      rintro ⟨rfl, rfl⟩
      exact hm.elim (fun h => h rfl) fun h => h hnamed

/-! ## Broadcasts -/

/-- **A broadcast about the player at `a`.** -/
theorem outcome_sendAOI_acts {sendMe : Bool} (P : Pair (w.read Player.names) p q session id)
    (ha : w.players a = some mover) (hdead : mover.isDead = false)
    (hi : mover.currentSector = some i)
    (hmsg : change msg = some (mover.playerId.characterId, f))
    (hf : ∀ known, f (f known) = f known) :
    Outcome (fun msgs => ActsIf (takeOver session id) (a = q ∧ p ∈ nearby g w a mover i) msgs f)
      (fun _ => True) (sendAOI g w a msg sendMe) := by
  unfold sendAOI
  rw [deref_ok ha]
  show Outcome _ _ (mover.sector >>= _)
  rw [sector_eq hi]
  refine Outcome.weaken (Outcome.forall₂ (R := fun r m =>
    ActsIf (takeOver session id) (r = p ∧ a = q) [m] f) fun r _ => ?_) (fun msgs hmsgs => ?_)
    fun _ h => h
  · apply outcome_deref_some.bind
    intro other hr
    exact P.acts hr ha hmsg
  · refine (ActsIf.each hmsgs hf).congr ?_
    simp only [hdead, Bool.false_or, Bool.not_false, List.filter_true, nearby, List.mem_append]
    constructor
    · rintro ⟨rfl, hmem⟩
      refine ⟨p, hmem.imp_left fun h => ?_, rfl, rfl⟩
      obtain ⟨hmem, hne⟩ := List.mem_filter.mp h
      refine List.mem_filter.mpr ⟨hmem, ?_⟩
      simpa using Or.inr (of_decide_eq_true hne)
    · rintro ⟨r, hmem, rfl, rfl⟩
      refine ⟨rfl, hmem.imp_left fun h => ?_⟩
      exact List.mem_filter.mpr ⟨(List.mem_filter.mp h).1, by simpa using P.ne⟩

/-- What `SendAOIToSelf` tells the player at `a` of the one at `r`. -/
theorem outcome_introduce_acts (P : Pair (w.read Player.names) p q session id)
    (ha : w.players a = some mover) (hdead : NoneDead w) :
    Outcome (fun msgs => ActsIf (takeOver session id) (a = p ∧ r = q) msgs
      fun _ => w.read Player.picture q) (fun _ => True) (introduce w mover r) := by
  apply outcome_deref_some.bind
  intro other hr
  dsimp only
  rw [hdead r other hr, if_neg Bool.false_ne_true]
  have step {f} {msg : ScMessage} (hmsg : change msg = some (other.playerId.characterId, f)) :=
    P.takeOver ha hr hmsg
  constructor
  · rintro ⟨rfl, rfl⟩ known
    rw [read_eq_some hr]
    cases hmoving : other.isMoving <;>
      simp [step, change, Player.picture, Picture.put, hmoving]
  · intro h known
    cases other.isMoving <;> simp [step, change, h]

/-- The players at `a` and `r` are the viewer and the subject, or the subject and the viewer. -/
def IsPair (p q a r : Nat) : Prop := a = p ∧ r = q ∨ r = p ∧ a = q

/-- One of the pair is at `a`, and the other among `players`. -/
def Meets (p q a : Nat) (players : List Nat) : Prop := a = p ∧ q ∈ players ∨ a = q ∧ p ∈ players

/-- The players at `a` and `r` come into each other's view. -/
theorem outcome_appear_acts (P : Pair (w.read Player.names) p q session id)
    (ha : w.players a = some mover) (hdead : NoneDead w) :
    Outcome (fun msgs => ActsIf (takeOver session id) (IsPair p q a r) msgs
      fun _ => w.read Player.picture q) (fun _ => True) (appear w mover r) := by
  apply outcome_deref_some.bind
  intro other hr
  dsimp only
  rw [hdead r other hr, if_neg Bool.false_ne_true]
  have toMover {f} {msg : ScMessage} (hmsg : change msg = some (other.playerId.characterId, f)) :=
    P.takeOver ha hr hmsg
  have toOther {f} {msg : ScMessage} (hmsg : change msg = some (mover.playerId.characterId, f)) :=
    P.takeOver hr ha hmsg
  constructor
  · rintro (⟨rfl, rfl⟩ | ⟨rfl, rfl⟩) known
    · rw [read_eq_some hr]
      cases hmoving : other.isMoving <;> cases mover.isMoving <;>
        simp [toMover, toOther, change, Player.picture, Picture.put, hmoving, P.ne, P.ne.symm]
    · rw [read_eq_some ha]
      cases hmoving : mover.isMoving <;> cases other.isMoving <;>
        simp [toMover, toOther, change, Player.picture, Picture.put, hmoving, P.ne, P.ne.symm]
  · intro h known
    obtain ⟨hmine, hyours⟩ := not_or.mp h
    cases mover.isMoving <;> cases other.isMoving <;>
      simp [toMover, toOther, change, hmine, hyours]

/-- They go out of each other's view. -/
theorem outcome_disappear_acts (P : Pair (w.read Player.names) p q session id)
    (ha : w.players a = some mover) (hdead : NoneDead w) :
    Outcome (fun msgs => ActsIf (takeOver session id) (IsPair p q a r) msgs fun _ => none)
      (fun _ => True) (disappear w mover r) := by
  apply outcome_deref_some.bind
  intro other hr
  rw [hdead r other hr, if_neg Bool.false_ne_true]
  exact (P.acts (f := fun _ => none) ha hr rfl).append (P.acts hr ha rfl) fun _ => rfl

theorem exists_isPair {players : List Nat} :
    (∃ r ∈ players, IsPair p q a r) ↔ Meets p q a players := by
  unfold IsPair Meets
  grind

/-- **A spawn.**  The player at `a` does not move yet. -/
theorem outcome_makeSectorSpawnPackets_acts (P : Pair (w.read Player.names) p q session id)
    (ha : w.players a = some mover) (hstands : mover.isMoving = false) (hdead : NoneDead w)
    (hi : mover.currentSector = some i) :
    Outcome (fun msgs => ActsIf (takeOver session id) (Meets p q a (nearby g w a mover i)) msgs
      fun _ => w.read Player.picture q) (fun _ => True) (makeSectorSpawnPackets g w a) := by
  have hmover := hdead a mover ha
  unfold makeSectorSpawnPackets
  rw [deref_ok ha]
  apply (outcome_sendAOI_acts (f := fun _ => some ⟨mover.direction, false, mover.x, mover.y,
    mover.hp⟩) P ha hmover hi rfl fun _ => rfl).bind
  intro msgs hmsgs
  have hown : Outcome (fun own => ActsIf (takeOver session id)
      (a = p ∧ q ∈ nearby g w a mover i) own fun _ => w.read Player.picture q) (fun _ => True)
      (sendAOIToSelf g w a) := by
    unfold sendAOIToSelf
    rw [deref_ok ha]
    show Outcome _ _ (mover.sector >>= _)
    rw [sector_eq hi]
    refine Outcome.bind (P := fun parts => List.Forall₂ (fun r part => ActsIf
      (takeOver session id) (a = p ∧ r = q) part fun _ => w.read Player.picture q)
      (nearby g w a mover i) parts) ?_ ?_
    · exact Outcome.forall₂ fun r _ => outcome_introduce_acts P ha hdead
    · intro parts hparts
      refine (ActsIf.flatten hparts fun _ => rfl).congr ?_
      grind
  apply hown.bind
  intro own hown
  refine ((hmsgs.as fun h => ?_).append hown fun _ => rfl).congr or_comm
  funext known
  rw [← h.1, read_eq_some ha, Player.picture, hstands]

/-- **A sector change.**  First come the players that are new in view, then those that are lost. -/
theorem outcome_sectorMessages_acts {prevX prevY : UInt16}
    (P : Pair (w.read Player.names) p q session id) (ha : w.players a = some mover)
    (hdead : NoneDead w) :
    Outcome (fun msgs => ∃ created deleted, msgs = created ++ deleted ∧
      ActsIf (takeOver session id)
        (Meets p q a ((sectorSets g prevX prevY mover.x mover.y).2.flatMap w.sectors)) created
        (fun _ => w.read Player.picture q) ∧
      ActsIf (takeOver session id)
        (Meets p q a ((sectorSets g prevX prevY mover.x mover.y).1.flatMap w.sectors)) deleted
        fun _ => none) (fun _ => True) (sectorMessages g w a prevX prevY) := by
  unfold sectorMessages
  rw [deref_ok ha]
  apply (Outcome.forall₂ fun r _ => outcome_appear_acts (r := r) P ha hdead).bind
  intro created hcreated
  apply (Outcome.forall₂ fun r _ => outcome_disappear_acts (r := r) P ha hdead).bind
  intro deleted hdeleted
  exact ⟨_, _, rfl, (ActsIf.flatten hcreated fun _ => rfl).congr exists_isPair.symm,
    (ActsIf.flatten hdeleted fun _ => rfl).congr exists_isPair.symm⟩

end GameLogic

end IocpServer
