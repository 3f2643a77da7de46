import IocpServer.GameLogic.PendingRequests
import IocpServer.GameLogic.Portrayal

/-!
# Every client's picture of the others

Runs of all the calls in which nobody dies and the attacks stay in their tile.

* `Faithful` — every client has a picture of exactly the players in view, and each picture shows the
  player as it is, up to the ticks of its movement.
* `Portrayed.packetProcMoveStart` and its like — the calls.
* `run_faithful` — **so in every run.**
-/

set_option autoImplicit false

namespace IocpServer

open Lib

namespace GameLogic

/-! ## The promise -/

/-- What the session of one player has of another's character. -/
def Faithful (g : Grid) (w : World) : Prop :=
  ∀ p q player other, p ≠ q → w.players p = some player → w.players q = some other →
    (∀ r third, w.players r = some third → third.sessionId = player.sessionId → r = p) →
    (∀ r third, w.players r = some third →
      third.playerId.characterId = other.playerId.characterId → r = q) →
    ∃ i j, player.currentSector = some i ∧ other.currentSector = some j ∧
      if g.Around i j then
        ∃ shown, pictureOf player.sessionId other.playerId.characterId w.sent = some shown ∧
          Coasted shown other.picture
      else pictureOf player.sessionId other.playerId.characterId w.sent = none

variable {g : Grid} {w w' w₁ : World} {p q : Nat} {player moved other : Player}
  {packetBuffer : CPacket} {locals : Locals} {attack : AttackType} {move : CSMoveInfo} {m : Sending}
  {hp : UInt8} {shown : Picture}

theorem Portrayed.faithful (I : Portrayed g w (UpToDate w)) : Faithful g w := by
  intro p q player other hpq hp hq hsession hid
  obtain ⟨i, hi, hpi, -⟩ := I.placed.sectorOf hp
  obtain ⟨j, hj, hqj, -⟩ := I.placed.sectorOf hq
  have P : Pair (w.read Player.names) p q player.sessionId other.playerId.characterId := by
    refine ⟨hpq, ⟨_, read_eq_some hp⟩, ⟨_, read_eq_some hq⟩, fun r own hr => ?_,
      fun r receiver hr => ?_⟩
    · obtain ⟨third, hthird, hnames⟩ := players_of_read hr
      exact hsession r third hthird (congrArg Prod.fst hnames)
    · obtain ⟨third, hthird, hnames⟩ := players_of_read hr
      exact hid r third hthird (congrArg Prod.snd hnames)
  have hseen := I.seen p q _ _ i j P hpi hqj
  refine ⟨i, j, hi, hj, ?_⟩
  split
  · rename_i haround
    obtain ⟨shown, hshown⟩ := Option.isSome_iff_exists.mp (hseen.mpr haround)
    exact ⟨shown, hshown, I.right p q _ _ shown P hshown _ (read_eq_some hq)⟩
  · rename_i hfar
    exact Option.not_isSome_iff_eq_none.mp (mt hseen.mp hfar)

/-! ## Stored positions -/

theorem SamePictures.refl : SamePictures w w := ⟨SamePlaces.refl, rfl, fun _ _ _ _ _ => rfl⟩

/-- A write that changes nothing the clients are told. -/
theorem SamePictures.modify {f : Player → Player} (hspot : ∀ player, (f player).spot = player.spot)
    (hnames : ∀ player, (f player).names = player.names) : SamePictures w (w.modify p f) :=
  ⟨SamePlaces.modify_self hspot, read_modify hnames, fun _ _ _ _ _ => rfl⟩

/-- A write that stores a position, behind `SC_SYNC` or not. -/
theorem SamePictures.stored {pos : Pos} {f : Player → Player} (hp : w.players p = some player)
    (hspot : (f player).spot = { player.spot with x := pos.1, y := pos.2 })
    (hnames : ∀ player, (f player).names = player.names)
    (hplayers : w₁.players = (w.modify p f).players) (hsectors : w₁.sectors = w.sectors)
    (hlist : w₁.playerList = w.playerList)
    (hsent : w₁.sent = w.sent ∨ w₁.sent = w.sent ++ [syncMessage player]) :
    SamePictures (w.place p pos) w₁ := by
  have hplaced : SamePlaces (w.place p pos) (w.modify p f) := SamePlaces.place rfl rfl rfl hp hspot
  have hplace : (w.place p pos).read Player.names = w.read Player.names := read_modify fun _ => rfl
  refine ⟨⟨fun q => ?_, hsectors, hlist⟩, ?_, fun a b session id P => ?_⟩
  · rw [hplayers]
    exact hplaced.spots q
  · rw [hplace, ← read_modify (w := w) (p := p) hnames]
    funext q
    rw [World.read, World.read, hplayers]
  · rw [hplace] at P
    show pictureOf session id w₁.sent = pictureOf session id w.sent
    rcases hsent with hsent | hsent
    · rw [hsent]
    · rw [hsent, pictureOf_append, List.foldl_cons, List.foldl_nil, P.sync hp]

theorem send_sync {c : Prop} [Decidable c] :
    (w.send (if c then [m] else [])).sent = w.sent ∨
      (w.send (if c then [m] else [])).sent = w.sent ++ [m] := by
  split
  · exact Or.inr rfl
  · exact Or.inl (List.append_nil _)

theorem samePictures_startStored (hp : w.players p = some player) :
    SamePictures (w.place p (startPosition player move)) (startStored w p player move) :=
  SamePictures.stored (f := (started · move)) hp rfl (fun _ => rfl) rfl rfl rfl send_sync

theorem samePictures_stopStored (hp : w.players p = some player) :
    SamePictures (w.place p (stopPosition player move)) (stopStored w p player move) :=
  SamePictures.stored (f := (stop · move)) hp rfl (fun _ => rfl) rfl rfl rfl send_sync

/-! ## Announcements -/

/-- The pictures of all but the player at `p` are right, and those of that player show its `hp`. -/
def UpToDateBut (w : World) (p : Nat) (hp : UInt8) (q : Nat) (shown : Picture) : Prop :=
  if q = p then shown.hp = hp else UpToDate w q shown

theorem UpToDate.but (hp : w.players p = some player) (h : UpToDate w q shown) :
    UpToDateBut w p player.hp q shown := by
  unfold UpToDateBut
  split
  · rename_i hq
    subst hq
    exact ((h _ (read_eq_some hp)).same.2.2).symm
  · exact h

/-- Only the player at `p` has been written to. -/
structure Rewritten (w : World) (p : Nat) (player moved : Player) (w₁ : World) : Prop where
  before : w.players p = some player
  self : w₁.players p = some moved
  other : ∀ q, q ≠ p → w₁.players q = w.players q

section

variable {α : Type} {φ : Player → α}

theorem Rewritten.read_ne (h : Rewritten w p player moved w₁) (hq : q ≠ p) :
    w₁.read φ q = w.read φ q := by
  rw [World.read, World.read, h.other q hq]

theorem Rewritten.read (h : Rewritten w p player moved w₁) (hφ : φ moved = φ player) :
    w₁.read φ = w.read φ := by
  funext q
  by_cases hq : q = p
  · subst hq
    rw [read_eq_some h.self, read_eq_some h.before, hφ]
  · exact h.read_ne hq

end

/-- What the world shows is a right picture, but for the `hp` of the player at `p`. -/
theorem Rewritten.but {now : Picture} (h : Rewritten w p player moved w₁)
    (hhp : moved.hp = player.hp) (hnow : w₁.read Player.picture q = some now) :
    UpToDateBut w p player.hp q now := by
  unfold UpToDateBut
  split
  · rename_i hq
    subst hq
    rw [read_eq_some h.self] at hnow
    cases hnow
    exact hhp
  · rename_i hq
    intro now' hnow'
    rw [h.read_ne hq, hnow'] at hnow
    cases hnow
    exact .still

/-- Who is who and who is dead stays, and all pictures are right again. -/
structure StaysFaithful (g : Grid) (w w' : World) : Prop where
  names : w'.read Player.names = w.read Player.names
  dead : w'.read Player.isDead = w.read Player.isDead
  pictures : Portrayed g w' (UpToDate w')

theorem StaysFaithful.refl (I : Portrayed g w (UpToDate w)) : StaysFaithful g w w := ⟨rfl, rfl, I⟩

theorem StaysFaithful.trans (h : StaysFaithful g w w₁) (h' : StaysFaithful g w₁ w') :
    StaysFaithful g w w' :=
  ⟨h'.names.trans h.names, h'.dead.trans h.dead, h'.pictures⟩

/-- A message that says where a player is, where it looks and whether it moves. -/
def Announces (message : UInt32 → UInt8 → UInt16 → UInt16 → ScMessage) (moving : Bool) : Prop :=
  ∀ id direction x y, change (message id direction x y) =
    some (id, Option.map (·.put direction moving x y))

/-- **The end of the handlers**: the neighbours are told what the player does. -/
theorem Portrayed.announce {message : UInt32 → UInt8 → UInt16 → UInt16 → ScMessage} {moving : Bool}
    (I : Portrayed g w₁ (UpToDateBut w p hp)) (hmsg : Announces message moving)
    (hself : w₁.read Player.card p = some moved.card) (hmoving : moved.isMoving = moving)
    (hhp : moved.hp = hp) (halive : moved.isDead = false)
    (hother : ∀ q, q ≠ p → w₁.read Player.picture q = w.read Player.picture q) :
    Outcome (fun w' => Portrayed g w' (UpToDate w') ∧ w'.read Player.card = w₁.read Player.card)
      (fun _ => True) (GameLogic.broadcast g w₁ p message) := by
  obtain ⟨third, hthird, hcard⟩ := players_of_read hself
  have hpicture : third.picture = moved.picture := congrArg Card.picture hcard
  have hdead : third.isDead = false := (congrArg Card.isDead hcard).trans halive
  have hstate := hpicture
  simp only [Player.picture, Picture.mk.injEq] at hstate
  unfold GameLogic.broadcast
  rw [deref_ok hthird]
  apply (I.broadcast (S := UpToDate w₁) hthird hdead (hmsg _ _ _ _) (fun _ => rfl) ?_ ?_).bind
  · intro msgs hmsgs
    exact ⟨hmsgs, rfl⟩
  · intro q shown hq hshown
    rw [UpToDateBut, if_neg hq] at hshown
    intro now hnow
    exact hshown now ((hother q hq).symm.trans hnow)
  · intro shown hshown now hnow
    rw [UpToDateBut, if_pos rfl] at hshown
    rw [read_eq_some hthird] at hnow
    cases hnow
    have hput : shown.put third.direction moving third.x third.y = third.picture := by
      simp only [Picture.put, Player.picture, Picture.mk.injEq, true_and]
      exact ⟨(hstate.2.1.trans hmoving).symm, hshown.trans (hstate.2.2.2.2.trans hhp).symm⟩
    rw [hput]
    exact .still

/-! ## Packets -/

/-- **Where a movement starts or ends**: what the player does is stored, its sector checked and the
neighbours told. -/
theorem Portrayed.turn {message : UInt32 → UInt8 → UInt16 → UInt16 → ScMessage} {moving : Bool}
    {pos : Pos} (I : Portrayed g w (UpToDate w)) (hdead : NoneDead w)
    (hmsg : Announces message moving) (h : Rewritten w p player moved w₁)
    (hsame : SamePictures (w.place p pos) w₁) (hmoving : moved.isMoving = moving)
    (hkept : (moved.names, moved.isDead, moved.hp) = (player.names, player.isDead, player.hp)) :
    Outcome (StaysFaithful g w) (fun _ => True) (do
      let w ← GameLogic.checkSector g w₁ p player.x player.y
      GameLogic.broadcast g w p message) := by
  obtain ⟨hnames, hkept⟩ := Prod.mk.inj hkept
  obtain ⟨hdeads, hhp⟩ := Prod.mk.inj hkept
  have hread : w₁.read Player.isDead = w.read Player.isDead := h.read hdeads
  apply (I.checkSector (S := UpToDateBut w p player.hp) h.before hsame
    (noneDead_of_read hread hdead) (fun q shown hshown => hshown.but h.before)
    fun q now hnow => h.but hhp hnow).bind
  rintro w₂ ⟨I₂, hcard⟩
  refine (I₂.announce hmsg ((congrFun hcard p).trans (read_eq_some h.self)) hmoving hhp
    (hdeads.trans (hdead p player h.before)) fun q hq => ?_).weaken ?_ fun _ h => h
  · exact (congrFun (picture_of_card hcard) q).trans (h.read_ne hq)
  · rintro w' ⟨I', hcard'⟩
    exact ⟨(names_of_card (hcard'.trans hcard)).trans (h.read hnames),
      (dead_of_card (hcard'.trans hcard)).trans hread, I'⟩

theorem announces_moveStart : Announces .moveStart true := fun _ _ _ _ => rfl

theorem announces_moveStop : Announces .moveStop false := fun _ _ _ _ => rfl

theorem announces_attack : Announces attack.message false := by
  cases attack <;> exact fun _ _ _ _ => rfl

theorem rewritten_startStored (hp : w.players p = some player) :
    Rewritten w p player (started player move) (startStored w p player move) :=
  ⟨hp, startStored_self hp, fun _ => startStored_ne⟩

theorem rewritten_stopStored (hp : w.players p = some player) :
    Rewritten w p player (stop player move) (stopStored w p player move) :=
  ⟨hp, stopStored_self hp, fun _ => stopStored_ne⟩

theorem Portrayed.packetProcMoveStart (I : Portrayed g w (UpToDate w)) (hdead : NoneDead w)
    (hp : w.players p = some player) :
    Outcome (StaysFaithful g w) (fun _ => True)
      (packetProcMoveStart g w p packetBuffer locals) := by
  rw [packetProcMoveStart_eq hp]
  exact I.turn hdead announces_moveStart (rewritten_startStored hp) (samePictures_startStored hp)
    rfl rfl

theorem Portrayed.packetProcMoveStop (I : Portrayed g w (UpToDate w)) (hdead : NoneDead w)
    (hp : w.players p = some player) :
    Outcome (StaysFaithful g w) (fun _ => True) (packetProcMoveStop g w p packetBuffer locals) := by
  rw [packetProcMoveStop_eq hp]
  exact I.turn hdead announces_moveStop (rewritten_stopStored hp) (samePictures_stopStored hp)
    rfl rfl

/-- The hit is told to everybody who has a picture of the player that is hit. -/
theorem Portrayed.strike (I : Portrayed g w (UpToDate w)) (hdead : NoneDead w) :
    Outcome (StaysFaithful g w) (fun _ => True) (strike g w attack player q) := by
  unfold GameLogic.strike
  show Outcome _ _ (do
    let other ← (w.modify q (wounded attack)).deref q
    let msgs ← sendAOI g (w.modify q (wounded attack)) q _ true
    return (w.modify q (wounded attack)).send msgs)
  have hread : (w.modify q (wounded attack)).read Player.isDead = w.read Player.isDead :=
    read_modify fun _ => rfl
  have I₁ : Portrayed g (w.modify q (wounded attack)) (UpToDate w) :=
    I.same (SamePictures.modify (fun _ => rfl) fun _ => rfl)
  apply outcome_deref_some.bind
  intro third hthird
  obtain ⟨other, hother, rfl⟩ := Option.map_eq_some_iff.mp (modify_players_self.symm.trans hthird)
  refine (I₁.broadcast (S := UpToDate (w.modify q (wounded attack)))
    (h := fun shown => { shown with hp := (wounded attack other).hp }) hthird
    (noneDead_of_read hread hdead q _ hthird) rfl (fun _ => rfl) ?_ ?_).bind ?_
  · intro r shown hr hshown now hnow
    rw [World.read, modify_players_ne hr] at hnow
    exact hshown now hnow
  · intro shown hshown now hnow
    rw [read_eq_some hthird] at hnow
    cases hnow
    exact (hshown _ (read_eq_some hother)).hurt _
  · intro msgs hmsgs
    exact ⟨read_modify fun _ => rfl, hread, hmsgs⟩

/-- What holds if nobody is hit and behind every hit. -/
theorem outcome_checkDamagedPlayer_of {P : World → Prop} (hmiss : P w)
    (hhit : ∀ player q, Outcome P (fun _ => True) (strike g w attack player q)) :
    Outcome P (fun _ => True) (checkDamagedPlayer g w p attack) := by
  unfold checkDamagedPlayer
  apply outcome_any.bind
  intro player _
  split
  · exact hmiss
  · apply outcome_any.bind
    intro i _
    apply outcome_any.bind
    intro target _
    split
    · exact hhit _ _
    · unfold strikeAhead
      dsimp only
      split
      · exact hmiss
      · apply outcome_any.bind
        intro target _
        split
        · exact hmiss
        · exact hhit _ _

theorem Portrayed.packetProcAttack (I : Portrayed g w (UpToDate w)) (hdead : NoneDead w)
    (hp : w.players p = some player)
    (htile : TileKept g player.pos (stopPosition player (readMove packetBuffer locals))) :
    Outcome (StaysFaithful g w) (fun _ => True)
      (packetProcAttack attack g w p packetBuffer locals) := by
  rw [packetProcAttack_eq hp]
  have hstored : Rewritten w p player (stop player (readMove packetBuffer locals))
      (stopStored w p player (readMove packetBuffer locals)) := rewritten_stopStored hp
  have I₁ : Portrayed g (stopStored w p player (readMove packetBuffer locals))
      (UpToDateBut w p player.hp) :=
    ((I.weaken fun q shown h => h.but hp).place hp htile).same (samePictures_stopStored hp)
  apply (I₁.announce announces_attack (read_eq_some hstored.self) rfl rfl (hdead p player hp)
    fun q hq => hstored.read_ne hq).bind
  rintro w₂ ⟨I₂, hcard⟩
  have h₂ : StaysFaithful g w w₂ := ⟨(names_of_card hcard).trans (hstored.read rfl),
    (dead_of_card hcard).trans (hstored.read rfl), I₂⟩
  exact outcome_checkDamagedPlayer_of h₂ fun player q =>
    (I₂.strike (noneDead_of_read h₂.dead hdead)).weaken (fun _ => h₂.trans) fun _ h => h

/-- A message that is no news of a character. -/
theorem SamePictures.send {msg : ScMessage} {receiver : SessionId} (hmsg : change msg = none) :
    SamePictures w (w.send [(receiver, msg)]) := by
  refine ⟨SamePlaces.refl.send, rfl, fun a b session id _ => ?_⟩
  show pictureOf session id (w.sent ++ [(receiver, msg)]) = _
  rw [pictureOf_append, List.foldl_cons, List.foldl_nil, takeOver_none hmsg]

theorem Portrayed.received {now : Int32} (I : Portrayed g w (UpToDate w)) :
    StaysFaithful g w (received w p now) := by
  have hpicture : (GameLogic.received w p now).read Player.picture = w.read Player.picture :=
    read_modify fun _ => rfl
  have h : SamePictures w (GameLogic.received w p now) :=
    SamePictures.modify (fun _ => rfl) fun _ => rfl
  refine ⟨read_modify fun _ => rfl, read_modify fun _ => rfl, ?_⟩
  refine (I.same h).weaken fun q shown hshown => ?_
  rw [UpToDate, hpicture]
  exact hshown

/-- **Packets.** -/
theorem Portrayed.processPacket {ipi : IncomingPacketInfo} {now : Int32}
    (I : Portrayed g w (UpToDate w)) (hdead : NoneDead w)
    (hok : SameTile g w (.packet ipi locals now)) :
    Outcome (StaysFaithful g w) (fun _ => True) (processPacket g w ipi locals now) := by
  have stays : ∀ p, StaysFaithful g w (GameLogic.received w p now) := fun p => I.received
  have hdead' : ∀ p, NoneDead (GameLogic.received w p now) := fun p =>
    noneDead_of_read (stays p).dead hdead
  refine outcome_packet trivial (fun _ => StaysFaithful.refl I) ?_ ?_ ?_ ?_ ?_
  · intro p player hp _
    exact ((stays p).pictures.packetProcMoveStart (hdead' p) (received_self hp.2.1)).weaken
      (fun _ => (stays p).trans) fun _ h => h
  · intro p player hp _
    exact ((stays p).pictures.packetProcMoveStop (hdead' p) (received_self hp.2.1)).weaken
      (fun _ => (stays p).trans) fun _ h => h
  · intro attack p player hp htype
    refine ((stays p).pictures.packetProcAttack (hdead' p) (received_self hp.2.1) ?_).weaken
      (fun _ => (stays p).trans) fun _ h => h
    refine (packetOk_of_sameTile hok p player hp).2.2 ?_
    rw [htype]
    cases attack <;> simp [AttackType.packetType]
  · intro p player hp _
    rw [packetProcEcho_eq (received_self hp.2.1)]
    exact ⟨(stays p).names, (stays p).dead,
      (stays p).pictures.same (SamePictures.send rfl)⟩
  · intro p player _ _ _
    exact stays p

/-! ## Ticks -/

/-- What the tick stores in a player that moves. -/
def ticked (player : Player) : Player :=
  { player with
    x := (tickPosition player).1
    y := (tickPosition player).2 }

/-- The tick is told to nobody but those who come into view. -/
theorem Portrayed.movePlayer (I : Portrayed g w (UpToDate w)) (hdead : NoneDead w)
    (hp : w.players p = some player) (hmoving : player.isMoving = true) :
    Outcome (StaysFaithful g w) (fun _ => True) (movePlayer g w p) := by
  unfold GameLogic.movePlayer
  rw [deref_ok hp]
  show Outcome _ _ (GameLogic.checkSector g (w.modify p ticked) p player.x player.y)
  have h : Rewritten w p player (ticked player) (w.modify p ticked) :=
    ⟨hp, by rw [modify_players_self, hp]; rfl, fun _ hq => modify_players_ne hq⟩
  have hsame : SamePictures (w.place p (tickPosition player)) (w.modify p ticked) :=
    SamePictures.stored (f := ticked) hp rfl (fun _ => rfl) rfl rfl rfl (Or.inl rfl)
  refine (I.checkSector (S := UpToDate (w.modify p ticked)) hp hsame
    (noneDead_of_read (h.read rfl) hdead) ?_ ?_).weaken ?_ fun _ h => h
  · intro q shown hshown now hnow
    by_cases hq : q = p
    · subst hq
      rw [read_eq_some h.self] at hnow
      cases hnow
      exact (hshown _ (read_eq_some hp)).tick hmoving
    · exact hshown now ((h.read_ne hq).symm.trans hnow)
  · intro q now hnow now' hnow'
    rw [hnow] at hnow'
    cases hnow'
    exact .still
  · rintro w' ⟨I', hcard⟩
    refine ⟨(names_of_card hcard).trans (h.read rfl), (dead_of_card hcard).trans (h.read rfl), ?_⟩
    refine I'.weaken fun q shown hshown => ?_
    rw [UpToDate, picture_of_card hcard]
    exact hshown

/-- The second loop moves only those who move. -/
theorem outcome_moveEntry_moving {P : World → Prop} {totalMove i : Nat} {s : World × Nat}
    (hP : P s.1) (hmove : ∀ p player, s.1.players p = some player → player.isMoving = true →
      Outcome P (fun _ => True) (movePlayer g s.1 p)) :
    Outcome (fun s => P s.1) (fun _ => True) (moveEntry g totalMove s i) := by
  unfold GameLogic.moveEntry
  apply Outcome.ite
  · intro _
    exact hP
  · intro _
    apply outcome_deref_some.bind
    intro player hp
    apply Outcome.ite
    · intro _
      exact hP
    · intro hmoves
      have hmoving : player.isMoving = true := by
        simp only [Bool.or_eq_true, Bool.not_eq_true', not_or, Bool.not_eq_false] at hmoves
        exact hmoves.2
      apply (hmove _ player hp hmoving).bind
      intro w hw
      exact hw

/-- The first loop does nothing or somebody is dead behind it. -/
theorem outcome_checkAlive_dead {timer : Int32} (h : w₁ = w ∨ ¬NoneDead w₁) :
    Outcome (fun w' => w' = w ∨ ¬NoneDead w') (fun _ => True) (checkAlive timer w₁ p) := by
  unfold GameLogic.checkAlive
  apply outcome_deref_some.bind
  intro player hp
  apply Outcome.ite
  · intro _
    refine Or.inr fun halive => ?_
    have hself := @modify_players_self w₁ p fun player =>
      { player with isDead := true, isMoving := false }
    rw [hp] at hself
    exact Bool.noConfusion (halive p _ hself)
  · intro _
    exact h

/-- A write to the lists and cursors. -/
theorem StaysFaithful.lists (h : StaysFaithful g w w₁) (hplayers : w'.players = w₁.players)
    (hsectors : w'.sectors = w₁.sectors) (hlist : w'.playerList = w₁.playerList)
    (hsent : w'.sent = w₁.sent) : StaysFaithful g w w' := by
  have hread {α : Type} {φ : Player → α} : w'.read φ = w₁.read φ := by
    funext q
    rw [World.read, World.read, hplayers]
  have hsame : SamePictures w₁ w' :=
    ⟨⟨fun q => by rw [hplayers], hsectors, hlist⟩, hread, fun _ _ _ _ _ => by rw [hsent]⟩
  refine ⟨hread.trans h.names, hread.trans h.dead, (h.pictures.same hsame).weaken ?_⟩
  intro q shown hshown
  rw [UpToDate, hread]
  exact hshown

/-- **The tick.** -/
theorem Portrayed.updateGameWorld {timer : Int32} (I : Portrayed g w (UpToDate w))
    (hdead : NoneDead w) :
    Outcome (fun w' => NoneDead w' → StaysFaithful g w w') (fun _ => True)
      (updateGameWorld g w timer) := by
  unfold GameLogic.updateGameWorld
  apply (Outcome.foldlM (I := fun w' => w' = w ∨ ¬NoneDead w') (Or.inl rfl)
    fun w' i h _ => outcome_checkAlive_dead h).bind
  intro w₁ h
  have hend : ∀ s : World × Nat, ∀ c : Prop, [Decidable c] → ∀ n,
      (if c then { s.1 with moveCursor := n } else s.1).read Player.isDead =
        s.1.read Player.isDead ∧ (StaysFaithful g w s.1 →
          StaysFaithful g w (if c then { s.1 with moveCursor := n } else s.1)) := by
    intro s c _ n
    split
    · exact ⟨rfl, fun h => h.lists rfl rfl rfl rfl⟩
    · exact ⟨rfl, fun h => h⟩
  rcases h with rfl | hdies
  · -- nobody has died, so every move keeps the pictures
    refine (Outcome.foldlM (I := fun s => StaysFaithful g w₁ s.1) ?_ fun s i hs _ => ?_).bind ?_
    · split
      · exact (StaysFaithful.refl I).lists rfl rfl rfl rfl
      · exact StaysFaithful.refl I
    · refine outcome_moveEntry_moving hs fun p player hp hmoving => ?_
      exact (hs.pictures.movePlayer (noneDead_of_read hs.dead hdead) hp hmoving).weaken
        (fun _ => hs.trans) fun _ h => h
    · intro s hs _
      exact (hend s _ _).2 hs
  · -- who is dead behind the first loop is dead in the end
    refine (Outcome.foldlM (I := fun s => s.1.read Player.isDead = w₁.read Player.isDead) ?_
      fun s i hread _ => ?_).bind ?_
    · split <;> rfl
    · refine outcome_moveEntry (P := fun w' => w'.read Player.isDead = w₁.read Player.isDead)
        (fun _ _ => trivial) hread fun p => ?_
      exact outcome_movePlayer_dead.weaken (fun w' h => h.trans hread) fun _ h => h
    · intro s hread halive
      exact absurd (noneDead_of_read ((hend s _ _).1.trans hread).symm halive) hdies

/-! ## Players come -/

/-- Whoever is known is still known where nobody has lost its names. -/
theorem Known.mono (h : Known w m) (hplayers : ∀ q other, w.players q = some other →
    ∃ other', w'.players q = some other' ∧ other.names = other'.names) : Known w' m := by
  obtain ⟨⟨q, other, hq, hsession⟩, hnamed⟩ := h
  constructor
  · obtain ⟨other', hq', hnames⟩ := hplayers q other hq
    exact ⟨q, other', hq', (congrArg Prod.fst hnames).symm.trans hsession⟩
  · intro id hid
    obtain ⟨r, third, hr, hcharacter⟩ := hnamed id hid
    obtain ⟨third', hr', hnames⟩ := hplayers r third hr
    exact ⟨r, third', hr', (congrArg Prod.snd hnames).symm.trans hcharacter⟩

/-- The new player stands in its sector, in `playerList` and in `activePlayerList`. -/
theorem Portrayed.spawn {active : List Nat} {i : Nat} {direction hp : UInt8} {x y : UInt16}
    (I : Portrayed g w (UpToDate w)) (hdead : NoneDead w) (hknown : ∀ m ∈ w.sent, Known w m)
    (hnone : w.players p = none) (halive : player.isDead = false)
    (hstands : player.isMoving = false)
    (hi : g.getSectorIndex player.x.toNat player.y.toNat = some i) :
    Outcome (fun w' => Portrayed g w' (UpToDate w') ∧ ∀ m ∈ w'.sent, Known w' m) (fun _ => True) (do
      let w := ((w.alloc p player).enter g p i).store p player.playerId.index
      let w := { w with activePlayerList := active }
      let w := w.send [(player.sessionId,
        .createMyCharacter player.playerId.characterId direction x y hp)]
      let msgs ← makeSectorSpawnPackets g w p
      return w.send msgs) := by
  dsimp only
  generalize hw₁ : World.send { ((w.alloc p player).enter g p i).store p player.playerId.index with
    activePlayerList := active } [(player.sessionId,
      .createMyCharacter player.playerId.characterId direction x y hp)] = w₁
  have hself : w₁.players p = some { player with currentSector := some i } := by
    rw [← hw₁]
    show (World.enter g _ p i).players p = _
    rw [enter_players_self, alloc_players_self]
    rfl
  have hother : ∀ q, q ≠ p → w₁.players q = w.players q := by
    intro q hq
    rw [← hw₁]
    show (World.enter g _ p i).players q = _
    rw [enter_players_ne hq, alloc_players_ne hq]
  have hsent : w₁.sent = w.sent ++ [(player.sessionId,
      .createMyCharacter player.playerId.characterId direction x y hp)] := hw₁ ▸ rfl
  have hplaced : Placed g w₁ := by
    refine (I.placed.create hnone hi).same ?_
    rw [← hw₁]
    exact ⟨fun _ => rfl, rfl, rfl⟩
  have hdead₁ : NoneDead w₁ := by
    intro q third hq
    by_cases hqp : q = p
    · subst hqp
      cases hself.symm.trans hq
      exact halive
    · exact hdead q third ((hother q hqp).symm.trans hq)
  have hplayers : ∀ q third, w.players q = some third →
      ∃ third', w₁.players q = some third' ∧ third.names = third'.names := by
    intro q third hq
    refine ⟨third, (hother q ?_).trans hq, rfl⟩
    rintro rfl
    cases hnone.symm.trans hq
  have hspawned := I.create (S := UpToDate w₁) hknown hnone hplaced hself hother
    (fun session id => by
      rw [hsent, pictureOf_append, List.foldl_cons, List.foldl_nil, takeOver_none rfl])
    hstands hdead₁ (fun q shown hq hshown now hnow => hshown now (by
      rw [World.read, ← hother q hq]
      exact hnow)) fun q now hnow now' hnow' => by
        cases hnow.symm.trans hnow'
        exact .still
  refine Outcome.bind (P := fun msgs => Portrayed g (w₁.send msgs) (UpToDate w₁) ∧
    ∀ m ∈ msgs, Known w₁ m) ?_ fun msgs hmsgs => ⟨hmsgs.1, fun m hm => ?_⟩
  · exact outcome_of_ok fun msgs hmsgs => ⟨hspawned.of_ok hmsgs,
      fun m hm => (plain_makeSectorSpawnPackets hmsgs hm).known⟩
  · rcases List.mem_append.mp hm with hm | hm
    · rw [hsent] at hm
      rcases List.mem_append.mp hm with hm | hm
      · exact (hknown m hm).mono hplayers
      · rw [List.mem_singleton.mp hm]
        refine ⟨⟨p, _, hself, rfl⟩, fun id hid => ?_⟩
        rw [List.mem_singleton.mp hid]
        exact ⟨p, _, hself, rfl⟩
    · exact hmsgs.2 m hm

/-- **A new player** is greeted; then it and its neighbours are shown to each other. -/
theorem Portrayed.createNewPlayer {id : SessionId} {randX randY : Nat} {now : Int32}
    {registered : Bool} (I : Portrayed g w (UpToDate w)) (hdead : NoneDead w)
    (hknown : ∀ m ∈ w.sent, Known w m) :
    Outcome (fun w' => Portrayed g w' (UpToDate w') ∧ ∀ m ∈ w'.sent, Known w' m) (fun _ => True)
      (createNewPlayer g w id p randX randY now registered) := by
  unfold GameLogic.createNewPlayer
  split
  · trivial
  · rename_i hp
    have hcounted : StaysFaithful g w { w with uniqueCharacterId := w.uniqueCharacterId + 1 } :=
      (StaysFaithful.refl I).lists rfl rfl rfl rfl
    apply Outcome.ite
    · intro _
      exact ⟨hcounted.pictures, hknown⟩
    · intro _
      apply (outcome_sectorAt.weaken (fun _ h => h) fun _ _ => trivial).bind
      intro i hi
      exact hcounted.pictures.spawn hdead hknown hp rfl rfl hi

/-! ## Nobody goes -/

/-- `FlushFrame` finds nobody to ask the release of and nobody to destroy. -/
theorem Portrayed.flushFrame (I : Portrayed g w (UpToDate w)) (hdead : NoneDead w)
    (hqueue : w.destroyPlayerRequestQueue = []) :
    Outcome (fun w' => StaysFaithful g w w' ∧ w'.destroyPlayerRequestQueue = []) (fun _ => True)
      (flushFrame g w) := by
  have hscan : Outcome (fun w' => w' = w) (fun _ => True)
      (w.activePlayerList.foldlM scanDead w) := by
    refine Outcome.foldlM (I := fun w' => w' = w) rfl fun w₁ p h _ => ?_
    subst h
    unfold scanDead
    apply outcome_deref_some.bind
    intro player hp
    rw [hdead p player hp]
    exact rfl
  unfold GameLogic.flushFrame
  apply hscan.bind
  intro w₁ h₁
  rw [h₁]
  refine Outcome.bind (P := fun w' => ∃ moving, w' = { w with movingPlayerList := moving }) ?_ ?_
  · unfold purgeMoving
    apply outcome_any.bind
    intro moving _
    exact ⟨_, rfl⟩
  · rintro _ ⟨moving, rfl⟩
    dsimp only
    rw [hqueue]
    exact ⟨(StaysFaithful.refl I).lists rfl rfl rfl rfl, rfl⟩

/-- A request for a player that is there would kill it. -/
theorem requestDestroyPlayer_alive {id : SessionId} (h : requestDestroyPlayer w id = .ok w')
    (halive : NoneDead w') : w' = w := by
  unfold requestDestroyPlayer at h
  split at h
  · cases h
    rfl
  · rename_i p _
    obtain ⟨player, hplayer, h⟩ := bind_eq_ok h
    cases h
    have hself := @modify_players_self w p fun player =>
      { player with isDead := true, isDestroyRequest := true }
    rw [Phases.deref_eq_ok.mp hplayer] at hself
    exact Bool.noConfusion (halive p _ hself)

/-! ## Runs -/

/-- The players of a world are among those of `w`, and its messages between those. -/
structure Within (w w' : World) : Prop where
  players : ∀ q other', w'.players q = some other' →
    ∃ other, w.players q = some other ∧ other'.names = other.names
  known : ∀ m ∈ w'.sent, Known w m

theorem Within.effects (h : Within w w₁) (he : Effects w₁ w') : Within w w' := by
  induction he with
  | refl => exact h
  | tail _ he ih =>
    have append {w₂ : World} {msgs : List Sending} (h₂ : Within w w₂)
        (hmsgs : ∀ m ∈ msgs, Known w₂ m) : ∀ m ∈ w₂.sent ++ msgs, Known w m := by
      intro m hm
      rcases List.mem_append.mp hm with hm | hm
      · exact h₂.known m hm
      · exact (hmsgs m hm).mono h₂.players
    cases he with
    | silent hs =>
      refine ⟨fun q other' hq => ?_, hs.sent ▸ ih.known⟩
      obtain ⟨other, hq, same⟩ := hs.players q other' hq
      obtain ⟨first, hfirst, hnames⟩ := ih.players q other hq
      exact ⟨first, hfirst, same.names.trans hnames⟩
    | tell hmsgs => exact ⟨ih.players, append ih fun m hm => (hmsgs m hm).known⟩
    | @strike q other attack msgs hq hmsgs _ =>
      have hknown := append ih fun m hm => (hmsgs m hm).1
      refine ⟨fun r third hr => ?_, hknown⟩
      by_cases hrq : r = q
      · subst hrq
        rw [send_players, modify_players_self, hq] at hr
        cases hr
        exact ih.players r other hq
      · rw [send_players, modify_players_ne hrq] at hr
        exact ih.players r third hr

/-- What a packet or a tick sends goes to players that are there, and names no others. -/
theorem known_call {a : Action} (h : step g w a = .ok w') (hknown : ∀ m ∈ w.sent, Known w m)
    (hnames : w'.read Player.names = w.read Player.names)
    (hcall : ∀ id p randX randY now registered,
      a ≠ .createNewPlayer id p randX randY now registered) : ∀ m ∈ w'.sent, Known w' m := by
  obtain ⟨w₁, hbegins, heffects⟩ := step_effects h
  have hwithin : Within w w₁ := by
    cases hbegins with
    | call => exact ⟨fun q other hq => ⟨other, hq, rfl⟩, hknown⟩
    | unregistered => exact absurd rfl (hcall _ _ _ _ _ _)
    | created => exact absurd rfl (hcall _ _ _ _ _ _)
    | @answered ipi locals now p player hp _ =>
      refine ⟨fun q other hq => ?_, fun m hm => ?_⟩
      · have hread : (received w p now).read Player.names = w.read Player.names :=
          read_modify fun _ => rfl
        have hq := (congrFun hread q).symm.trans (read_eq_some hq)
        obtain ⟨first, hfirst, hnames⟩ := players_of_read hq
        exact ⟨first, hfirst, hnames.symm⟩
      · rcases List.mem_append.mp hm with hm | hm
        · exact hknown m hm
        · rw [List.mem_singleton.mp hm]
          exact ⟨⟨p, player, hp.2.1, rfl⟩, fun id hid => absurd hid List.not_mem_nil⟩
  intro m hm
  refine ((hwithin.effects heffects).known m hm).mono fun q other hq => ?_
  obtain ⟨third, hthird, heq⟩ := players_of_read ((congrFun hnames q).trans (read_eq_some hq))
  exact ⟨third, hthird, heq.symm⟩

/-- What every world of these runs is like. -/
structure Watched (g : Grid) (w : World) : Prop where
  alive : NoneDead w
  queue : w.destroyPlayerRequestQueue = []
  known : ∀ m ∈ w.sent, Known w m
  pictures : Portrayed g w (UpToDate w)

theorem Watched.init (uniqueCharacterId : UInt32) :
    Watched g (GameLogic.init uniqueCharacterId) where
  alive := nofun
  queue := rfl
  known := nofun
  pictures := by
    refine ⟨Placed.init uniqueCharacterId, fun _ _ _ _ _ _ _ h => ?_, fun _ _ _ _ _ _ h => ?_⟩
    · cases h
    · cases h

/-- **Every call keeps the pictures**, if nobody is dead behind it. -/
theorem Watched.step {a : Action} (h : Watched g w) (hok : SameTile g w a)
    (hstep : ViewStep g w a w') : Watched g w' := by
  obtain ⟨hstep, halive⟩ := hstep
  have queue (ha : Phases.IsLogic a) : w'.destroyPlayerRequestQueue = [] := by
    rcases Phases.steady_or_created ha hstep with hsteady | ⟨_, _, _, _, _, _, hcreated⟩
    · exact hsteady.queue.trans h.queue
    · exact hcreated.queue.trans h.queue
  cases a with
  | createNewPlayer id p randX randY now registered =>
    obtain ⟨I, hknown⟩ := (h.pictures.createNewPlayer h.alive h.known).of_ok hstep
    exact ⟨halive, queue trivial, hknown, I⟩
  | packet ipi locals now =>
    have stays := (h.pictures.processPacket h.alive hok).of_ok hstep
    exact ⟨halive, queue trivial, known_call hstep h.known stays.names nofun, stays.pictures⟩
  | updateGameWorld timer =>
    have stays := (h.pictures.updateGameWorld h.alive).of_ok hstep halive
    exact ⟨halive, queue trivial, known_call hstep h.known stays.names nofun, stays.pictures⟩
  | flushFrame =>
    obtain ⟨stays, hqueue⟩ := (h.pictures.flushFrame h.alive h.queue).of_ok hstep
    exact ⟨halive, hqueue, known_call hstep h.known stays.names nofun, stays.pictures⟩
  | requestDestroyPlayer id =>
    obtain rfl := requestDestroyPlayer_alive hstep halive
    exact h

/-- **What the clients see.**  In every run of the logic thread and the destroy thread in which
nobody dies and the attacks stay in their tile, and for any two players whose names are nobody
else's: the session of the one has a picture of the other exactly if the other's sector is one of
the up to nine around its own, and the picture has the other's `direction`, `isMoving` and `hp`, and
its position but for the ticks of its movement. -/
theorem run_faithful {uniqueCharacterId : UInt32} {as : List Action}
    (hr : Run (ViewStep g) (SameTile g) (init uniqueCharacterId) as w) : Faithful g w :=
  (hr.invariant (I := Watched g) (Watched.init uniqueCharacterId)
    fun _ _ _ h hok hstep => h.step hok hstep).pictures.faithful

/-- Two players two tiles apart; the first walks into the tile between and on, and the second has it
where it entered. -/
theorem run_faithful_walk :
    ∃ w, Run (ViewStep .appending) (SameTile .appending) (init 0)
        [.createNewPlayer ⟨0, 1⟩ 1 126 0 0 true, .createNewPlayer ⟨1, 2⟩ 2 300 0 0 true,
          .packet ⟨⟨0, 1⟩, .ofBytes [4, 130, 0, 1, 0], 10⟩ ⟨0, 0, 0, 0⟩ 0,
          .updateGameWorld 0, .flushFrame] w ∧
      w.read Player.picture 1 = some ⟨4, true, 136, 1, 100⟩ ∧
      pictureOf ⟨1, 2⟩ 1 w.sent = some ⟨4, true, 130, 1, 100⟩ ∧ Faithful .appending w := by
  obtain ⟨w, hrun, hnow, hshown⟩ : ∃ w, Run (ViewStep .appending) (SameTile .appending) (init 0)
        [.createNewPlayer ⟨0, 1⟩ 1 126 0 0 true, .createNewPlayer ⟨1, 2⟩ 2 300 0 0 true,
          .packet ⟨⟨0, 1⟩, .ofBytes [4, 130, 0, 1, 0], 10⟩ ⟨0, 0, 0, 0⟩ 0,
          .updateGameWorld 0, .flushFrame] w ∧
      w.read Player.picture 1 = some ⟨4, true, 136, 1, 100⟩ ∧
      pictureOf ⟨1, 2⟩ 1 w.sent = some ⟨4, true, 130, 1, 100⟩ := by
    refine ⟨_, .cons ⟨rfl, ?_⟩ trivial <| .cons ⟨rfl, ?_⟩ trivial <|
      .cons ⟨rfl, ?_⟩ ?_ <| .cons ⟨rfl, ?_⟩ trivial <| .cons ⟨rfl, ?_⟩ trivial .nil, rfl, rfl⟩
    · rintro (_ | _ | _ | p) player hp <;> cases hp
      rfl
    · rintro (_ | _ | _ | p) player hp <;> cases hp <;> rfl
    · rintro (_ | _ | _ | p) player hp <;> cases hp <;> rfl
    · rintro p player - (h | h | h)
      all_goals cases h
    · rintro (_ | _ | _ | p) player hp <;> cases hp <;> rfl
    · rintro (_ | _ | _ | p) player hp <;> cases hp <;> rfl
  exact ⟨w, hrun, hnow, hshown, run_faithful hrun⟩

end GameLogic

end IocpServer
