import IocpServer.GameLogic.HandlerStores
import IocpServer.Lib.Run

/-!
# Packets of the dead

`UpdateGameWorld` sets `isDead`; `FlushFrame` removes the player some frames later.  In between
`ProcessPackets` still hands on its packets, and no handler looks at `isDead`.

* `dying` — the players `UpdateGameWorld` marks; `updateGameWorld_isDead` — it marks these.
* `Inert` — a packet without effect; `Harmless` — the condition on the packet.
* `inert_iff` — **a packet has no effect exactly if it meets the condition.**
* `run_terminal_iff` — so do, in a run, all packets of the players that were marked.
-/

set_option autoImplicit false

namespace IocpServer

open Lib

namespace GameLogic

/-! ## Marking -/

/-- The test of `UpdateGameWorld`. -/
def expired (timer : Int32) (player : Player) : Bool :=
  decide ((timer > player.lastRecvTime ∧
    timer > player.lastRecvTime + dfNetworkPacketRecvTimeout) ∨ player.hp = 0)

/-- The players the first loop of `UpdateGameWorld` looks at. -/
def checkedPlayers (w : World) : List Nat :=
  (List.range (min chunkSize w.activePlayerList.length)).map fun i =>
    w.activePlayerList.getD ((w.aliveCheckCursor + i) % w.activePlayerList.length) 0

/-- The players it marks. -/
def dying (w : World) (timer : Int32) : List Nat :=
  (checkedPlayers w).filter fun p => ((w.players p).map (expired timer)).getD false

/-- The ids of the players a call of `UpdateGameWorld` marks. -/
def marks (w : World) : Action → List PlayerId
  | .updateGameWorld timer => (dying w timer).filterMap (w.read Player.playerId)
  | _ => []

/-! ## Packets -/

/-- The packet of the player at `p` changes neither its position nor its direction, nor
`movingPlayerList`, nor anybody else's `hp`. -/
structure Inert (w : World) (p : Nat) (player : Player) (w' : World) : Prop where
  pos : w'.read Player.pos p = some player.pos
  direction : w'.read Player.direction p = some player.direction
  moving : w'.movingPlayerList = w.movingPlayerList
  others : ∀ q, q ≠ p → w'.read Player.hp q = w.read Player.hp q

/-- The condition: a `CS_MOVE_START` finds `isMoving` set, every movement packet stores the position
and the direction the player has, and an attack finds nobody, the player itself, or somebody without
`hp`. -/
structure Harmless (g : Grid) (w : World) (ipi : IncomingPacketInfo) (locals : Locals) (p : Nat)
    (player : Player) : Prop where
  start : ipi.packetType = dfPacketCsMoveStart → player.isMoving = true ∧
    startPosition player (readMove ipi.packetBuffer locals) = player.pos
  stop : IsStop ipi.packetType →
    stopPosition player (readMove ipi.packetBuffer locals) = player.pos
  direction : ipi.packetType = dfPacketCsMoveStart ∨ IsStop ipi.packetType →
    (readMove ipi.packetBuffer locals).direction = player.direction
  attack : ∀ attack q other, ipi.packetType = attack.packetType →
    target g w p player attack = some q → q ≠ p → w.players q = some other → other.hp = 0

variable {g : Grid} {w w₁ w' : World} {p q : Nat} {player player' other : Player}
  {ipi : IncomingPacketInfo} {locals : Locals} {now timer : Int32} {move : CSMoveInfo}
  {attack : AttackType} {t : Option Nat}

/-- What an `Inert` packet may not change in a player. -/
structure Traits where
  pos : Pos
  direction : UInt8
  hp : UInt8

def Player.traits (player : Player) : Traits := ⟨player.pos, player.direction, player.hp⟩

/-- Nobody's position, direction or `hp` changes, nor `movingPlayerList`. -/
structure SameTraits (w w' : World) : Prop where
  traits : w'.read Player.traits = w.read Player.traits
  moving : w'.movingPlayerList = w.movingPlayerList

theorem SameTraits.refl : SameTraits w w := ⟨rfl, rfl⟩

theorem SameTraits.checkSector {prevX prevY : UInt16} (h : SameTraits w w') :
    Outcome (SameTraits w) (fun _ => True) (checkSector g w' p prevX prevY) := by
  refine outcome_checkSector_moved h fun prev curr msgs => ⟨?_, h.moving⟩
  show ((w'.leave p prev).enter g p curr).read Player.traits = _
  rw [read_enter fun _ _ => rfl, read_leave fun _ _ => rfl, h.traits]

theorem SameTraits.broadcast {message : UInt32 → UInt8 → UInt16 → UInt16 → ScMessage}
    (h : SameTraits w w') :
    Outcome (SameTraits w) (fun _ => True) (broadcast g w' p message) := by
  refine outcome_broadcast.weaken ?_ fun _ h => h
  rintro w₂ ⟨msgs, rfl⟩
  exact ⟨h.traits, h.moving⟩

theorem SameTraits.pos (h : SameTraits w w') : w'.read Player.pos = w.read Player.pos := by
  funext q
  have hread := congrArg (Option.map Traits.pos) (congrFun h.traits q)
  simp only [World.read, Option.map_map] at hread
  exact hread

theorem SameTraits.direction (h : SameTraits w w') :
    w'.read Player.direction = w.read Player.direction := by
  funext q
  have hread := congrArg (Option.map Traits.direction) (congrFun h.traits q)
  simp only [World.read, Option.map_map] at hread
  exact hread

theorem SameTraits.hp (h : SameTraits w w') : w'.read Player.hp = w.read Player.hp := by
  funext q
  have hread := congrArg (Option.map Traits.hp) (congrFun h.traits q)
  simp only [World.read, Option.map_map] at hread
  exact hread

/-- A handler has stored `moved` in the player at `p`. -/
structure Wrote (w : World) (p : Nat) (moved : Player) (w₁ : World) : Prop where
  self : w₁.players p = some moved
  other : ∀ q, q ≠ p → w₁.players q = w.players q

/-- What it stored is what was there, and `movingPlayerList` is as it was. -/
def Unmoved (w : World) (player moved : Player) (w₁ : World) : Prop :=
  moved.pos = player.pos ∧ moved.direction = player.direction ∧
    w₁.movingPlayerList = w.movingPlayerList

variable {moved : Player}

theorem Wrote.send (msgs : List Sending) (h : Wrote w p moved w₁) : Wrote w p moved (w₁.send msgs) :=
  ⟨h.self, h.other⟩

/-- Behind the store nothing happens but messages and a change of sector. -/
theorem Wrote.inert_iff (h : Wrote w p moved w₁) (h' : SameTraits w₁ w') :
    Inert w p player w' ↔ Unmoved w player moved w₁ := by
  have hpos : w'.read Player.pos p = some moved.pos := by
    rw [h'.pos]
    exact read_eq_some h.self
  have hdirection : w'.read Player.direction p = some moved.direction := by
    rw [h'.direction]
    exact read_eq_some h.self
  constructor
  · intro hi
    exact ⟨Option.some.inj (hpos.symm.trans hi.pos),
      Option.some.inj (hdirection.symm.trans hi.direction), h'.moving.symm.trans hi.moving⟩
  · rintro ⟨hp, hd, hm⟩
    refine ⟨hpos.trans (congrArg some hp), hdirection.trans (congrArg some hd), h'.moving.trans hm,
      fun q hq => ?_⟩
    rw [h'.hp, World.read, h.other q hq]
    rfl

theorem wounded_hp_eq : (wounded attack other).hp = other.hp ↔ other.hp = 0 := by
  have hp := @wounded_hp other attack
  have hdamage : 0 < attack.damage.toNat := by cases attack <;> decide
  rw [← UInt8.toNat_inj, ← UInt8.toNat_inj]
  simp only [UInt8.toNat_zero]
  omega

/-- Behind the store somebody is hit. -/
theorem Wrote.inert_struck (h : Wrote w p moved w₁) (h' : Struck w₁ attack t w') :
    Inert w p player w' ↔ Unmoved w player moved w₁ ∧
      ∀ q other, t = some q → q ≠ p → w.players q = some other → other.hp = 0 := by
  cases h' with
  | miss =>
    rw [h.inert_iff SameTraits.refl]
    exact ⟨fun hu => ⟨hu, fun _ _ hq => by cases hq⟩, And.left⟩
  | @hit q msgs =>
    have hpos : (w₁.modify q (wounded attack)).read Player.pos p = some moved.pos := by
      rw [read_modify (f := wounded attack) fun _ => rfl]
      exact read_eq_some h.self
    have hdirection : (w₁.modify q (wounded attack)).read Player.direction p =
        some moved.direction := by
      rw [read_modify (f := wounded attack) fun _ => rfl]
      exact read_eq_some h.self
    constructor
    · intro hi
      refine ⟨⟨Option.some.inj (hpos.symm.trans hi.pos),
        Option.some.inj (hdirection.symm.trans hi.direction), hi.moving⟩, ?_⟩
      rintro _ other ⟨⟩ hq hother
      have hhp := hi.others q hq
      rw [read_eq_some hother, World.read, send_players, modify_players_self, h.other q hq,
        hother] at hhp
      exact wounded_hp_eq.mp (Option.some.inj hhp)
    · rintro ⟨⟨hp, hd, hm⟩, hzero⟩
      refine ⟨hpos.trans (congrArg some hp), hdirection.trans (congrArg some hd), hm,
        fun r hr => ?_⟩
      rw [World.read, send_players, World.read]
      by_cases hrq : r = q
      · subst hrq
        rw [modify_players_self, h.other r hr]
        cases hother : w.players r with
        | none => rfl
        | some other => exact congrArg some (wounded_hp_eq.mpr (hzero r other rfl hr hother))
      · rw [modify_players_ne hrq, h.other r hr]

/-- The search depends on places only, and on the attacker's `faceDirection`. -/
theorem Wrote.target_eq (h : Wrote w p moved w₁) (hp : w.players p = some player)
    (hpos : moved.pos = player.pos) (hface : moved.faceDirection = player.faceDirection)
    (hcurrent : moved.currentSector = player.currentSector) (hsectors : w₁.sectors = w.sectors) :
    target g w₁ p moved attack = target g w p player attack := by
  have hx : moved.x = player.x := congrArg Prod.fst hpos
  have hy : moved.y = player.y := congrArg Prod.snd hpos
  have hreaches : ∀ left, reaches w₁ attack left moved = reaches w attack left player := by
    intro left
    funext q
    have hbox : ∀ a b : Player, a.pos = b.pos →
        inAttackRange attack left moved a = inAttackRange attack left player b := by
      intro a b hab
      have hax : a.x = b.x := congrArg Prod.fst hab
      have hay : a.y = b.y := congrArg Prod.snd hab
      simp only [inAttackRange, hx, hy, hax, hay]
    unfold reaches
    by_cases hq : q = p
    · subst hq
      rw [h.self, hp]
      exact hbox _ _ hpos
    · rw [h.other q hq]
      cases w.players q with
      | none => rfl
      | some other => exact hbox _ _ rfl
  simp only [target, hface, hcurrent, searched, hsectors, playersAhead, frontSector, hx, hy, hreaches]

theorem wrote_startStored (hp : w.players p = some player) :
    Wrote w p (started { player with lastRecvTime := now } move)
      (startStored (received w p now) p { player with lastRecvTime := now } move) :=
  ⟨startStored_self (received_self hp), fun _ hq => (startStored_ne hq).trans (received_ne hq)⟩

theorem wrote_stopStored (hp : w.players p = some player) :
    Wrote w p (stop { player with lastRecvTime := now } move)
      (stopStored (received w p now) p { player with lastRecvTime := now } move) :=
  ⟨stopStored_self (received_self hp), fun _ hq => (stopStored_ne hq).trans (received_ne hq)⟩

/-! ## The marks -/

def died (player : Player) : Player := { player with isDead := true, isMoving := false }

theorem checkAlive_eq (hp : w.players p = some player) : checkAlive timer w p =
    .ok (if expired timer player then w.modify p died else w) := by
  unfold checkAlive expired
  rw [deref_ok hp]
  show (if _ then _ else _) = _
  simp only [decide_eq_true_iff]
  split <;> rfl

/-- What the first loop has made of the player at `q` once it has looked at those in `seen`. -/
def marked (timer : Int32) (seen : List Nat) (q : Nat) (player : Player) : Player :=
  if q ∈ seen ∧ expired timer player = true then died player else player

theorem marked_nil : (w.players q).map (marked timer [] q) = w.players q := by
  have hid : marked timer [] q = id := by
    funext player
    simp [marked]
  rw [hid, Option.map_id, id]

theorem expired_marked {seen : List Nat} :
    expired timer (marked timer seen q player) = expired timer player := by
  unfold marked
  split <;> rfl

/-- One more player is looked at. -/
theorem marked_append {seen : List Nat} : marked timer (seen ++ [p]) q player =
    if q = p ∧ expired timer player = true then died (marked timer seen q player)
    else marked timer seen q player := by
  unfold marked
  by_cases hq : q = p
  · by_cases he : expired timer player = true
    · simp only [hq, he, List.mem_append, List.mem_singleton, or_true, and_self, if_true, and_true]
      split <;> rfl
    · simp only [he, and_false, if_false, Bool.false_eq_true]
  · simp only [hq, List.mem_append, List.mem_singleton, or_false, false_and, if_false]

/-- The first loop of `UpdateGameWorld` has looked at the players in `seen`. -/
structure Checked (w : World) (timer : Int32) (seen : List Nat) (w₁ : World) : Prop where
  active : w₁.activePlayerList = w.activePlayerList
  cursor : w₁.aliveCheckCursor = w.aliveCheckCursor
  players : ∀ q, w₁.players q = (w.players q).map (marked timer seen q)

theorem Checked.step {seen : List Nat} (h : Checked w timer seen w₁) (p : Nat) :
    Outcome (Checked w timer (seen ++ [p])) (fun _ => True) (checkAlive timer w₁ p) := by
  have hp₁ := h.players p
  cases hp : w.players p with
  | none =>
    unfold checkAlive
    rw [deref_none (by rw [hp₁, hp]; rfl)]
    trivial
  | some player =>
    rw [hp] at hp₁
    rw [checkAlive_eq hp₁, expired_marked]
    have hothers : ∀ q, q ≠ p → w₁.players q = (w.players q).map (marked timer (seen ++ [p]) q) := by
      intro q hq
      rw [h.players]
      congr 1
      funext other
      rw [marked_append, if_neg fun hc => hq hc.1]
    cases he : expired timer player with
    | true =>
      refine ⟨h.active, h.cursor, fun q => ?_⟩
      by_cases hq : q = p
      · subst hq
        show (w₁.modify q died).players q = _
        rw [modify_players_self, hp₁, hp]
        show some _ = some _
        rw [marked_append, if_pos ⟨rfl, he⟩]
      · exact (modify_players_ne hq).trans (hothers q hq)
    | false =>
      refine ⟨h.active, h.cursor, fun q => ?_⟩
      by_cases hq : q = p
      · subst hq
        show w₁.players q = _
        rw [hp₁, hp]
        show some _ = some _
        rw [marked_append, if_neg (by simp [he])]
      · exact hothers q hq

theorem isDead_checkSector {prevX prevY : UInt16}
    (h : w'.read Player.isDead = w.read Player.isDead) :
    Outcome (fun w' => w'.read Player.isDead = w.read Player.isDead) (fun _ => True)
      (checkSector g w' p prevX prevY) := by
  refine outcome_checkSector_moved h fun prev curr msgs => ?_
  show ((w'.leave p prev).enter g p curr).read Player.isDead = _
  rw [read_enter fun _ _ => rfl, read_leave fun _ _ => rfl, h]

/-- **`UpdateGameWorld` sets `isDead` of the players in `dying`**, and of nobody else. -/
theorem updateGameWorld_isDead (h : updateGameWorld g w timer = .ok w')
    (hp : w.players p = some player) :
    w'.read Player.isDead p = some (player.isDead || decide (p ∈ dying w timer)) := by
  obtain ⟨w₁, hchecked, h⟩ := bind_eq_ok h
  have hfirst : Checked w timer (checkedPlayers w) w₁ := by
    refine Outcome.of_ok (E := fun _ => True) (Outcome.foldlM_done
      (J := fun done w₁ => Checked w timer (done.map fun i =>
        w.activePlayerList.getD ((w.aliveCheckCursor + i) % w.activePlayerList.length) 0) w₁)
      ⟨rfl, rfl, fun _ => marked_nil.symm⟩ fun done w₁ i hc => ?_) hchecked
    rw [List.map_append, List.map_singleton, hc.active, hc.cursor]
    exact hc.step _
  obtain ⟨s, hmoved, h⟩ := bind_eq_ok h
  have hsecond : s.1.read Player.isDead = w₁.read Player.isDead := by
    refine Outcome.of_ok (P := fun s : World × Nat => s.1.read Player.isDead =
      w₁.read Player.isDead) (E := fun _ => True) (Outcome.foldlM ?_ fun s i hs _ => ?_) hmoved
    · dsimp only
      split <;> rfl
    · refine outcome_moveEntry (P := fun w' => w'.read Player.isDead = w₁.read Player.isDead)
        (fun _ _ => trivial) hs fun p => ?_
      unfold movePlayer
      apply outcome_any.bind
      intro player _
      refine isDead_checkSector (Eq.trans (read_modify ?_) hs)
      exact fun _ => rfl
  have hlast : w'.read Player.isDead = s.1.read Player.isDead := by
    cases h
    split <;> rfl
  rw [hlast, hsecond, World.read, hfirst.players, hp]
  have hmem : p ∈ dying w timer ↔ p ∈ checkedPlayers w ∧ expired timer player = true := by
    rw [dying, List.mem_filter, hp]
    rfl
  show some (marked timer (checkedPlayers w) p player).isDead = _
  unfold marked
  split
  · rename_i hc
    simp [hmem.mpr hc, died]
  · rename_i hc
    have hnot : p ∉ dying w timer := fun hd => hc (hmem.mp hd)
    simp [hnot]

/-! ## The condition -/

theorem AttackType.packetType_injective {attack' : AttackType}
    (h : attack.packetType = attack'.packetType) : attack = attack' := by
  cases attack <;> cases attack' <;> first | rfl | exact absurd h (by decide)

theorem harmless_start (htype : ipi.packetType = dfPacketCsMoveStart) :
    Unmoved w player
        (started { player with lastRecvTime := now } (readMove ipi.packetBuffer locals))
        (startStored (received w p now) p { player with lastRecvTime := now }
          (readMove ipi.packetBuffer locals)) ↔
      Harmless g w ipi locals p player := by
  have hlist : (if player.isMoving then w.movingPlayerList else w.movingPlayerList ++ [p]) =
      w.movingPlayerList ↔ player.isMoving = true := by
    split
    · simp_all
    · simp_all
  constructor
  · rintro ⟨hpos, hdirection, hmoving⟩
    refine ⟨fun _ => ⟨hlist.mp hmoving, hpos⟩, fun hstop => ?_, fun _ => hdirection,
      fun attack _ _ hattack => ?_⟩
    · rw [htype] at hstop
      exact absurd hstop not_isStop_start
    · rw [htype] at hattack
      exact absurd (hattack ▸ isStop_attack) not_isStop_start
  · intro h
    obtain ⟨hmoving, hpos⟩ := h.start htype
    exact ⟨hpos, h.direction (Or.inl htype), hlist.mpr hmoving⟩

theorem harmless_stop (hstop : IsStop ipi.packetType) :
    (Unmoved w player (stop { player with lastRecvTime := now } (readMove ipi.packetBuffer locals))
        (stopStored (received w p now) p { player with lastRecvTime := now }
          (readMove ipi.packetBuffer locals)) ∧
      ∀ attack q other, ipi.packetType = attack.packetType →
        target g w p player attack = some q → q ≠ p → w.players q = some other → other.hp = 0) ↔
      Harmless g w ipi locals p player := by
  constructor
  · rintro ⟨⟨hpos, hdirection, -⟩, hattack⟩
    refine ⟨fun hstart => ?_, fun _ => hpos, fun _ => hdirection, hattack⟩
    rw [hstart] at hstop
    exact absurd hstop not_isStop_start
  · intro h
    exact ⟨⟨h.stop hstop, h.direction (Or.inr hstop), rfl⟩, h.attack⟩

/-- **A packet has no effect exactly if it is harmless.** -/
theorem inert_iff (hp : Addressed w ipi p player)
    (h : step g w (.packet ipi locals now) = .ok w') :
    Inert w p player w' ↔ Harmless g w ipi locals p player := by
  have hself := @received_self w p player now hp.2.1
  have honly : ∀ {q other}, Addressed w ipi q other → q = p ∧ other = player := by
    intro q other hq
    cases hp.1.symm.trans hq.1
    cases hp.2.1.symm.trans hq.2.1
    exact ⟨rfl, rfl⟩
  have hquiet : ipi.packetType ≠ dfPacketCsMoveStart → ¬IsStop ipi.packetType →
      ∀ {w'}, SameTraits w w' → (Inert w p player w' ↔ Harmless g w ipi locals p player) := by
    intro hstart hstop w' hsame
    have hwrote : Wrote w p player w := ⟨hp.2.1, fun _ _ => rfl⟩
    rw [hwrote.inert_iff hsame]
    refine ⟨fun _ => ⟨fun h => absurd h hstart, fun h => absurd h hstop, fun h => ?_,
      fun attack _ _ h => ?_⟩, fun _ => ⟨rfl, rfl, rfl⟩⟩
    · exact (h.elim hstart hstop).elim
    · rw [h] at hstop
      exact absurd isStop_attack hstop
  have hreceived : SameTraits w (received w p now) := ⟨read_modify fun _ => rfl, rfl⟩
  refine Outcome.of_ok (P := fun w' => Inert w p player w' ↔ Harmless g w ipi locals p player)
    (E := fun _ => True) ?_ h
  refine outcome_packet trivial (fun hnone => absurd hp (hnone p player)) (fun q other hq htype => ?_)
    (fun q other hq htype => ?_) (fun attack q other hq htype => ?_) (fun q other hq htype => ?_)
    (fun q other hq hstart hstop => ?_)
  all_goals obtain ⟨rfl, rfl⟩ := honly hq
  · rw [packetProcMoveStart_eq hself]
    apply SameTraits.refl.checkSector.bind
    intro w₂ hsame
    refine hsame.broadcast.weaken (fun w' hsame => ?_) fun _ h => h
    exact ((wrote_startStored hp.2.1).inert_iff hsame).trans (harmless_start htype)
  · rw [packetProcMoveStop_eq hself]
    apply SameTraits.refl.checkSector.bind
    intro w₂ hsame
    refine hsame.broadcast.weaken (fun w' hsame => ?_) fun _ h => h
    rw [(wrote_stopStored hp.2.1).inert_iff hsame, ← harmless_stop (Or.inl htype)]
    refine (and_iff_left ?_).symm
    intro attack _ _ hattack
    rw [htype] at hattack
    cases attack <;> exact absurd hattack (by decide)
  · rw [packetProcAttack_eq hself]
    apply outcome_broadcast.bind
    rintro w₁ ⟨msgs, rfl⟩
    have hwrote := (@wrote_stopStored w q other now (readMove ipi.packetBuffer locals)
      hp.2.1).send msgs
    refine (outcome_checkDamagedPlayer hwrote.self).weaken (fun w' hstruck => ?_) fun _ h => h
    rw [hwrote.inert_struck hstruck, ← harmless_stop (htype ▸ isStop_attack)]
    refine and_congr_right fun hunmoved => ?_
    rw [hwrote.target_eq hp.2.1 hunmoved.1 rfl rfl rfl]
    constructor
    · intro hzero attack' r third hattack
      obtain rfl := AttackType.packetType_injective (htype.symm.trans hattack)
      exact hzero r third
    · intro hzero r third
      exact hzero attack r third htype
  · rw [packetProcEcho_eq hself]
    refine hquiet ?_ ?_ ⟨hreceived.traits, hreceived.moving⟩
    · rw [htype]; decide
    · rw [htype]; unfold IsStop; decide
  · exact hquiet hstart hstop hreceived

/-! ## Runs -/

/-- The promise: once `UpdateGameWorld` has marked a player, its packets have no effect. -/
def Terminal (g : Grid) (x : World × List PlayerId) : Action → Prop
  | .packet ipi locals now => ipi.playerId ∈ x.2 → ∀ p player w', Addressed x.1 ipi p player →
    step g x.1 (.packet ipi locals now) = .ok w' → Inert x.1 p player w'
  | _ => True

/-- The condition on the packets of marked players. -/
def HarmlessStep (g : Grid) (x : World × List PlayerId) : Action → Prop
  | .packet ipi locals _ => ipi.playerId ∈ x.2 → ∀ p player, Addressed x.1 ipi p player →
    Harmless g x.1 ipi locals p player
  | _ => True

/-- **Death is terminal exactly if the packets of the dead are harmless.**  The log holds the ids of
the players `UpdateGameWorld` has marked. -/
theorem run_terminal_iff {uniqueCharacterId : UInt32} {as : List Action}
    {y : World × List PlayerId} :
    Run (logged (fun w a w' => step g w a = .ok w') marks) (Terminal g)
        (init uniqueCharacterId, []) as y ↔
      Run (logged (fun w a w' => step g w a = .ok w') marks) (HarmlessStep g)
        (init uniqueCharacterId, []) as y := by
  refine run_congr fun x a z hstep => ?_
  cases a with
  | packet ipi locals now =>
    refine forall_congr' fun _ => forall_congr' fun p => forall_congr' fun player => ?_
    constructor
    · intro h hp
      exact (inert_iff hp hstep.1).mp (h z.1 hp hstep.1)
    · intro h w' hp hstep'
      exact (inert_iff hp hstep').mpr (h hp)
  | _ => exact Iff.rfl

/-- A player that has timed out starts to move. -/
theorem dead_player_moves :
    ∃ y player w', Run (logged (fun w a w' => step .appending w a = .ok w') marks) anyStep
        (init 0, []) [.createNewPlayer ⟨0, 1⟩ 1 99 99 0 true, .updateGameWorld 40000] y ∧
      y.2 = [⟨0, 1⟩] ∧ y.1.read Player.isDead 1 = some true ∧
      Addressed y.1 ⟨⟨0, 1⟩, .ofBytes [0, 110, 0, 100, 0], 10⟩ 1 player ∧
      step .appending y.1 (.packet ⟨⟨0, 1⟩, .ofBytes [0, 110, 0, 100, 0], 10⟩ ⟨0, 0, 0, 0⟩ 0) =
        .ok w' ∧
      w'.read Player.pos 1 = some (110, 100) ∧ w'.movingPlayerList = [1] ∧
      ¬Terminal .appending y (.packet ⟨⟨0, 1⟩, .ofBytes [0, 110, 0, 100, 0], 10⟩ ⟨0, 0, 0, 0⟩ 0) := by
  refine ⟨_, _, _, .consLogged rfl trivial (.consLogged rfl trivial .nil), rfl, rfl, ⟨rfl, rfl, rfl⟩,
    rfl, rfl, rfl, ?_⟩
  intro hterminal
  have hinert := hterminal List.mem_cons_self 1 _ _ ⟨rfl, rfl, rfl⟩ rfl
  exact absurd hinert.moving (by decide)

end GameLogic

end IocpServer
