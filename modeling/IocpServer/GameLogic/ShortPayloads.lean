import IocpServer.GameLogic.HandlerStores

/-!
# Handlers and short payloads

`operator>>` leaves its target alone when the packet holds too few bytes, and no handler looks at
`errorFlag`: what the stack left in its locals is then used as direction, position or time.

* `unread` — the bytes a handler finds; `readMove_all`, `readMove_x`, `readMove_none` — what it reads
  from them.
* `Enough` — the condition: the bytes are there, or only `y` is missing and the packet is rejected
  for its `x`.
* `localsIrrelevant_iff` — **a handler's result does not depend on its locals exactly then.**
-/

set_option autoImplicit false

namespace IocpServer

open Lib

/-- The number of bytes between the cursors. -/
def CPacket.unread (p : CPacket) : Nat := p.writePos.toNat - p.readPos.toNat

namespace GameLogic

/-- Any two choices of the locals lead to the same result. -/
def LocalsIrrelevant (g : Grid) (w : World) (p : Nat) (packetType : UInt8)
    (packetBuffer : CPacket) : Prop :=
  ∀ locals locals', dispatch g w p packetType packetBuffer locals =
    dispatch g w p packetType packetBuffer locals'

/-- The `x` of the packet, where it has one, is further than `dfERROR_RANGE` from the player's. -/
def xTooFar (player : Player) (packetBuffer : CPacket) : Prop :=
  dfErrorRange <
    ((player.x.toNat : Int) - (readMove packetBuffer ⟨0, 0, 0, 0⟩).x.toNat).natAbs

/-- The handler of the type checks the position against the player's. -/
def checksPosition (player : Player) (packetType : UInt8) : Prop :=
  packetType = dfPacketCsMoveStart ∨ player.isSynced = false

/-- The condition on the packet and the player. -/
def Enough (player : Player) (packetType : UInt8) (packetBuffer : CPacket) : Prop :=
  if packetType = dfPacketCsEcho then 4 ≤ packetBuffer.unread
  else 5 ≤ packetBuffer.unread ∨
    (3 ≤ packetBuffer.unread ∧ xTooFar player packetBuffer ∧ checksPosition player packetType)

variable {g : Grid} {w w₀ : World} {p : Nat} {player : Player} {packetBuffer : CPacket}
  {locals locals' : Locals} {packetType : UInt8} {move move' : CSMoveInfo}

/-! ## Reading -/

section

variable {c : CPacket} {width t t' : Nat}

theorem extract_short (h : c.unread < width) :
    (c.extract width t).1 = t ∧ (c.extract width t).2.unread = c.unread := by
  have hshort : c.readPos.toNat + width > c.writePos.toNat := by
    unfold CPacket.unread at h
    omega
  rw [CPacket.extract_of_short t hshort]
  exact ⟨rfl, rfl⟩

theorem extract_fits (hwidth : 0 < width) (h : width ≤ c.unread) :
    c.extract width t = c.extract width t' ∧
      (c.extract width t).2.unread = c.unread - width := by
  have hfits : ¬c.readPos.toNat + width > c.writePos.toNat := by
    unfold CPacket.unread at h
    omega
  unfold CPacket.extract
  rw [if_neg hfits, if_neg hfits]
  refine ⟨rfl, ?_⟩
  have hlt := c.writePos.toNat_lt
  unfold CPacket.unread at h ⊢
  dsimp only
  rw [UInt32.toNat_add, UInt32.toNat_ofNat', Nat.mod_eq_of_lt (show width < 2 ^ 32 by omega),
    Nat.mod_eq_of_lt (by omega)]
  omega

theorem extractUInt8_fits (h : 1 ≤ c.unread) (v v' : UInt8) :
    c.extractUInt8 v = c.extractUInt8 v' ∧ (c.extractUInt8 v).2.unread = c.unread - 1 := by
  obtain ⟨heq, hunread⟩ := @extract_fits c 1 v.toNat v'.toNat (by omega) h
  exact ⟨congrArg (fun r => (UInt8.ofNat r.1, r.2)) heq, hunread⟩

theorem extractUInt8_unread (v : UInt8) : (c.extractUInt8 v).2.unread = c.unread - 1 := by
  by_cases h : 1 ≤ c.unread
  · exact (extractUInt8_fits h v v).2
  · have hunread := (@extract_short c 1 v.toNat (by omega)).2
    have hzero : c.unread - 1 = c.unread := by omega
    exact hunread.trans hzero.symm

theorem extractUInt16_fits (h : 2 ≤ c.unread) (v v' : UInt16) :
    c.extractUInt16 v = c.extractUInt16 v' ∧ (c.extractUInt16 v).2.unread = c.unread - 2 := by
  obtain ⟨heq, hunread⟩ := @extract_fits c 2 v.toNat v'.toNat (by omega) h
  exact ⟨congrArg (fun r => (UInt16.ofNat r.1, r.2)) heq, hunread⟩

theorem extractUInt16_short (h : c.unread < 2) (v : UInt16) :
    (c.extractUInt16 v).1 = v ∧ (c.extractUInt16 v).2.unread = c.unread := by
  obtain ⟨htarget, hunread⟩ := @extract_short c 2 v.toNat h
  refine ⟨?_, hunread⟩
  show UInt16.ofNat (c.extract 2 v.toNat).1 = v
  rw [htarget, UInt16.ofNat_toNat]

theorem extractUInt32_fits (h : 4 ≤ c.unread) (v v' : UInt32) :
    c.extractUInt32 v = c.extractUInt32 v' := by
  obtain ⟨heq, -⟩ := @extract_fits c 4 v.toNat v'.toNat (by omega) h
  exact congrArg (fun r => (UInt32.ofNat r.1, r.2)) heq

theorem extractUInt32_short (h : c.unread < 4) (v : UInt32) : (c.extractUInt32 v).1 = v := by
  show UInt32.ofNat (c.extract 4 v.toNat).1 = v
  rw [(@extract_short c 4 v.toNat h).1, UInt32.ofNat_toNat]

end

/-- Direction and `x` are there. -/
theorem readMove_x (h : 3 ≤ packetBuffer.unread) :
    (readMove packetBuffer locals).direction = (readMove packetBuffer locals').direction ∧
      (readMove packetBuffer locals).x = (readMove packetBuffer locals').x := by
  have hdirection := (extractUInt8_fits (c := packetBuffer) (by omega) locals.direction
    locals'.direction).1
  have hunread := extractUInt8_unread (c := packetBuffer) locals'.direction
  unfold readMove
  rw [hdirection]
  exact ⟨rfl, congrArg Prod.fst (extractUInt16_fits (by omega) locals.x locals'.x).1⟩

/-- All five bytes are there. -/
theorem readMove_all (h : 5 ≤ packetBuffer.unread) :
    readMove packetBuffer locals = readMove packetBuffer locals' := by
  have hdirection := (extractUInt8_fits (c := packetBuffer) (by omega) locals.direction
    locals'.direction).1
  have hunread := extractUInt8_unread (c := packetBuffer) locals'.direction
  obtain ⟨hx, hrest⟩ := extractUInt16_fits
    (c := (packetBuffer.extractUInt8 locals'.direction).2) (by omega) locals'.x locals.x
  unfold readMove
  dsimp only
  rw [hdirection, ← hx]
  exact congrArg (CSMoveInfo.mk _ _)
    (congrArg Prod.fst (extractUInt16_fits (by omega) locals.y locals'.y).1)

/-- Without all five bytes `y` is what was in the local. -/
theorem readMove_y (h : packetBuffer.unread < 5) :
    (readMove packetBuffer locals).y = locals.y := by
  have hunread := extractUInt8_unread (c := packetBuffer) locals.direction
  by_cases hx : 2 ≤ (packetBuffer.extractUInt8 locals.direction).2.unread
  · have hrest := (extractUInt16_fits hx locals.x locals.x).2
    exact (extractUInt16_short (by omega) locals.y).1
  · have hrest := (extractUInt16_short (not_le.mp hx) locals.x).2
    exact (extractUInt16_short (by omega) locals.y).1

/-- With less than three bytes so is `x`. -/
theorem readMove_none (h : packetBuffer.unread < 3) :
    (readMove packetBuffer locals).x = locals.x := by
  have hunread := extractUInt8_unread (c := packetBuffer) locals.direction
  exact (extractUInt16_short (by omega) locals.x).1

/-! ## Enough bytes -/

/-- One write is another when they agree on the player that is there. -/
theorem modify_congr {v : World} {f f' : Player → Player} (hp : v.players p = some player)
    (hf : f player = f' player) : v.modify p f = v.modify p f' := by
  unfold World.modify
  rw [hp, Option.map_some, Option.map_some, hf]

theorem startStored_congr (hp : w.players p = some player)
    (hfar : tooFar player move = tooFar player move')
    (hpos : startPosition player move = startPosition player move')
    (hdirection : move.direction = move'.direction) :
    startStored w p player move = startStored w p player move' := by
  have hmodify : ∀ msgs, (w.send msgs).modify p (started · move) =
      (w.send msgs).modify p (started · move') := by
    intro msgs
    refine modify_congr hp ?_
    simp only [started, hpos, hdirection]
  simp only [startStored, hfar, hmodify]

theorem stopStored_congr (hp : w.players p = some player)
    (hsync : mustSync player move = mustSync player move')
    (hpos : stopPosition player move = stopPosition player move')
    (hdirection : move.direction = move'.direction) :
    stopStored w p player move = stopStored w p player move' := by
  unfold stopStored
  rw [hsync]
  refine modify_congr hp ?_
  simp only [stop, hsync, hpos, hdirection]

/-- The movement handlers use their locals through these alone. -/
theorem dispatch_congr (hp : w.players p = some player)
    (htype : packetType = dfPacketCsMoveStart ∨ IsStop packetType)
    (hfar : packetType = dfPacketCsMoveStart →
      tooFar player (readMove packetBuffer locals) =
        tooFar player (readMove packetBuffer locals') ∧
      startPosition player (readMove packetBuffer locals) =
        startPosition player (readMove packetBuffer locals'))
    (hsync : packetType ≠ dfPacketCsMoveStart →
      mustSync player (readMove packetBuffer locals) =
        mustSync player (readMove packetBuffer locals') ∧
      stopPosition player (readMove packetBuffer locals) =
        stopPosition player (readMove packetBuffer locals'))
    (hdirection : (readMove packetBuffer locals).direction =
      (readMove packetBuffer locals').direction) :
    dispatch g w p packetType packetBuffer locals =
      dispatch g w p packetType packetBuffer locals' := by
  have hstop : packetType ≠ dfPacketCsMoveStart →
      stopStored w p player (readMove packetBuffer locals) =
        stopStored w p player (readMove packetBuffer locals') := fun hne =>
    stopStored_congr hp (hsync hne).1 (hsync hne).2 hdirection
  have hattack : ∀ attack : AttackType, packetType = attack.packetType →
      dispatch g w p packetType packetBuffer locals =
        dispatch g w p packetType packetBuffer locals' := by
    rintro attack rfl
    rw [dispatch_attack, dispatch_attack, packetProcAttack_eq hp, packetProcAttack_eq hp,
      hstop (by cases attack <;> decide)]
  rcases htype with rfl | rfl | htype | htype | htype
  · rw [dispatch_moveStart, dispatch_moveStart, packetProcMoveStart_eq hp, packetProcMoveStart_eq hp,
      startStored_congr hp (hfar rfl).1 (hfar rfl).2 hdirection]
  · rw [dispatch_moveStop, dispatch_moveStop, packetProcMoveStop_eq hp, packetProcMoveStop_eq hp,
      hstop (by decide)]
  · exact hattack .attack1 htype
  · exact hattack .attack2 htype
  · exact hattack .attack3 htype

/-- A position rejected for its `x` is rejected whatever `y` is. -/
theorem tooFar_of_x {x : UInt16} (hx : move.x = x)
    (hfar : dfErrorRange < ((player.x.toNat : Int) - x.toNat).natAbs) :
    tooFar player move = true := by
  unfold tooFar
  rw [hx, decide_eq_true hfar, Bool.true_or]

theorem localsIrrelevant_of_enough (hp : w.players p = some player)
    (htype : packetType = dfPacketCsMoveStart ∨ IsStop packetType)
    (h : 5 ≤ packetBuffer.unread ∨
      (3 ≤ packetBuffer.unread ∧ xTooFar player packetBuffer ∧ checksPosition player packetType)) :
    LocalsIrrelevant g w p packetType packetBuffer := by
  intro locals locals'
  rcases h with h | ⟨h, hfar, hchecks⟩
  · have hread := @readMove_all packetBuffer locals locals' h
    exact dispatch_congr hp htype (fun _ => by rw [hread]; exact ⟨rfl, rfl⟩)
      (fun _ => by rw [hread]; exact ⟨rfl, rfl⟩) (by rw [hread])
  · have hrejected : ∀ locals, tooFar player (readMove packetBuffer locals) = true :=
      fun locals => tooFar_of_x (readMove_x h).2 hfar
    refine dispatch_congr hp htype (fun _ => ?_) (fun hne => ?_) (readMove_x h).1
    · simp only [startPosition, hrejected, if_true, and_self]
    · have hsynced := hchecks.resolve_left hne
      simp only [stopPosition, mustSync, hrejected, hsynced, Bool.not_false, Bool.and_self, if_true,
        and_self]

/-! ## Too few bytes -/

/-- The position a movement handler stores. -/
def storedPosition (player : Player) (packetType : UInt8) (move : CSMoveInfo) : Pos :=
  if packetType = dfPacketCsMoveStart then startPosition player move else stopPosition player move

theorem dispatch_stores (hp : w.players p = some player)
    (htype : packetType = dfPacketCsMoveStart ∨ IsStop packetType)
    (h : dispatch g w p packetType packetBuffer locals = .ok w₀) :
    w₀.read Player.pos p =
      some (storedPosition player packetType (readMove packetBuffer locals)) := by
  have hattack : ∀ attack : AttackType, packetType = attack.packetType →
      w₀.read Player.pos p =
        some (storedPosition player packetType (readMove packetBuffer locals)) := by
    rintro attack rfl
    rw [dispatch_attack] at h
    have hne : attack.packetType ≠ dfPacketCsMoveStart := by cases attack <;> decide
    rw [storedPosition, if_neg hne]
    exact ((outcome_packetProcAttack hp).of_ok h).self
  rcases htype with rfl | rfl | htype | htype | htype
  · exact ((outcome_packetProcMoveStart hp).of_ok h).self
  · exact ((outcome_packetProcMoveStop hp).of_ok h).self
  · exact hattack .attack1 htype
  · exact hattack .attack2 htype
  · exact hattack .attack3 htype

/-- Another coordinate within `dfERROR_RANGE`. -/
theorem exists_near (n : UInt16) :
    ∃ m : UInt16, m ≠ n ∧ ((n.toNat : Int) - m.toNat).natAbs ≤ dfErrorRange := by
  by_cases hn : n = 0
  · exact ⟨1, by rw [hn]; decide, by rw [hn]; decide⟩
  · have hpos : 1 ≤ n.toNat := by
      rw [Nat.one_le_iff_ne_zero]
      exact fun h => hn (UInt16.toNat_inj.mp h)
    have hsub : (n - 1).toNat = n.toNat - 1 :=
      UInt16.toNat_sub_of_le _ _ (UInt16.le_iff_toNat_le.mpr hpos)
    refine ⟨n - 1, fun heq => ?_, ?_⟩
    · have := congrArg UInt16.toNat heq
      omega
    · rw [hsub, dfErrorRange]
      omega

/-- A position that is near, or that is not checked, is stored. -/
theorem storedPosition_accepted (h : tooFar player move = false ∨
    ¬checksPosition player packetType) :
    storedPosition player packetType move = (move.x, move.y) := by
  unfold storedPosition startPosition stopPosition mustSync
  unfold checksPosition at h
  rcases h with hnear | hunchecked
  · simp [hnear]
  · obtain ⟨hne, hsynced⟩ := not_or.mp hunchecked
    rw [Bool.not_eq_false] at hsynced
    simp [hne, hsynced]

/-- Without enough bytes there are locals with which the packet's `x` and the local `y` are
stored. -/
theorem exists_accepted (hx : packetBuffer.unread < 3 ∨ ¬xTooFar player packetBuffer ∨
    ¬checksPosition player packetType) (hunread : packetBuffer.unread < 5) (y : UInt16)
    (hy : ((player.y.toNat : Int) - y.toNat).natAbs ≤ dfErrorRange) :
    (storedPosition player packetType (readMove packetBuffer ⟨0, player.x, y, 0⟩)).2 = y := by
  have hread : (readMove packetBuffer ⟨0, player.x, y, 0⟩).y = y := readMove_y hunread
  rw [storedPosition_accepted]
  · exact hread
  · by_cases hchecks : checksPosition player packetType
    · left
      have hxnear : ((player.x.toNat : Int) -
          (readMove packetBuffer ⟨0, player.x, y, 0⟩).x.toNat).natAbs ≤ dfErrorRange := by
        by_cases hshort : packetBuffer.unread < 3
        · rw [readMove_none hshort]
          simp
        · have hnear := (hx.resolve_left hshort).resolve_right (not_not.mpr hchecks)
          unfold xTooFar at hnear
          rw [(@readMove_x packetBuffer ⟨0, player.x, y, 0⟩ ⟨0, 0, 0, 0⟩ (by omega)).2]
          omega
      unfold tooFar
      rw [hread]
      simp only [Bool.or_eq_false_iff, decide_eq_false_iff_not]
      omega
    · exact Or.inr hchecks

theorem enough_of_localsIrrelevant (hp : w.players p = some player)
    (htype : packetType = dfPacketCsMoveStart ∨ IsStop packetType)
    (hreturns : dispatch g w p packetType packetBuffer locals = .ok w₀)
    (h : LocalsIrrelevant g w p packetType packetBuffer) :
    5 ≤ packetBuffer.unread ∨
      (3 ≤ packetBuffer.unread ∧ xTooFar player packetBuffer ∧
        checksPosition player packetType) := by
  by_contra hnot
  rw [not_or, not_le] at hnot
  obtain ⟨hunread, hnot⟩ := hnot
  have hx : packetBuffer.unread < 3 ∨ ¬xTooFar player packetBuffer ∨
      ¬checksPosition player packetType := by
    rw [not_and_or, not_le, not_and_or] at hnot
    exact hnot
  obtain ⟨y, hy, hnear⟩ := exists_near player.y
  have hown := exists_accepted hx hunread player.y (by simp)
  have hother := exists_accepted hx hunread y hnear
  -- the same result, and the two positions in it
  have hstored := dispatch_stores hp htype ((h ⟨0, player.x, player.y, 0⟩ locals).trans hreturns)
  have hstored' := dispatch_stores hp htype ((h ⟨0, player.x, y, 0⟩ locals).trans hreturns)
  have hsame := congrArg Prod.snd (Option.some.inj (hstored.symm.trans hstored'))
  rw [hown, hother] at hsame
  exact hy hsame.symm

/-- **Short payloads.**  A handler that returns for some contents of its locals has the same result
for all of them exactly if the packet holds enough bytes. -/
theorem localsIrrelevant_iff (hp : w.players p = some player)
    (htype : packetType = dfPacketCsMoveStart ∨ IsStop packetType ∨ packetType = dfPacketCsEcho)
    (hreturns : dispatch g w p packetType packetBuffer locals = .ok w₀) :
    LocalsIrrelevant g w p packetType packetBuffer ↔ Enough player packetType packetBuffer := by
  by_cases hecho : packetType = dfPacketCsEcho
  · subst hecho
    rw [Enough, if_pos rfl]
    constructor
    · intro h
      by_contra hshort
      have hresult := h ⟨0, 0, 0, 0⟩ ⟨0, 0, 0, 1⟩
      rw [dispatch_echo, dispatch_echo, packetProcEcho_eq hp, packetProcEcho_eq hp,
        extractUInt32_short (not_le.mp hshort), extractUInt32_short (not_le.mp hshort)] at hresult
      have hsent := congrArg World.sent (Except.ok.inj hresult)
      have hmsgs := List.append_cancel_left hsent
      cases hmsgs
    · intro h locals locals'
      rw [dispatch_echo, dispatch_echo, packetProcEcho_eq hp, packetProcEcho_eq hp,
        extractUInt32_fits h locals.time locals'.time]
  · have htype : packetType = dfPacketCsMoveStart ∨ IsStop packetType := by
      rcases htype with h | h | h
      · exact Or.inl h
      · exact Or.inr h
      · exact absurd h hecho
    rw [Enough, if_neg hecho]
    exact ⟨enough_of_localsIrrelevant hp htype hreturns, localsIrrelevant_of_enough hp htype⟩

/-- Five bytes. -/
theorem localsIrrelevant_iff_five :
    ∃ w player w₀, step .appending (init 0) (.createNewPlayer ⟨0, 1⟩ 1 99 99 0 true) = .ok w ∧
      w.players 1 = some player ∧
      dispatch .appending w 1 12 (.ofBytes [4, 110, 0, 100, 0]) ⟨0, 0, 0, 0⟩ = .ok w₀ ∧
      LocalsIrrelevant .appending w 1 12 (.ofBytes [4, 110, 0, 100, 0]) := by
  obtain ⟨w, player, w₀, hstep, hp, hreturns⟩ : ∃ w player w₀,
      step .appending (init 0) (.createNewPlayer ⟨0, 1⟩ 1 99 99 0 true) = .ok w ∧
      w.players 1 = some player ∧
      dispatch .appending w 1 12 (.ofBytes [4, 110, 0, 100, 0]) ⟨0, 0, 0, 0⟩ = .ok w₀ :=
    ⟨_, _, _, rfl, rfl, rfl⟩
  refine ⟨w, player, w₀, hstep, hp, hreturns,
    (localsIrrelevant_iff hp (Or.inr (Or.inl (Or.inl rfl))) hreturns).mpr ?_⟩
  rw [Enough, if_neg (by decide)]
  exact Or.inl (by decide)

/-- An empty `CS_MOVE_STOP` puts the player where the stack says. -/
theorem empty_stop_reads_stack :
    ∃ w w₁ w₂, step .appending (init 0) (.createNewPlayer ⟨0, 1⟩ 1 99 99 0 true) = .ok w ∧
      dispatch .appending w 1 12 (.ofBytes []) ⟨4, 110, 100, 0⟩ = .ok w₁ ∧
      dispatch .appending w 1 12 (.ofBytes []) ⟨4, 120, 100, 0⟩ = .ok w₂ ∧
      w₁.read Player.pos 1 = some (110, 100) ∧ w₂.read Player.pos 1 = some (120, 100) ∧
      ¬LocalsIrrelevant .appending w 1 12 (.ofBytes []) := by
  obtain ⟨w, w₁, w₂, hstep, h₁, h₂, hpos₁, hpos₂⟩ : ∃ w w₁ w₂,
      step .appending (init 0) (.createNewPlayer ⟨0, 1⟩ 1 99 99 0 true) = .ok w ∧
      dispatch .appending w 1 12 (.ofBytes []) ⟨4, 110, 100, 0⟩ = .ok w₁ ∧
      dispatch .appending w 1 12 (.ofBytes []) ⟨4, 120, 100, 0⟩ = .ok w₂ ∧
      w₁.read Player.pos 1 = some (110, 100) ∧ w₂.read Player.pos 1 = some (120, 100) :=
    ⟨_, _, _, rfl, rfl, rfl, rfl, rfl⟩
  refine ⟨w, w₁, w₂, hstep, h₁, h₂, hpos₁, hpos₂, fun h => ?_⟩
  have hsame := Except.ok.inj ((h₁.symm.trans (h _ _)).trans h₂)
  rw [hsame, hpos₂] at hpos₁
  exact absurd hpos₁ (by decide)

end GameLogic

end IocpServer
