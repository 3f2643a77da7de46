import IocpServer.GameLogic.Effects

/-!
# What the clients are told of hit points

`SC_CREATE_MY_CHARACTER`, `SC_CREATE_OTHER_CHARACTER` and `SC_DAMAGE` tell a session the `hp` of a
character.  Nothing raises `hp`, and a hit is told to the player it hits unless that is dead.

* `told` — the values of `hp` a session has been told of a character.
* `HpTold` — they never rise, and a living player knows its own.
* `run_hpTold` — **so in every run that creates fewer than `2 ^ 32` players.**
-/

set_option autoImplicit false

namespace IocpServer

open Lib

namespace GameLogic

/-- What a message tells the session of the character's `hp`. -/
def tellsHp (session : SessionId) (id : UInt32) (m : Sending) : Option UInt8 :=
  match toldHp m.2 with
  | none => none
  | some (about, hp) => if m.1 = session ∧ about = id then some hp else none

/-- What the session has been told of the character's `hp`. -/
def told (session : SessionId) (id : UInt32) (log : List Sending) : List UInt8 :=
  log.filterMap (tellsHp session id)

/-- The values of `hp` the session of a player has been told of its character. -/
def Player.toldOwn (player : Player) (log : List Sending) : List UInt8 :=
  told player.sessionId player.playerId.characterId log

/-- What is told of `hp` never rises, nobody has been told less of a player than it has, and a
player has been told 100 first and, while it lives, what it has last. -/
structure HpTold (w : World) : Prop where
  falls : ∀ session id, (told session id w.sent).Pairwise (· ≥ ·)
  least : ∀ q other, w.players q = some other →
    ∀ session, ∀ hp ∈ told session other.playerId.characterId w.sent, other.hp ≤ hp
  first : ∀ q other, w.players q = some other → (other.toldOwn w.sent).head? = some 100
  last : ∀ q other, w.players q = some other → other.isDead = false →
    (other.toldOwn w.sent).getLast? = some other.hp

/-- The calls of `CreateNewPlayer`. -/
def created (as : List Action) : Nat :=
  as.countP fun
    | .createNewPlayer _ _ _ _ _ _ => true
    | _ => false

/-! ## Character ids -/

/-- One of the first `k` ids after `c`. -/
def Drawn (c : UInt32) (k : Nat) (id : UInt32) : Prop :=
  ∃ j, 1 ≤ j ∧ j ≤ k ∧ id = c + UInt32.ofNat j

/-- The players and what is told of them, when `k` ids have been drawn. -/
structure Inv (c : UInt32) (k : Nat) (w : World) : Prop extends HpTold w where
  seated : ∀ q other, w.players q = some other → Seated w q other
  apart : ∀ q r other third, w.players q = some other → w.players r = some third →
    other.playerId.characterId = third.playerId.characterId → q = r
  drawn : ∀ q other, w.players q = some other → Drawn c k other.playerId.characterId
  toldDrawn : ∀ session id, told session id w.sent ≠ [] → Drawn c k id
  counter : w.uniqueCharacterId = c + UInt32.ofNat k

variable {g : Grid} {w w₁ w' : World} {m : Sending} {log msgs : List Sending} {a : Action}
  {c id : UInt32} {k p q : Nat} {player other : Player} {session : SessionId} {attack : AttackType}

theorem Drawn.succ (h : Drawn c k id) : Drawn c (k + 1) id := by
  obtain ⟨j, hpos, hle, hid⟩ := h
  exact ⟨j, hpos, Nat.le_succ_of_le hle, hid⟩

/-- The next id is none of those that were drawn. -/
theorem Drawn.ne_next (h : Drawn c k id) (hk : k + 1 < 2 ^ 32) : id ≠ c + UInt32.ofNat k + 1 := by
  obtain ⟨j, hpos, hle, rfl⟩ := h
  intro heq
  rw [UInt32.add_assoc, UInt32.add_right_inj] at heq
  have values := congrArg UInt32.toNat heq
  rw [UInt32.toNat_add, UInt32.toNat_ofNat', UInt32.toNat_ofNat'] at values
  simp only [UInt32.toNat_one] at values
  omega

/-! ## What is told -/

theorem told_append : told session id (log ++ msgs) = told session id log ++ told session id msgs :=
  List.filterMap_append

theorem told_singleton : told session id [m] = (tellsHp session id m).toList := by
  rw [told, List.filterMap_cons, List.filterMap_nil]
  cases tellsHp session id m <;> rfl

/-- What is told in messages is told in one of them. -/
theorem mem_told {hp : UInt8} : hp ∈ told session id log ↔
    ∃ m ∈ log, m.1 = session ∧ toldHp m.2 = some (id, hp) := by
  unfold told
  rw [List.mem_filterMap]
  refine exists_congr fun m => and_congr_right fun _ => ?_
  unfold tellsHp
  cases htold : toldHp m.2 with
  | none => simp
  | some told =>
    obtain ⟨about, hp'⟩ := told
    dsimp only
    constructor
    · intro h
      split at h
      · rename_i hcond
        obtain ⟨rfl, rfl⟩ := hcond
        cases h
        exact ⟨rfl, rfl⟩
      · cases h
    · rintro ⟨rfl, h⟩
      cases h
      exact if_pos ⟨rfl, rfl⟩

/-- What one of the effects leaves of a player. -/
structure Left (w w' : World) (msgs : List Sending) (q : Nat) (other other' : Player) : Prop where
  names : other'.names = other.names
  hp : other'.hp ≤ other.hp
  dead : other.isDead = true → other'.isDead = true
  seated : Seated w' q other'
  known : other'.isDead = false → other'.hp = other.hp ∨ other'.toldOwn msgs ≠ []

/-- **Messages that tell the `hp` the players have behind the effect.** -/
theorem Inv.extend (I : Inv c k w) (hsent : w'.sent = w.sent ++ msgs)
    (hcounter : w'.uniqueCharacterId = w.uniqueCharacterId)
    (hplayers : ∀ q other', w'.players q = some other' →
      ∃ other, w.players q = some other ∧ Left w w' msgs q other other')
    (htrue : ∀ m ∈ msgs, TrueHp w' m.2) : Inv c k w' := by
  have hid {q : Nat} {other' : Player} (hq : w'.players q = some other') :
      ∃ other, w.players q = some other ∧
        other'.playerId.characterId = other.playerId.characterId := by
    obtain ⟨other, hq, left⟩ := hplayers q other' hq
    exact ⟨other, hq, (Prod.mk.inj left.names).2⟩
  have apart : ∀ q r other third, w'.players q = some other → w'.players r = some third →
      other.playerId.characterId = third.playerId.characterId → q = r := by
    intro q r other third hq hr heq
    obtain ⟨other₀, hq₀, hother⟩ := hid hq
    obtain ⟨third₀, hr₀, hthird⟩ := hid hr
    exact I.apart q r other₀ third₀ hq₀ hr₀ (hother.symm.trans (heq.trans hthird))
  have about {session : SessionId} {id : UInt32} {hp : UInt8} (h : hp ∈ told session id msgs) :
      ∃ q other, w'.players q = some other ∧ other.playerId.characterId = id ∧ other.hp = hp := by
    obtain ⟨m, hm, -, htold⟩ := mem_told.mp h
    obtain ⟨r, third, hr, heq⟩ := htrue m hm _ htold
    obtain ⟨hid, hhp⟩ := Prod.mk.inj heq
    exact ⟨r, third, hr, hid.symm, hhp.symm⟩
  -- what is told now is what the player has
  have now {q : Nat} {other : Player} {session : SessionId} {hp : UInt8}
      (hq : w'.players q = some other) (h : hp ∈ told session other.playerId.characterId msgs) :
      hp = other.hp := by
    obtain ⟨r, third, hr, hid, rfl⟩ := about h
    obtain rfl := apart r q third other hr hq hid
    cases hq.symm.trans hr
    rfl
  have least {q : Nat} {other : Player} (hq : w'.players q = some other) (session : SessionId)
      {hp : UInt8} (h : hp ∈ told session other.playerId.characterId w.sent) : other.hp ≤ hp := by
    obtain ⟨other₀, hq₀, left⟩ := hplayers q other hq
    rw [(Prod.mk.inj left.names).2] at h
    exact UInt8.le_trans left.hp (I.least q other₀ hq₀ session hp h)
  refine ⟨⟨fun session id => ?_, fun q other hq session hp h => ?_, fun q other hq => ?_,
    fun q other hq hdead => ?_⟩, fun q other hq => ?_, apart, fun q other hq => ?_,
    fun session id h => ?_, hcounter.trans I.counter⟩
  · rw [hsent, told_append, List.pairwise_append]
    refine ⟨I.falls session id, ?_, fun before hbefore hp h => ?_⟩
    · refine List.pairwise_of_forall_mem_list fun hp h hp' h' => ?_
      obtain ⟨q, other, hq, rfl, -⟩ := about h
      rw [now hq h, now hq h']
      exact UInt8.le_refl _
    · obtain ⟨q, other, hq, rfl, rfl⟩ := about h
      exact least hq session hbefore
  · rw [hsent, told_append, List.mem_append] at h
    rcases h with h | h
    · exact least hq session h
    · exact (now hq h).symm ▸ UInt8.le_refl _
  · obtain ⟨other₀, hq₀, left⟩ := hplayers q other hq
    obtain ⟨hsession, hcharacter⟩ := Prod.mk.inj left.names
    have first := I.first q other₀ hq₀
    unfold Player.toldOwn at first ⊢
    rw [hsent, told_append, hsession, hcharacter, List.head?_append, first]
    rfl
  · obtain ⟨other₀, hq₀, left⟩ := hplayers q other hq
    obtain ⟨hsession, hcharacter⟩ := Prod.mk.inj left.names
    rw [Player.toldOwn, hsent, told_append, List.getLast?_append]
    cases hlast : (told other.sessionId other.playerId.characterId msgs).getLast? with
    | some hp =>
      rw [Option.some_or, now hq (List.mem_of_getLast? hlast)]
    | none =>
      rw [Option.none_or]
      have quiet := List.getLast?_eq_none_iff.mp hlast
      rw [(left.known hdead).resolve_right fun h => h quiet, hsession, hcharacter]
      refine I.last q other₀ hq₀ ?_
      cases hdead₀ : other₀.isDead with
      | false => rfl
      | true => rw [left.dead hdead₀] at hdead; cases hdead
  · obtain ⟨other₀, -, left⟩ := hplayers q other hq
    exact left.seated
  · obtain ⟨other₀, hq₀, heq⟩ := hid hq
    exact heq ▸ I.drawn q other₀ hq₀
  · rw [hsent, told_append] at h
    by_cases hbefore : told session id w.sent = []
    · rw [hbefore, List.nil_append] at h
      obtain ⟨hp, rest, hrest⟩ := List.exists_cons_of_ne_nil h
      obtain ⟨q, other, hq, rfl, -⟩ := about (hrest ▸ List.mem_cons_self)
      obtain ⟨other₀, hq₀, heq⟩ := hid hq
      exact heq ▸ I.drawn q other₀ hq₀
    · exact I.toldDrawn session id hbefore

/-! ## The effects -/

theorem Inv.tell (I : Inv c k w) (hmsgs : ∀ m ∈ msgs, TrueHp w m.2) : Inv c k (w.send msgs) :=
  I.extend rfl rfl (fun q other hq => ⟨other, hq, rfl, UInt8.le_refl _, fun h => h,
    I.seated q other hq, fun _ => .inl rfl⟩) hmsgs

theorem wounded_le : (wounded attack other).hp ≤ other.hp := by
  rw [UInt8.le_iff_toNat_le]
  have hwounded := @wounded_hp other attack
  omega

theorem Inv.effect (I : Inv c k w) (h : Effect w w') : Inv c k w' := by
  cases h with
  | silent h =>
    refine I.extend (show w'.sent = w.sent ++ [] by rw [h.sent, List.append_nil]) h.counter
      (fun q other' hq => ?_) fun m hm => absurd hm List.not_mem_nil
    obtain ⟨other, hq, same⟩ := h.players q other' hq
    exact ⟨other, hq, same.names, same.hp ▸ UInt8.le_refl _, same.dead,
      same.seated (I.seated q other hq), fun _ => .inl same.hp⟩
  | tell hmsgs => exact I.tell fun m hm => (hmsgs m hm).hp
  | @strike q other attack msgs hq hmsgs htold =>
    have hself : (w.modify q (wounded attack)).players q = some (wounded attack other) := by
      rw [modify_players_self, hq]
      rfl
    refine I.extend rfl rfl (fun r other' hr => ?_) fun m hm told h => ?_
    · rw [send_players] at hr
      by_cases hrq : r = q
      · subst hrq
        cases hself.symm.trans hr
        have seated := I.seated r other hq
        refine ⟨other, hq, rfl, wounded_le, fun h => h, seated, fun hdead => .inr ?_⟩
        obtain ⟨attackId, hmem⟩ := htold hdead seated
        exact List.ne_nil_of_mem (mem_told.mpr ⟨_, hmem, rfl, rfl⟩)
      · rw [modify_players_ne hrq] at hr
        exact ⟨other', hr, rfl, UInt8.le_refl _, fun h => h, I.seated r other' hr, fun _ => .inl rfl⟩
    · obtain ⟨-, attackId, hdamage⟩ := hmsgs m hm
      rw [hdamage] at h
      cases h
      exact ⟨q, wounded attack other, hself, rfl⟩

theorem Inv.effects (I : Inv c k w) (h : Effects w w') : Inv c k w' := by
  induction h with
  | refl => exact I
  | tail _ h ih => exact ih.effect h

/-! ## Players come -/

theorem next_id : c + UInt32.ofNat k + 1 = c + UInt32.ofNat (k + 1) := by
  rw [UInt32.ofNat_add, UInt32.add_assoc]
  rfl

/-- A greeting tells its session 100, and nobody anything else. -/
theorem told_greeting {session' : SessionId} {id' : UInt32} {direction : UInt8} {x y : UInt16} :
    told session' id' [(session, .createMyCharacter id direction x y 100)] =
      if session = session' ∧ id = id' then [100] else [] := by
  rw [told_singleton]
  show Option.toList (if session = session' ∧ id = id' then some 100 else none) = _
  split <;> rfl

/-- A player with the next id comes, and is greeted. -/
theorem Inv.create {direction : UInt8} {x y : UInt16} (I : Inv c k w) (hk : k + 1 < 2 ^ 32)
    (hself : w'.players p = some player)
    (hnames : player.names = (session, w.uniqueCharacterId + 1)) (hhp : player.hp = 100)
    (hseated : Seated w' p player) (hother : ∀ q, q ≠ p → w'.players q = w.players q)
    (hsectors : ∀ i q, q ∈ w.sectors i → q ∈ w'.sectors i)
    (hcounter : w'.uniqueCharacterId = w.uniqueCharacterId + 1)
    (hsent : w'.sent = w.sent ++
      [(session, .createMyCharacter (w.uniqueCharacterId + 1) direction x y 100)]) :
    Inv c (k + 1) w' := by
  obtain ⟨hsession, hcharacter⟩ : player.sessionId = session ∧
      player.playerId.characterId = w.uniqueCharacterId + 1 := Prod.mk.inj hnames
  have ne_next {id : UInt32} (h : Drawn c k id) : id ≠ w.uniqueCharacterId + 1 := by
    rw [I.counter]
    exact h.ne_next hk
  have fresh (session' : SessionId) : told session' (w.uniqueCharacterId + 1) w.sent = [] := by
    by_contra h
    exact ne_next (I.toldDrawn session' _ h) rfl
  have self (session' : SessionId) : told session' (w.uniqueCharacterId + 1) w'.sent =
      if session = session' then [100] else [] := by
    rw [hsent, told_append, fresh, List.nil_append, told_greeting]
    simp only [and_true]
  have others {session' : SessionId} {id : UInt32} (h : id ≠ w.uniqueCharacterId + 1) :
      told session' id w'.sent = told session' id w.sent := by
    rw [hsent, told_append, told_greeting, if_neg fun hid => h hid.2.symm, List.append_nil]
  -- what holds of the new player and of the others holds of all
  have all {P : Nat → Player → Prop} (new : P p player)
      (old : ∀ q other, q ≠ p → w.players q = some other → P q other) :
      ∀ q other, w'.players q = some other → P q other := by
    intro q other hq
    by_cases hqp : q = p
    · subst hqp
      cases hself.symm.trans hq
      exact new
    · exact old q other hqp (hother q hqp ▸ hq)
  have own : player.toldOwn w'.sent = [100] := by
    rw [Player.toldOwn, hcharacter, self, if_pos hsession.symm]
  have oldOwn {q : Nat} {other : Player} (hq : w.players q = some other) :
      other.toldOwn w'.sent = other.toldOwn w.sent := others (ne_next (I.drawn q other hq))
  refine ⟨⟨fun session' id => ?_, all ?_ ?_, all ?_ ?_, all ?_ ?_⟩, all hseated ?_, ?_, all ?_ ?_,
    fun session' id h => ?_, ?_⟩
  · by_cases hid : id = w.uniqueCharacterId + 1
    · rw [hid, self]
      split
      · exact List.pairwise_singleton _ _
      · exact List.Pairwise.nil
    · rw [others hid]
      exact I.falls session' id
  · intro session' hp h
    rw [hcharacter, self] at h
    split at h
    · rw [List.mem_singleton.mp h, hhp]
      exact UInt8.le_refl _
    · cases h
  · intro q other _ hq session' hp h
    rw [others (ne_next (I.drawn q other hq))] at h
    exact I.least q other hq session' hp h
  · rw [own]
    rfl
  · intro q other _ hq
    rw [oldOwn hq]
    exact I.first q other hq
  · intro _
    rw [own, hhp]
    rfl
  · intro q other _ hq hdead
    rw [oldOwn hq]
    exact I.last q other hq hdead
  · intro q other _ hq
    obtain ⟨i, hi, hmem⟩ := I.seated q other hq
    exact ⟨i, hi, hsectors i q hmem⟩
  · intro q r other third hq hr heq
    by_cases hqp : q = p
    · subst hqp
      cases hself.symm.trans hq
      by_contra hqr
      have hr := hother r (Ne.symm hqr) ▸ hr
      exact ne_next (I.drawn r third hr) (heq.symm.trans hcharacter)
    · have hq := hother q hqp ▸ hq
      by_cases hrp : r = p
      · subst hrp
        cases hself.symm.trans hr
        exact absurd (heq.trans hcharacter) (ne_next (I.drawn q other hq))
      · exact I.apart q r other third hq (hother r hrp ▸ hr) heq
  · exact ⟨k + 1, Nat.le_add_left 1 k, Nat.le_refl _, by rw [hcharacter, I.counter, next_id]⟩
  · exact fun q other _ hq => (I.drawn q other hq).succ
  · by_cases hid : id = w.uniqueCharacterId + 1
    · exact ⟨k + 1, Nat.le_add_left 1 k, Nat.le_refl _, by rw [hid, I.counter, next_id]⟩
    · rw [others hid] at h
      exact (I.toldDrawn session' id h).succ
  · rw [hcounter, I.counter, next_id]

/-! ## Runs -/

theorem Inv.begins (I : Inv c k w) (hk : k + created [a] < 2 ^ 32) (h : Begins w a w₁) :
    ∃ k' ≤ k + created [a], Inv c k' w₁ := by
  cases h with
  | call => exact ⟨k, Nat.le_add_right _ _, I⟩
  | unregistered =>
    refine ⟨k + 1, Nat.le_refl _, ⟨I.toHpTold.1, I.least, I.first, I.last⟩, I.seated, I.apart,
      fun q other hq => (I.drawn q other hq).succ, fun session id h => (I.toldDrawn session id h).succ,
      ?_⟩
    show w.uniqueCharacterId + 1 = _
    rw [I.counter, next_id]
  | created hp hself hnames hhp hseated hother hsectors hcounter hsent =>
    exact ⟨k + 1, Nat.le_refl _,
      I.create hk hself hnames hhp hseated hother hsectors hcounter hsent⟩
  | answered hp htype =>
    refine ⟨k, Nat.le_add_right _ _, (I.effect (.silent (mild_received _).silent)).tell fun m hm => ?_⟩
    rw [List.mem_singleton.mp hm]
    exact fun told h => by cases h

theorem Inv.init (uniqueCharacterId : UInt32) :
    Inv uniqueCharacterId 0 (GameLogic.init uniqueCharacterId) where
  falls _ _ := List.Pairwise.nil
  least _ _ hq := by cases hq
  first _ _ hq := by cases hq
  last _ _ hq := by cases hq
  seated _ _ hq := by cases hq
  apart _ _ _ _ hq := by cases hq
  drawn _ _ hq := by cases hq
  toldDrawn _ _ h := absurd rfl h
  counter := (UInt32.add_zero _).symm

/-- **Hit points.**  In every run of the logic thread and the destroy thread that creates fewer than
`2 ^ 32` players, what a session is told of the `hp` of a character never rises and is never less than
what the character has; a player is told 100 first and, as long as it is not dead, it has been told
last what it has. -/
theorem run_hpTold {uniqueCharacterId : UInt32} {as : List Action}
    (hr : Run (fun w a w' => step g w a = .ok w') anyStep (GameLogic.init uniqueCharacterId) as w)
    (hcreated : created as < 2 ^ 32) : HpTold w := by
  obtain ⟨k, -, I⟩ : ∃ k ≤ created as, Inv uniqueCharacterId k w := by
    induction hr with
    | nil => exact ⟨0, Nat.le_refl _, Inv.init uniqueCharacterId⟩
    | @snoc as w w' a _ _ h ih =>
      have hsplit : created (as ++ [a]) = created as + created [a] := List.countP_append
      obtain ⟨k, hk, I⟩ := ih (by omega)
      obtain ⟨w₁, hbegins, heffects⟩ := step_effects h
      obtain ⟨k', hk', I'⟩ := I.begins (by omega) hbegins
      exact ⟨k', by omega, I'.effects heffects⟩
  exact I.toHpTold

/-- A player is hit, and told so like the one who has hit it. -/
theorem run_hpTold_hit : ∃ w, Run (fun w a w' => step .appending w a = .ok w') anyStep
      (GameLogic.init 0) [.createNewPlayer ⟨0, 1⟩ 1 99 99 0 true, .createNewPlayer ⟨1, 2⟩ 2 119 99 0 true,
        .packet ⟨⟨0, 1⟩, .ofBytes [4, 100, 0, 100, 0], 20⟩ ⟨0, 0, 0, 0⟩ 0] w ∧
    told ⟨1, 2⟩ 2 w.sent = [100, 99] ∧ told ⟨0, 1⟩ 2 w.sent = [100, 99] ∧ HpTold w := by
  obtain ⟨w, hr, hhit, hhitter⟩ : ∃ w, Run (fun w a w' => step .appending w a = .ok w') anyStep
      (GameLogic.init 0) [.createNewPlayer ⟨0, 1⟩ 1 99 99 0 true, .createNewPlayer ⟨1, 2⟩ 2 119 99 0 true,
        .packet ⟨⟨0, 1⟩, .ofBytes [4, 100, 0, 100, 0], 20⟩ ⟨0, 0, 0, 0⟩ 0] w ∧
      told ⟨1, 2⟩ 2 w.sent = [100, 99] ∧ told ⟨0, 1⟩ 2 w.sent = [100, 99] := by
    refine ⟨_, runFn_iff_run.mp rfl, ?_, ?_⟩
    · rfl
    · rfl
  exact ⟨w, hr, hhit, hhitter, run_hpTold hr (by decide)⟩

end GameLogic

end IocpServer
