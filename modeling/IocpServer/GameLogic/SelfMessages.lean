import IocpServer.GameLogic.Figures
import IocpServer.GameLogic.SectorMembership

/-!
# What `SectorUpdate` tells a player about itself

The player has entered its new sector when `SectorUpdate` walks through the sectors that came into
view, and the walk skips nobody.

* `NamesApart` — the invariant: no two players share a session or a character id.
* `mem_sectorMessages` — who gets which message, about whom.
* `run_noneAboutItself_iff` — **`SectorUpdate` sends no player a message about itself exactly if the
  player is dead or its new tile is among those around its old one.**
-/

set_option autoImplicit false

namespace IocpServer

open Lib

namespace GameLogic

/-- The character an `SC_CREATE_OTHER_CHARACTER`, `SC_DELETE_CHARACTER` or `SC_MOVE_START` is about. -/
def about : ScMessage → Option UInt32
  | .createOtherCharacter id _ _ _ _ => some id
  | .deleteCharacter id => some id
  | .moveStart id _ _ _ => some id
  | _ => none

/-- Such a message goes to the player it is about. -/
def AboutItself (w : World) (m : Sending) : Prop :=
  ∃ q other, w.players q = some other ∧ other.sessionId = m.1 ∧
    about m.2 = some other.playerId.characterId

/-- None of the messages sent since `w₁` goes to the player it is about. -/
def NoneAboutItself (w₁ w₂ : World) : Prop :=
  ∀ msgs, w₂.sent = w₁.sent ++ msgs → ∀ m ∈ msgs, ¬AboutItself w₂ m

/-- The position `new` has been stored in the player at `p`: who is in which set, who is who and who
is dead is as before. -/
structure Moves (w : World) (p : Nat) (player : Player) (new : Pos) (w₁ : World) : Prop where
  self : ∃ moved, w₁.players p = some moved ∧ moved.pos = new ∧ moved.names = player.names ∧
    moved.isDead = player.isDead
  other : ∀ q, q ≠ p → w₁.players q = w.players q
  sectors : w₁.sectors = w.sectors

/-- The step condition: the session and the character id of a new player are nobody else's. -/
def FreshNames (w : World) : Action → Prop
  | .createNewPlayer id _ _ _ _ _ =>
    ∀ q other, w.players q = some other →
      other.sessionId ≠ id ∧ other.playerId.characterId ≠ w.uniqueCharacterId + 1
  | _ => True

/-- No two players share a session or a character id. -/
def NamesApart (w : World) : Prop :=
  ∀ q r other third, w.players q = some other → w.players r = some third →
    other.sessionId = third.sessionId ∨
      other.playerId.characterId = third.playerId.characterId → q = r

variable {g : Grid} {w w₁ w₂ w' : World} {p q : Nat} {player other : Player} {new : Pos}
  {move : CSMoveInfo} {msgs : List Sending} {m : Sending}

/-! ## The stores -/

/-- `PacketProcMoveStart` stores a position. -/
theorem moves_startStored (hp : w.players p = some player) :
    Moves w p player (startPosition player move) (startStored w p player move) :=
  ⟨⟨_, startStored_self hp, rfl, rfl, rfl⟩, fun _ hq => startStored_ne hq, rfl⟩

/-! ## Names -/

theorem NamesApart.step {a : Action} (hw : NamesApart w) (hok : FreshNames w a)
    (h : step g w a = .ok w') : NamesApart w' := by
  have hfresh : ∀ {q r : Nat} {other third : Player}, w.players q = some other →
      Creates w r third.figure a → other.sessionId ≠ third.sessionId ∧
        other.playerId.characterId ≠ third.playerId.characterId := by
    intro q r other third hq hcreates
    cases a with
    | createNewPlayer id p randX randY now registered =>
      obtain ⟨-, -, -, hfigure⟩ := hcreates
      have hsession := congrArg Figure.sessionId hfigure
      have hid := congrArg (fun f => f.playerId.characterId) hfigure
      have := hok q other hq
      simp only [Player.figure, newPlayer] at hsession hid
      rw [hsession, hid]
      exact this
    | _ => exact hcreates.elim
  intro q r other third hq hr hshared
  rcases figure_step h hq with ⟨player, hq', hfigure⟩ | hcreates
  · have hnames : other.sessionId = player.sessionId ∧ other.playerId = player.playerId :=
      ⟨congrArg Figure.sessionId hfigure, congrArg Figure.playerId hfigure⟩
    rcases figure_step h hr with ⟨player', hr', hfigure'⟩ | hcreates'
    · have hnames' : third.sessionId = player'.sessionId ∧ third.playerId = player'.playerId :=
        ⟨congrArg Figure.sessionId hfigure', congrArg Figure.playerId hfigure'⟩
      rw [hnames.1, hnames.2, hnames'.1, hnames'.2] at hshared
      exact hw q r player player' hq' hr' hshared
    · have happart := hfresh hq' hcreates'
      rw [hnames.1, hnames.2] at hshared
      exact absurd hshared (not_or.mpr happart)
  · rcases figure_step h hr with ⟨player', hr', hfigure'⟩ | hcreates'
    · have hnames' : third.sessionId = player'.sessionId ∧ third.playerId = player'.playerId :=
        ⟨congrArg Figure.sessionId hfigure', congrArg Figure.playerId hfigure'⟩
      have happart := hfresh hr' hcreates
      rw [hnames'.1, hnames'.2] at hshared
      exact absurd (hshared.imp Eq.symm Eq.symm) (not_or.mpr happart)
    · cases a with
      | createNewPlayer id p randX randY now registered => exact hcreates.1.trans hcreates'.1.symm
      | _ => exact hcreates.elim

theorem run_namesApart {uniqueCharacterId : UInt32} {as : List Action}
    (hr : Run (fun w a w' => step g w a = .ok w') FreshNames (init uniqueCharacterId) as w) :
    NamesApart w :=
  hr.invariant (fun _ _ _ _ hq => by cases hq) fun _ _ _ hw hok h => hw.step hok h

/-- Names stay apart as long as nobody gets another. -/
theorem NamesApart.keeps (hw : NamesApart w) (h : ∀ q other', w'.players q = some other' →
    ∃ other, w.players q = some other ∧ other'.names = other.names) : NamesApart w' := by
  intro q r other third hq hr hshared
  obtain ⟨old, hq', hnames⟩ := h q other hq
  obtain ⟨old', hr', hnames'⟩ := h r third hr
  simp only [Player.names, Prod.mk.injEq] at hnames hnames'
  rw [hnames.1, hnames.2, hnames'.1, hnames'.2] at hshared
  exact hw q r old old' hq' hr' hshared

theorem NamesApart.moves (hw : NamesApart w) (hp : w.players p = some player)
    (h : Moves w p player new w₁) : NamesApart w₁ := by
  obtain ⟨moved, hmoved, -, hnames, -⟩ := h.self
  refine hw.keeps fun q other hq => ?_
  by_cases hqp : q = p
  · subst hqp
    rw [hmoved] at hq
    cases hq
    exact ⟨player, hp, hnames⟩
  · rw [h.other q hqp] at hq
    exact ⟨other, hq, rfl⟩

/-- A change of sector renames nobody. -/
theorem NamesApart.update {prev curr : Nat} (hw : NamesApart w) :
    NamesApart ((w.leave p prev).enter g p curr) := by
  refine hw.keeps fun q other hq => ?_
  obtain ⟨old, hold, hfigure⟩ := ((Keeps.refl.leave figure_untouched).enter figure_untouched) q other hq
  exact ⟨old, hold, congrArg (fun f => (f.sessionId, f.playerId.characterId)) hfigure⟩

/-! ## The messages -/

/-- The message goes to one of `player` and the living player at `q` and is about the other. -/
def Between (w : World) (player : Player) (q : Nat) (m : Sending) : Prop :=
  ∃ other, w.players q = some other ∧ other.isDead = false ∧
    ((m.1 = player.sessionId ∧ about m.2 = some other.playerId.characterId) ∨
      (m.1 = other.sessionId ∧ about m.2 = some player.playerId.characterId))

theorem outcome_appear_between :
    Outcome (fun bs => ∀ m ∈ bs, Between w player q m) (fun _ => True) (appear w player q) := by
  apply outcome_deref_some.bind
  intro other hq
  apply Outcome.ite
  · intro _ m hm
    cases hm
  · intro hdead m hm
    refine ⟨other, hq, Bool.eq_false_iff.mpr hdead, ?_⟩
    simp only [List.mem_append, List.mem_cons, List.not_mem_nil, or_false] at hm
    rcases hm with ((rfl | rfl) | hm) | hm
    · exact Or.inl ⟨rfl, rfl⟩
    · exact Or.inr ⟨rfl, rfl⟩
    · split at hm
      · rw [List.mem_singleton.mp hm]
        exact Or.inr ⟨rfl, rfl⟩
      · cases hm
    · split at hm
      · rw [List.mem_singleton.mp hm]
        exact Or.inl ⟨rfl, rfl⟩
      · cases hm

theorem outcome_disappear_between :
    Outcome (fun bs => ∀ m ∈ bs, Between w player q m) (fun _ => True) (disappear w player q) := by
  apply outcome_deref_some.bind
  intro other hq
  apply Outcome.ite
  · intro _ m hm
    cases hm
  · intro hdead m hm
    refine ⟨other, hq, Bool.eq_false_iff.mpr hdead, ?_⟩
    simp only [List.mem_cons, List.not_mem_nil, or_false] at hm
    rcases hm with rfl | rfl
    · exact Or.inl ⟨rfl, rfl⟩
    · exact Or.inr ⟨rfl, rfl⟩

/-- The players `SectorUpdate` walks through: those in the sectors of one view only. -/
def walked (g : Grid) (w : World) (prevX prevY x y : UInt16) : List Nat :=
  (sectorSets g prevX prevY x y).2.flatMap w.sectors ++
    (sectorSets g prevX prevY x y).1.flatMap w.sectors

/-- Every message of `SectorUpdate` is between its player and one it walks through. -/
theorem mem_sectorMessages {prevX prevY : UInt16} (hp : w.players p = some player)
    (h : sectorMessages g w p prevX prevY = .ok msgs) (hm : m ∈ msgs) :
    ∃ q ∈ walked g w prevX prevY player.x player.y, Between w player q m := by
  unfold sectorMessages at h
  rw [deref_ok hp] at h
  obtain ⟨_, ⟨⟩, h⟩ := bind_eq_ok h
  obtain ⟨created, hcreated, h⟩ := bind_eq_ok h
  obtain ⟨deleted, hdeleted, h⟩ := bind_eq_ok h
  cases h
  rcases List.mem_append.mp hm with hm | hm
  · obtain ⟨q, hq, bs, hbs, hm⟩ := (mem_flatten_mapM hcreated).mp hm
    exact ⟨q, List.mem_append_left _ hq, outcome_appear_between.of_ok hbs m hm⟩
  · obtain ⟨q, hq, bs, hbs, hm⟩ := (mem_flatten_mapM hdeleted).mp hm
    exact ⟨q, List.mem_append_right _ hq, outcome_disappear_between.of_ok hbs m hm⟩

/-- A living player that came into view is shown to `p`. -/
theorem shown_mem {prevX prevY : UInt16} (hp : w.players p = some player)
    (h : sectorMessages g w p prevX prevY = .ok msgs)
    (hq : q ∈ (sectorSets g prevX prevY player.x player.y).2.flatMap w.sectors)
    (hother : w.players q = some other) (hdead : other.isDead = false) :
    (player.sessionId, .createOtherCharacter other.playerId.characterId other.direction other.x
      other.y other.hp) ∈ msgs := by
  unfold sectorMessages at h
  rw [deref_ok hp] at h
  obtain ⟨_, ⟨⟩, h⟩ := bind_eq_ok h
  obtain ⟨created, hcreated, h⟩ := bind_eq_ok h
  obtain ⟨deleted, -, h⟩ := bind_eq_ok h
  cases h
  refine List.mem_append_left _ ((mem_flatten_mapM hcreated).mpr ⟨q, hq, ?_⟩)
  unfold appear
  rw [deref_ok hother]
  refine ⟨_, if_neg (Bool.eq_false_iff.mp hdead), ?_⟩
  simp

/-- A message that its receiver is told about itself is between the player and itself. -/
theorem Between.eq_self {r : Nat} {third : Player} (h : Between w player q m)
    (happart : NamesApart w) (hp : w.players p = some player) (hr : w.players r = some third)
    (hto : third.sessionId = m.1) (habout : about m.2 = some third.playerId.characterId) :
    ∃ other, w.players p = some other ∧ other.isDead = false ∧ q = p := by
  obtain ⟨other, hother, halive, hends⟩ := h
  have hqp : q = p := by
    rcases hends with ⟨hplayer, hof⟩ | ⟨hother', hof⟩
    · obtain rfl := happart r p third player hr hp (Or.inl (hto.trans hplayer))
      cases hr.symm.trans hp
      exact happart q r other player hother hp (Or.inr (Option.some.inj (hof.symm.trans habout)))
    · obtain rfl := happart r q third other hr hother (Or.inl (hto.trans hother'))
      cases hr.symm.trans hother
      exact happart r p third player hr hp (Or.inr (Option.some.inj (habout.symm.trans hof)))
  subst hqp
  exact ⟨other, hother, halive, rfl⟩

/-- What `SectorUpdate` has done when it returns. -/
theorem sectorUpdate_eq_ok {prevX prevY : UInt16} (hp : w.players p = some player)
    (h : sectorUpdate g w p prevX prevY = .ok w') :
    ∃ prev curr msgs, g.getSectorIndex prevX.toNat prevY.toNat = some prev ∧
      g.getSectorIndex player.x.toNat player.y.toNat = some curr ∧
      sectorMessages g ((w.leave p prev).enter g p curr) p prevX prevY = .ok msgs ∧
      w' = ((w.leave p prev).enter g p curr).send msgs := by
  unfold sectorUpdate at h
  rw [deref_ok hp] at h
  obtain ⟨_, ⟨⟩, h⟩ := bind_eq_ok h
  obtain ⟨prev, hprev, h⟩ := bind_eq_ok h
  obtain ⟨curr, hcurr, h⟩ := bind_eq_ok h
  obtain ⟨msgs, hmsgs, h⟩ := bind_eq_ok h
  cases h
  exact ⟨prev, curr, msgs, outcome_sectorAt.of_ok hprev, outcome_sectorAt.of_ok hcurr, hmsgs, rfl⟩

/-! ## The player itself -/

/-- The player that moves is walked through only if its new tile is not around its old one. -/
theorem self_mem_walked {prev curr : Nat} {old : Pos}
    (hprev : g.getSectorIndex old.1.toNat old.2.toNat = some prev)
    (hcurr : g.getSectorIndex new.1.toNat new.2.toNat = some curr)
    (hsectors : ∀ k, p ∈ w.sectors k ↔ k = curr) :
    (p ∈ (sectorSets g old.1 old.2 new.1 new.2).2.flatMap w.sectors ↔ ¬g.Around prev curr) ∧
      p ∉ (sectorSets g old.1 old.2 new.1 new.2).1.flatMap w.sectors := by
  have hspec := @sectorSets_spec g new.1 new.2 old.1 old.2
  have htile := getSectorIndex_iff.mp hcurr
  have hown : curr ∈ g.view new.1 new.2 :=
    (mem_view hcurr htile).mpr ⟨⟨by omega, by omega⟩, by omega, by omega⟩
  constructor
  · rw [List.mem_flatMap]
    constructor
    · rintro ⟨k, hk, hp⟩ haround
      rw [(hsectors k).mp hp, hspec.right] at hk
      exact hk.2 ((mem_view hprev htile).mpr haround)
    · intro hfar
      refine ⟨curr, (hspec.right curr).mpr ⟨hown, fun hin => ?_⟩, (hsectors curr).mpr rfl⟩
      exact hfar ((mem_view hprev htile).mp hin)
  · rw [List.mem_flatMap]
    rintro ⟨k, hk, hp⟩
    rw [(hsectors k).mp hp, hspec.left] at hk
    exact hk.2 hown

/-- **No message about oneself.**  In every state of every run whose new players get fresh names, a
player that is in its own sector's set only and gets a position inside the grid is sent no message
about itself by `SectorUpdate`, nor is anybody else, exactly if it is dead or its new tile is among
those around its old one. -/
theorem run_noneAboutItself_iff {uniqueCharacterId : UInt32} {as : List Action}
    (hr : Run (fun w a w' => step g w a = .ok w') FreshNames (init uniqueCharacterId) as w)
    (hp : w.players p = some player) (hplaced : InSector g w p player)
    (hmoves : Moves w p player new w₁)
    (hupdate : sectorUpdate g w₁ p player.x player.y = .ok w₂) :
    NoneAboutItself w₁ w₂ ↔ player.isDead = true ∨
      ∀ prev curr, g.getSectorIndex player.x.toNat player.y.toNat = some prev →
        g.getSectorIndex new.1.toNat new.2.toNat = some curr → g.Around prev curr := by
  obtain ⟨moved, hmoved, rfl, hsame, hdead⟩ := hmoves.self
  obtain ⟨prev, -, hprev, hmem⟩ := hplaced
  obtain ⟨prev', curr, msgs, hindex, hcurr, hmsgs, rfl⟩ := sectorUpdate_eq_ok hmoved hupdate
  obtain rfl : prev = prev' := Option.some.inj (hprev.symm.trans hindex)
  -- the world the messages are made in
  generalize hw' : (w₁.leave p prev).enter g p curr = w' at hmsgs
  have hunsent : w'.sent = w₁.sent := by
    rw [← hw']
    rfl
  have happart : NamesApart w' := by
    rw [← hw']
    exact ((run_namesApart hr).moves hp hmoves).update
  have hself : w'.players p = some { moved with currentSector := some curr } := by
    rw [← hw', enter_players_self, leave_players_self, hmoved]
    rfl
  have hsectors : ∀ k, p ∈ w'.sectors k ↔ k = curr := by
    intro k
    rw [← hw', mem_sectors_enter, mem_sectors_leave, hmoves.sectors, hmem]
    simp
  obtain ⟨hcome, hgone⟩ := @self_mem_walked _ _ _ moved.pos _ _ player.pos hprev hcurr hsectors
  constructor
  · intro hquiet
    by_contra hnot
    rw [not_or, Bool.not_eq_true] at hnot
    obtain ⟨halive, hfar⟩ := hnot
    have hfar : ¬g.Around prev curr := by
      intro haround
      refine hfar fun prev' curr' h h' => ?_
      cases hprev.symm.trans h
      cases hcurr.symm.trans h'
      exact haround
    have hmem := shown_mem hself hmsgs (hcome.mpr hfar) hself (hdead.trans halive)
    exact hquiet msgs (congrArg (· ++ msgs) hunsent) _ hmem ⟨p, _, hself, rfl, rfl⟩
  · rintro hquiet msgs' hsent m hm ⟨r, third, hr, hsession, habout⟩
    obtain rfl : msgs = msgs' := by
      rw [← hunsent] at hsent
      exact List.append_cancel_left hsent
    obtain ⟨q, hq, hbetween⟩ := mem_sectorMessages hself hmsgs hm
    obtain ⟨other, hother, halive, rfl⟩ := hbetween.eq_self happart hself hr hsession habout
    cases hother.symm.trans hself
    rcases hquiet with hdied | haround
    · rw [hdead.trans hdied] at halive
      cases halive
    · rcases List.mem_append.mp hq with hq | hq
      · exact hcome.mp hq (haround prev curr hprev hcurr)
      · exact hgone hq

/-- The first player stands in the sector of its position. -/
theorem placed_create {uniqueCharacterId : UInt32} {id : SessionId} {randX randY : Nat}
    {now : Int32} {registered : Bool}
    (h : step g (init uniqueCharacterId) (.createNewPlayer id p randX randY now registered) = .ok w) :
    Placed g w :=
  have hok : PacketOk (fun _ _ => True) (TileKept g) (init uniqueCharacterId)
      (.createNewPlayer id p randX randY now registered) := trivial
  (placed_invariant.step (Placed.init uniqueCharacterId) hok).of_ok h

/-- A player walks from tile 0 into tile 1. -/
theorem run_noneAboutItself_iff_walk :
    ∃ w player w₂, Run (fun w a w' => step .appending w a = .ok w') FreshNames (init 0)
        [.createNewPlayer ⟨0, 1⟩ 1 126 0 0 true] w ∧
      w.players 1 = some player ∧
      sectorUpdate .appending (startStored w 1 player ⟨4, 130, 1⟩) 1 player.x player.y = .ok w₂ ∧
      NoneAboutItself (startStored w 1 player ⟨4, 130, 1⟩) w₂ := by
  obtain ⟨w, player, w₂, hstep, hp, hnear, hupdate⟩ : ∃ w player w₂,
      step .appending (init 0) (.createNewPlayer ⟨0, 1⟩ 1 126 0 0 true) = .ok w ∧
        w.players 1 = some player ∧
        (∀ prev curr, Grid.appending.getSectorIndex player.x.toNat player.y.toNat = some prev →
          Grid.appending.getSectorIndex (startPosition player ⟨4, 130, 1⟩).1.toNat
            (startPosition player ⟨4, 130, 1⟩).2.toNat = some curr →
          Grid.appending.Around prev curr) ∧
        sectorUpdate .appending (startStored w 1 player ⟨4, 130, 1⟩) 1 player.x player.y =
          .ok w₂ := by
    refine ⟨_, _, _, rfl, rfl, fun prev curr hprev hcurr => ?_, rfl⟩
    cases hprev
    cases hcurr
    decide
  have hr : Run (fun w a w' => step .appending w a = .ok w') FreshNames (init 0)
      [.createNewPlayer ⟨0, 1⟩ 1 126 0 0 true] w :=
    .cons hstep (fun _ _ hq => by cases hq) .nil
  have hplaced := placed_create hstep
  exact ⟨w, player, w₂, hr, hp, hupdate, (run_noneAboutItself_iff hr hp (hplaced.sector 1 player hp)
    (moves_startStored hp) hupdate).mpr (Or.inr hnear)⟩

/-- A player at the end of tile 0 starts 200 to the right, in tile 2, and is shown itself. -/
theorem jump_shows_itself :
    ∃ w player w₂ w', Run (fun w a w' => step .appending w a = .ok w') anyStep (init 0)
        [.createNewPlayer ⟨0, 1⟩ 1 126 0 0 true] w ∧
      w.players 1 = some player ∧ InSector .appending w 1 player ∧
      startPosition player ⟨4, 327, 1⟩ = (327, 1) ∧
      sectorUpdate .appending (startStored w 1 player ⟨4, 327, 1⟩) 1 player.x player.y = .ok w₂ ∧
      ¬NoneAboutItself (startStored w 1 player ⟨4, 327, 1⟩) w₂ ∧
      step .appending w (.packet ⟨⟨0, 1⟩, .ofBytes [4, 71, 1, 1, 0], 10⟩ ⟨0, 0, 0, 0⟩ 0) = .ok w' ∧
      (⟨0, 1⟩, .createOtherCharacter 1 4 327 1 100) ∈ w'.sent := by
  refine ⟨_, _, _, _, runFn_iff_run.mp rfl, rfl,
    (@placed_create .appending _ 1 0 ⟨0, 1⟩ 126 0 0 true rfl).sector 1 _ rfl, rfl, rfl, ?_,
    rfl, List.mem_cons_of_mem _ List.mem_cons_self⟩
  intro hquiet
  exact hquiet [(⟨0, 1⟩, .createOtherCharacter 1 4 327 1 100),
    (⟨0, 1⟩, .createOtherCharacter 1 4 327 1 100), (⟨0, 1⟩, .moveStart 1 4 327 1),
    (⟨0, 1⟩, .moveStart 1 4 327 1)] rfl _ List.mem_cons_self ⟨1, _, rfl, rfl, rfl⟩

end GameLogic

end IocpServer
