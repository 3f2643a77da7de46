import IocpServer.GameLogic.Pictures

/-!
# Who is portrayed to whom

A client gets `SC_CREATE_OTHER_CHARACTER` and perhaps `SC_MOVE_START` when a player comes into view,
a message for everything the player does there but the ticks, and `SC_DELETE_CHARACTER` when it
goes.

* `Coasted` — a moving player has gone on by some ticks since it was portrayed.
* `Portrayed` — exactly the players in view are portrayed, and every picture is right.
* `Portrayed.checkSector`, `Portrayed.broadcast`, `Portrayed.create` — **a sector check, a broadcast
  and a spawn keep it.**
-/

set_option autoImplicit false

namespace IocpServer

open Lib

namespace GameLogic

/-! ## Pictures of moving players -/

/-- The picture behind some ticks.  Only a player that moves is moved by them. -/
inductive Coasted (shown : Picture) : Picture → Prop
  | still : Coasted shown shown
  | tick {player : Player} (before : Coasted shown player.picture)
      (moving : player.isMoving = true) :
      Coasted shown { player.picture with
        x := (tickPosition player).1
        y := (tickPosition player).2 }

variable {g : Grid} {w w' w₁ w₂ : World} {p q i j : Nat} {player moved : Player}
  {session : SessionId} {id : UInt32} {shown now : Picture} {msgs created deleted : List Sending}
  {R S : Nat → Picture → Prop}

/-- All but the position is as it was shown. -/
theorem Coasted.same (h : Coasted shown now) :
    now.direction = shown.direction ∧ now.isMoving = shown.isMoving ∧ now.hp = shown.hp := by
  induction h with
  | still => exact ⟨rfl, rfl, rfl⟩
  | tick _ _ ih => exact ih

/-- A player that stands is where it was shown. -/
theorem Coasted.standing (h : Coasted shown now) (hstands : now.isMoving = false) :
    now = shown := by
  cases h with
  | still => rfl
  | tick _ moving => exact absurd (moving.symm.trans hstands) Bool.noConfusion

/-- A hit that both know of. -/
theorem Coasted.hurt (h : Coasted shown now) (hp : UInt8) :
    Coasted { shown with hp := hp } { now with hp := hp } := by
  induction h with
  | still => exact .still
  | @tick player _ moving ih => exact @Coasted.tick _ { player with hp := hp } ih moving

/-! ## The invariant -/

/-- What everybody could tell of a player. -/
structure Card where
  names : SessionId × UInt32
  picture : Picture
  isDead : Bool

def Player.card (player : Player) : Card := ⟨player.names, player.picture, player.isDead⟩

/-- Whoever is in view is portrayed and nobody else; `R` says which pictures are right. -/
structure Portrayed (g : Grid) (w : World) (R : Nat → Picture → Prop) : Prop where
  placed : Placed g w
  seen : ∀ p q session id i j, Pair (w.read Player.names) p q session id →
    w.sectorOf p = some i → w.sectorOf q = some j →
      ((pictureOf session id w.sent).isSome ↔ g.Around i j)
  right : ∀ p q session id shown, Pair (w.read Player.names) p q session id →
    pictureOf session id w.sent = some shown → R q shown

/-- The picture shows the player as it is, up to the ticks of its movement. -/
def UpToDate (w : World) (q : Nat) (shown : Picture) : Prop :=
  ∀ now, w.read Player.picture q = some now → Coasted shown now

/-- The two worlds agree on places, names and what the clients know. -/
structure SamePictures (w w' : World) : Prop where
  places : SamePlaces w w'
  names : w'.read Player.names = w.read Player.names
  pictures : ∀ p q session id, Pair (w.read Player.names) p q session id →
    pictureOf session id w'.sent = pictureOf session id w.sent

theorem read_part {α β : Type} {φ : Player → α} (part : α → β) (h : w'.read φ = w.read φ) :
    w'.read (part ∘ φ) = w.read (part ∘ φ) := by
  funext q
  have hq := congrArg (Option.map part) (congrFun h q)
  rwa [World.read, World.read, Option.map_map, Option.map_map] at hq

theorem names_of_card (h : w'.read Player.card = w.read Player.card) :
    w'.read Player.names = w.read Player.names :=
  read_part Card.names h

theorem picture_of_card (h : w'.read Player.card = w.read Player.card) :
    w'.read Player.picture = w.read Player.picture :=
  read_part Card.picture h

theorem dead_of_card (h : w'.read Player.card = w.read Player.card) :
    w'.read Player.isDead = w.read Player.isDead :=
  read_part Card.isDead h

theorem Portrayed.weaken (I : Portrayed g w R) (h : ∀ q shown, R q shown → S q shown) :
    Portrayed g w S :=
  ⟨I.placed, I.seen, fun p q session id shown P hshown =>
    h q shown (I.right p q session id shown P hshown)⟩

theorem Portrayed.same (I : Portrayed g w R) (h : SamePictures w w') : Portrayed g w' R := by
  refine ⟨I.placed.same h.places, fun p q session id i j P => ?_, fun p q session id shown P => ?_⟩
  all_goals
    rw [h.names] at P
    rw [h.pictures p q session id P]
  · rw [sectorOf_eq h.places]
    exact I.seen p q session id i j P
  · exact I.right p q session id shown P

/-- A player is met on a walk through some sectors if the walk comes to its own. -/
theorem Placed.mem_walk {L : List Nat} (hw : Placed g w) (hq : w.sectorOf q = some j) :
    q ∈ L.flatMap w.sectors ↔ j ∈ L := by
  obtain ⟨player, hp, hj⟩ := players_of_sectorOf hq
  obtain ⟨i, hi, -, -, hmem⟩ := hw.sectorOf hp
  rw [hj] at hi
  cases hi
  rw [List.mem_flatMap]
  constructor
  · rintro ⟨k, hk, hqk⟩
    exact (hmem k).mp hqk ▸ hk
  · intro hk
    exact ⟨j, hk, (hmem j).mpr rfl⟩

/-- Whoever is nearby has its sector around that of the player. -/
theorem Placed.mem_nearby (hw : Placed g w)
    (hi : g.getSectorIndex player.x.toNat player.y.toNat = some i) (hqp : q ≠ p)
    (hq : w.sectorOf q = some j) : q ∈ nearby g w p player i ↔ g.Around i j := by
  obtain ⟨r, c, htile⟩ := hw.onTile hq
  have hwalk : q ∈ nearby g w p player i ↔
      q ∈ (i :: g.around player.x player.y).flatMap w.sectors := by
    rw [nearby, List.flatMap_cons, List.mem_append, List.mem_append, List.mem_filter]
    simp [hqp]
  rw [hwalk, hw.mem_walk hq, ← (perm_view hi).mem_iff, mem_view hi htile]

theorem players_of_read {α : Type} {φ : Player → α} {value : α} (h : w.read φ q = some value) :
    ∃ other, w.players q = some other ∧ φ other = value :=
  Option.map_eq_some_iff.mp h

theorem Pair.sectors (P : Pair (w.read Player.names) p q session id) (hw : Placed g w) :
    ∃ i j, w.sectorOf p = some i ∧ w.sectorOf q = some j := by
  obtain ⟨own, hviewer⟩ := P.viewer
  obtain ⟨receiver, hsubject⟩ := P.subject
  obtain ⟨player, hp, -⟩ := players_of_read hviewer
  obtain ⟨other, hq, -⟩ := players_of_read hsubject
  obtain ⟨i, -, hi, -⟩ := hw.sectorOf hp
  obtain ⟨j, -, hj, -⟩ := hw.sectorOf hq
  exact ⟨i, j, hi, hj⟩

/-- Both promises, pair by pair. -/
theorem Portrayed.of_pairs (hw : Placed g w) (h : ∀ p q session id i j,
    Pair (w.read Player.names) p q session id → w.sectorOf p = some i → w.sectorOf q = some j →
      ((pictureOf session id w.sent).isSome ↔ g.Around i j) ∧
        ∀ shown, pictureOf session id w.sent = some shown → R q shown) : Portrayed g w R := by
  refine ⟨hw, fun p q session id i j P hp hq => (h p q session id i j P hp hq).1,
    fun p q session id shown P => ?_⟩
  obtain ⟨i, j, hp, hq⟩ := P.sectors hw
  exact (h p q session id i j P hp hq).2 shown

/-! ## Sector checks -/

/-- Who comes into view is portrayed, who goes is lost, and the other pictures stay. -/
theorem redraw {picture known : Option Picture} {old new : Prop}
    (hcreated : ActsIf (takeOver session id) (new ∧ ¬old) created fun _ => picture)
    (hdeleted : ActsIf (takeOver session id) (old ∧ ¬new) deleted fun _ => none)
    (hknown : known.isSome ↔ old) (hpicture : picture.isSome) :
    (((created ++ deleted).foldl (takeOver session id) known).isSome ↔ new) ∧
      ∀ shown, (created ++ deleted).foldl (takeOver session id) known = some shown →
        known = some shown ∨ picture = some shown := by
  rw [List.foldl_append]
  by_cases hold : old <;> by_cases hnew : new
  · rw [hcreated.idle fun h => h.2 hold, hdeleted.idle fun h => h.2 hnew]
    exact ⟨iff_of_true (hknown.mpr hold) hnew, fun shown => Or.inl⟩
  · rw [hdeleted.acts ⟨hold, hnew⟩]
    exact ⟨iff_of_false Bool.noConfusion hnew, fun shown h => by cases h⟩
  · rw [hcreated.acts ⟨hnew, hold⟩, hdeleted.idle fun h => hold h.1]
    exact ⟨iff_of_true hpicture hnew, fun shown => Or.inr⟩
  · rw [hcreated.idle fun h => hnew h.1, hdeleted.idle fun h => hold h.1]
    exact ⟨iff_of_false (mt hknown.mp hold) hnew, fun shown => Or.inl⟩

/-- One of the two has changed its sector; the other one's is `k`. -/
theorem redraw_view {picture known : Option Picture} {x y x' y' : UInt16} {prev curr k : Nat}
    {r c : Int}
    (hprev : g.getSectorIndex x.toNat y.toNat = some prev)
    (hcurr : g.getSectorIndex x'.toNat y'.toNat = some curr) (htile : g.OnTile k r c)
    (hcreated : ActsIf (takeOver session id) (k ∈ (sectorSets g x y x' y').2) created
      fun _ => picture)
    (hdeleted : ActsIf (takeOver session id) (k ∈ (sectorSets g x y x' y').1) deleted
      fun _ => none)
    (hknown : known.isSome ↔ g.Around prev k) (hpicture : picture.isSome) :
    (((created ++ deleted).foldl (takeOver session id) known).isSome ↔ g.Around curr k) ∧
      ∀ shown, (created ++ deleted).foldl (takeOver session id) known = some shown →
        known = some shown ∨ picture = some shown := by
  have d := @sectorSets_spec g x' y' x y
  refine redraw (hcreated.congr ?_) (hdeleted.congr ?_) hknown hpicture
  · rw [d.right, mem_view hprev htile, mem_view hcurr htile]
  · rw [d.left, mem_view hprev htile, mem_view hcurr htile]

/-- **A sector change** behind a stored position. -/
theorem Portrayed.update {prev curr : Nat} {pos : Pos} (I : Portrayed g w R)
    (hp : w.players p = some player)
    (hprev : g.getSectorIndex player.x.toNat player.y.toNat = some prev)
    (hcurr : g.getSectorIndex pos.1.toNat pos.2.toNat = some curr)
    (hsame : SamePictures (w.place p pos) w₁) (hw₂ : w₂ = (w₁.leave p prev).enter g p curr)
    (hself : w₂.players p = some moved) (hpos : moved.pos = pos) (hdead : NoneDead w₂)
    (hold : ∀ q shown, R q shown → S q shown)
    (hnew : ∀ q now, w₂.read Player.picture q = some now → S q now)
    (hmsgs : sectorMessages g w₂ p player.x player.y = .ok msgs) :
    Portrayed g (w₂.send msgs) S := by
  have hplaces : SamePlaces (((w.place p pos).leave p prev).enter g p curr) w₂ :=
    hw₂ ▸ hsame.places.leave.enter
  have hplaced : Placed g w₂ := (I.placed.update hp hprev hcurr).same hplaces
  have hnames : w₂.read Player.names = w.read Player.names := by
    rw [hw₂, read_enter fun _ _ => rfl, read_leave fun _ _ => rfl, hsame.names]
    exact read_modify fun _ => rfl
  have hsent : w₂.sent = w₁.sent := hw₂ ▸ rfl
  have hp₂ : w₂.sectorOf p = some curr := by
    rw [sectorOf_eq hplaces, World.sectorOf, enter_players_self, leave_players_self,
      place_players_self hp]
    rfl
  have hp₁ : w.sectorOf p = some prev := by
    obtain ⟨i, -, hi, hindex, -⟩ := I.placed.sectorOf hp
    cases hindex.symm.trans hprev
    exact hi
  have hother : ∀ q, q ≠ p → w₂.sectorOf q = w.sectorOf q := by
    intro q hq
    rw [sectorOf_eq hplaces, World.sectorOf, enter_players_ne hq, leave_players_ne hq,
      place_players_ne hq]
    rfl
  refine Portrayed.of_pairs (hplaced.same SamePlaces.refl.send) fun a b session id i j P ha hb => ?_
  replace P : Pair (w₂.read Player.names) a b session id := P
  replace ha : w₂.sectorOf a = some i := ha
  replace hb : w₂.sectorOf b = some j := hb
  have P₀ : Pair (w.read Player.names) a b session id := hnames ▸ P
  have hknown : pictureOf session id w₂.sent = pictureOf session id w.sent := by
    have hplace : (w.place p pos).read Player.names = w.read Player.names :=
      read_modify fun _ => rfl
    rw [hsent]
    exact hsame.pictures a b session id (hplace ▸ P₀)
  obtain ⟨created, deleted, rfl, hcreated, hdeleted⟩ :=
    (outcome_sectorMessages_acts P hself hdead).of_ok hmsgs
  have hpicture : (w₂.read Player.picture b).isSome := by
    obtain ⟨other, hb, -⟩ := players_of_sectorOf hb
    rw [read_eq_some hb]
    rfl
  have hx : moved.x = pos.1 := congrArg Prod.fst hpos
  have hy : moved.y = pos.2 := congrArg Prod.snd hpos
  rw [hx, hy] at hcreated hdeleted
  have hright : ∀ shown, pictureOf session id w.sent = some shown ∨
      w₂.read Player.picture b = some shown → S b shown := by
    rintro shown (h | h)
    · exact hold b shown (I.right a b session id shown P₀ h)
    · exact hnew b shown h
  show ((pictureOf session id (w₂.sent ++ (created ++ deleted))).isSome ↔ _) ∧ ∀ shown,
    pictureOf session id (w₂.sent ++ (created ++ deleted)) = some shown → _
  rw [pictureOf_append, hknown]
  -- which of the two has moved, if one of them has
  by_cases hap : a = p
  · subst hap
    rw [hp₂] at ha
    cases ha
    have hb₀ : w.sectorOf b = some j := (hother b P.ne.symm).symm.trans hb
    obtain ⟨r, c, htile⟩ := hplaced.onTile hb
    have hmeets : ∀ L : List Nat, Meets a b a (L.flatMap w₂.sectors) ↔ j ∈ L := by
      intro L
      rw [Meets, hplaced.mem_walk hb]
      simp [P.ne]
    obtain ⟨hseen, hshown⟩ := redraw_view hprev hcurr htile (hcreated.congr (hmeets _).symm)
      (hdeleted.congr (hmeets _).symm) (I.seen a b session id prev j P₀ hp₁ hb₀) hpicture
    exact ⟨hseen, fun shown h => hright shown (hshown shown h)⟩
  · by_cases hbp : b = p
    · subst hbp
      rw [hp₂] at hb
      cases hb
      have ha₀ : w.sectorOf a = some i := (hother a hap).symm.trans ha
      obtain ⟨r, c, htile⟩ := hplaced.onTile ha
      have hmeets : ∀ L : List Nat, Meets a b b (L.flatMap w₂.sectors) ↔ i ∈ L := by
        intro L
        rw [Meets, hplaced.mem_walk ha]
        simp [P.ne.symm]
      obtain ⟨hseen, hshown⟩ := redraw_view hprev hcurr htile (hcreated.congr (hmeets _).symm)
        (hdeleted.congr (hmeets _).symm)
        ((I.seen a b session id i prev P₀ ha₀ hp₁).trans around_comm) hpicture
      exact ⟨hseen.trans around_comm, fun shown h => hright shown (hshown shown h)⟩
    · have hmeets : ∀ players, ¬Meets a b p players := by
        rintro players (⟨h, -⟩ | ⟨h, -⟩)
        · exact hap h.symm
        · exact hbp h.symm
      rw [List.foldl_append, hcreated.idle (hmeets _), hdeleted.idle (hmeets _)]
      exact ⟨I.seen a b session id i j P₀ (hother a hap ▸ ha) (hother b hbp ▸ hb),
        fun shown h => hright shown (Or.inl h)⟩

/-- A position in the same tile is stored. -/
theorem Portrayed.place {pos : Pos} (I : Portrayed g w R) (hp : w.players p = some player)
    (htile : g.getSectorIndex pos.1.toNat pos.2.toNat =
      g.getSectorIndex player.x.toNat player.y.toNat) : Portrayed g (w.place p pos) R := by
  have hnames : (w.place p pos).read Player.names = w.read Player.names :=
    read_modify fun _ => rfl
  have hsector : (w.place p pos).sectorOf = w.sectorOf := by
    funext q
    by_cases hq : q = p
    · subst hq
      rw [World.sectorOf, World.sectorOf, place_players_self hp, hp]
      rfl
    · rw [World.sectorOf, World.sectorOf, place_players_ne hq]
  refine ⟨I.placed.place hp htile, ?_, ?_⟩
  · rw [hnames, hsector]
    exact I.seen
  · rw [hnames]
    exact I.right

/-- **The sector is checked** behind a stored position. -/
theorem Portrayed.checkSector {pos : Pos} (I : Portrayed g w R) (hp : w.players p = some player)
    (hsame : SamePictures (w.place p pos) w₁) (hdead : NoneDead w₁)
    (hold : ∀ q shown, R q shown → S q shown)
    (hnew : ∀ q now, w₁.read Player.picture q = some now → S q now) :
    Outcome (fun w' => Portrayed g w' S ∧ w'.read Player.card = w₁.read Player.card)
      (fun _ => True) (checkSector g w₁ p player.x player.y) := by
  have hspot := hsame.places.spots p
  rw [place_players_self hp] at hspot
  obtain ⟨moved, hmoved, heq⟩ := Option.map_eq_some_iff.mp hspot
  simp only [Player.spot, Spot.mk.injEq] at heq
  obtain ⟨hx, hy, hsector, -⟩ := heq
  unfold GameLogic.checkSector
  rw [deref_ok hmoved]
  have hat : ∀ x y : UInt16, Outcome (fun i => g.getSectorIndex x.toNat y.toNat = some i)
      (fun _ => True) (g.sectorAt x.toNat y.toNat) := fun x y =>
    outcome_sectorAt.weaken (fun _ h => h) fun _ _ => trivial
  apply (hat moved.x moved.y).bind
  intro curr hcurr
  apply Outcome.ite
  · intro _
    unfold sectorUpdate
    rw [deref_ok hmoved]
    apply (hat player.x player.y).bind
    intro prev hprev
    apply (hat moved.x moved.y).bind
    intro curr' hcurr'
    have hself : ((w₁.leave p prev).enter g p curr').players p =
        some { moved with currentSector := some curr' } := by
      rw [enter_players_self, leave_players_self, hmoved]
      rfl
    have hcard : ((w₁.leave p prev).enter g p curr').read Player.card = w₁.read Player.card := by
      rw [read_enter fun _ _ => rfl, read_leave fun _ _ => rfl]
    refine Outcome.bind (P := fun msgs => sectorMessages g ((w₁.leave p prev).enter g p curr') p
      player.x player.y = .ok msgs) (outcome_of_ok fun _ h => h) fun msgs hmsgs => ⟨?_, hcard⟩
    refine I.update hp hprev (hx ▸ hy ▸ hcurr') hsame rfl hself (Prod.ext hx hy)
      (noneDead_of_read (dead_of_card hcard) hdead) hold ?_ hmsgs
    rw [picture_of_card hcard]
    exact hnew
  · intro hstays
    rw [not_not, hsector] at hstays
    obtain ⟨i, hi, -, hindex, -⟩ := I.placed.sectorOf hp
    cases hi.symm.trans hstays
    rw [hx, hy] at hcurr
    exact ⟨((I.weaken hold).place hp (hcurr.trans hindex.symm)).same hsame, rfl⟩

/-! ## Broadcasts -/

/-- **A broadcast about the player at `p`.**  It reaches everybody who has a picture of it. -/
theorem Portrayed.broadcast {msg : ScMessage} {sendMe : Bool} {h : Picture → Picture}
    (I : Portrayed g w R) (hp : w.players p = some player) (hdead : player.isDead = false)
    (hmsg : change msg = some (player.playerId.characterId, Option.map h))
    (hh : ∀ shown, h (h shown) = h shown) (hothers : ∀ q shown, q ≠ p → R q shown → S q shown)
    (hself : ∀ shown, R p shown → S p (h shown)) :
    Outcome (fun msgs => Portrayed g (w.send msgs) S) (fun _ => True)
      (sendAOI g w p msg sendMe) := by
  obtain ⟨i, hcurrent, hi, hindex, -⟩ := I.placed.sectorOf hp
  refine outcome_of_ok fun msgs hmsgs => ?_
  refine Portrayed.of_pairs (I.placed.same SamePlaces.refl.send)
    fun a b session id k j P ha hb => ?_
  replace P : Pair (w.read Player.names) a b session id := P
  have hacts := (outcome_sendAOI_acts P hp hdead hcurrent hmsg fun known => by
    cases known <;> simp [hh]).of_ok hmsgs
  have hseen := I.seen a b session id k j P ha hb
  have hright := I.right a b session id
  show ((pictureOf session id (w.sent ++ msgs)).isSome ↔ _) ∧ ∀ shown,
    pictureOf session id (w.sent ++ msgs) = some shown → _
  rw [pictureOf_append]
  by_cases hbp : b = p
  · subst hbp
    cases hknown : pictureOf session id w.sent with
    | none =>
      rw [hknown] at hseen
      have hnone : msgs.foldl (takeOver session id) none = none := by
        by_cases hc : b = b ∧ a ∈ nearby g w b player i
        · exact hacts.acts hc none
        · exact hacts.idle hc none
      rw [hnone]
      exact ⟨hseen, fun shown hshown => by cases hshown⟩
    | some shown =>
      rw [hknown] at hseen
      have haround := hseen.mp rfl
      cases hi.symm.trans hb
      have hnear : a ∈ nearby g w b player i :=
        (I.placed.mem_nearby hindex P.ne ha).mpr (around_comm.mp haround)
      rw [hacts.acts ⟨rfl, hnear⟩]
      refine ⟨hseen, fun shown' hshown => ?_⟩
      cases hshown
      exact hself shown (hright shown P hknown)
  · rw [hacts.idle fun hc => hbp hc.1.symm]
    exact ⟨hseen, fun shown hshown => hothers b shown hbp (hright shown P hshown)⟩

/-! ## Spawns -/

/-- Nobody has a picture of a player that has just come, nor has that player one. -/
theorem Pair.unknown (P : Pair (w₁.read Player.names) p q session id)
    (hknown : ∀ m ∈ w.sent, Known w m) (hfresh : w.players p = none ∨ w.players q = none)
    (hnames : ∀ r names, w.read Player.names r = some names →
      w₁.read Player.names r = some names) :
    pictureOf session id w.sent = none := by
  refine pictureOf_none fun m hm => ?_
  obtain ⟨⟨r, third, hr, hsession⟩, hnamed⟩ := hknown m hm
  rcases hfresh with hp | hq
  · refine Or.inl fun hto => ?_
    rw [← hto, ← hsession] at P
    obtain rfl := P.session r _ (hnames r _ (read_eq_some hr))
    cases hp.symm.trans hr
  · refine Or.inr fun hmem => ?_
    obtain ⟨s, fourth, hs, hid⟩ := hnamed id hmem
    rw [← hid] at P
    obtain rfl := P.id s _ (hnames s _ (read_eq_some hs))
    cases hq.symm.trans hs

/-- **A new player.** -/
theorem Portrayed.create (I : Portrayed g w R) (hknown : ∀ m ∈ w.sent, Known w m)
    (hp : w.players p = none) (hw₁ : Placed g w₁) (hself : w₁.players p = some player)
    (hother : ∀ q, q ≠ p → w₁.players q = w.players q)
    (hsent : ∀ session id, pictureOf session id w₁.sent = pictureOf session id w.sent)
    (hstands : player.isMoving = false) (hdead : NoneDead w₁)
    (hold : ∀ q shown, q ≠ p → R q shown → S q shown)
    (hnew : ∀ q now, w₁.read Player.picture q = some now → S q now) :
    Outcome (fun msgs => Portrayed g (w₁.send msgs) S) (fun _ => True)
      (makeSectorSpawnPackets g w₁ p) := by
  obtain ⟨i, hcurrent, hi, hindex, -⟩ := hw₁.sectorOf hself
  refine outcome_of_ok fun msgs hmsgs => ?_
  refine Portrayed.of_pairs (hw₁.same SamePlaces.refl.send) fun a b session id k j P ha hb => ?_
  replace P : Pair (w₁.read Player.names) a b session id := P
  replace ha : w₁.sectorOf a = some k := ha
  replace hb : w₁.sectorOf b = some j := hb
  have hnames : ∀ r names, w.read Player.names r = some names →
      w₁.read Player.names r = some names := by
    intro r names hr
    obtain ⟨third, hthird, rfl⟩ := players_of_read hr
    refine read_eq_some ((hother r ?_).trans hthird)
    rintro rfl
    cases hp.symm.trans hthird
  have hacts := (outcome_makeSectorSpawnPackets_acts P hself hstands hdead hcurrent).of_ok hmsgs
  obtain ⟨other, hb', -⟩ := players_of_sectorOf hb
  have hpicture := read_eq_some (φ := Player.picture) hb'
  show ((pictureOf session id (w₁.sent ++ msgs)).isSome ↔ _) ∧ ∀ shown,
    pictureOf session id (w₁.sent ++ msgs) = some shown → _
  rw [pictureOf_append, hsent]
  -- the new player is one of the two, or nothing is new to the pair
  have hmet : ∀ near : Prop, (w.players a = none ∨ w.players b = none) →
      (Meets a b p (nearby g w₁ p player i) ↔ near) →
      ((msgs.foldl (takeOver session id) (pictureOf session id w.sent)).isSome ↔ near) ∧
        ∀ shown, msgs.foldl (takeOver session id) (pictureOf session id w.sent) = some shown →
          S b shown := by
    intro near hfresh hmeets
    rw [P.unknown hknown hfresh hnames]
    by_cases hnear : near
    · rw [hacts.acts (hmeets.mpr hnear), hpicture]
      exact ⟨iff_of_true rfl hnear, fun shown hshown => hnew b shown (hpicture.trans hshown)⟩
    · rw [hacts.idle (mt hmeets.mp hnear)]
      exact ⟨iff_of_false Bool.noConfusion hnear, fun shown hshown => by cases hshown⟩
  by_cases hap : a = p
  · subst hap
    cases hi.symm.trans ha
    refine hmet _ (Or.inl hp) ?_
    rw [Meets, hw₁.mem_nearby hindex P.ne.symm hb]
    simp [P.ne]
  · by_cases hbp : b = p
    · subst hbp
      cases hi.symm.trans hb
      refine hmet _ (Or.inr hp) ?_
      rw [Meets, hw₁.mem_nearby hindex P.ne ha]
      simp [P.ne.symm, around_comm (i := k)]
    · have hold' : ∀ {r : Nat}, r ≠ p → w₁.sectorOf r = w.sectorOf r := fun hr => by
        rw [World.sectorOf, hother _ hr]
        rfl
      have hread : ∀ {r : Nat}, r ≠ p → w₁.read Player.names r = w.read Player.names r :=
        fun hr => by
          rw [World.read, hother _ hr]
          rfl
      have P₀ : Pair (w.read Player.names) a b session id :=
        ⟨P.ne, hread hap ▸ P.viewer, hread hbp ▸ P.subject,
          fun r own hr => P.session r own (hnames r _ hr),
          fun r receiver hr => P.id r receiver (hnames r _ hr)⟩
      rw [hold' hap] at ha
      rw [hold' hbp] at hb
      rw [hacts.idle]
      · exact ⟨I.seen a b session id k j P₀ ha hb,
          fun shown hshown => hold b shown hbp (I.right a b session id shown P₀ hshown)⟩
      · rintro (⟨h, -⟩ | ⟨h, -⟩)
        · exact hap h.symm
        · exact hbp h.symm

end GameLogic

end IocpServer
