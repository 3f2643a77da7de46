import IocpServer.GameLogic.Neighbourhood
import IocpServer.GameLogic.Places
import Mathlib.Data.List.Count

/-!
# What the calls show to whom

A client is shown another player by `SC_CREATE_OTHER_CHARACTER` and loses it by
`SC_DELETE_CHARACTER`.  Both carry the character id and go to a session; `Seen` says which player is
meant, and `Tells` that a list of messages says what a list of such entries says.

* `count_messages` — between players whose names are nobody else's the entries count messages.
* `balance_met_create`, `balance_met_delete`, `balance_spawned` — what one pass over a list of
  players adds for a pair of players.
* `outcome_makeSectorSpawnPackets_tells`, `outcome_sectorMessages_tells` — **what a spawn and a
  sector change show and take away.**
-/

set_option autoImplicit false

namespace IocpServer

open Lib

namespace GameLogic

inductive Sight where
  | create
  | delete
  deriving DecidableEq

/-- The player at `viewer` is shown the one at `subject`, or loses it. -/
structure Seen where
  sight : Sight
  viewer : Nat
  subject : Nat
  deriving DecidableEq

/-- Session, creation or deletion, and character id of such a message. -/
def sightOf : Sending → Option (SessionId × Sight × UInt32)
  | (session, .createOtherCharacter id _ _ _ _) => some (session, .create, id)
  | (session, .deleteCharacter id) => some (session, .delete, id)
  | _ => none

/-- A field of the allocated players. -/
def World.read {α : Type} (w : World) (φ : Player → α) (p : Nat) : Option α := (w.players p).map φ

/-- What the messages call a player. -/
def Player.names (player : Player) : SessionId × UInt32 :=
  (player.sessionId, player.playerId.characterId)

/-- The entry in the words of a message. -/
def Seen.resolve (names : Nat → Option (SessionId × UInt32)) (e : Seen) :
    Option (SessionId × Sight × UInt32) :=
  match names e.viewer, names e.subject with
  | some viewer, some subject => some (viewer.1, e.sight, subject.2)
  | _, _ => none

/-- The messages about creations and deletions are those of the log, of allocated players. -/
def Tells (names : Nat → Option (SessionId × UInt32)) (log : List Seen) (msgs : List Sending) :
    Prop :=
  (msgs.filterMap sightOf).map some = log.map (Seen.resolve names)

/-- How often `q` has been shown to `p` more than taken away. -/
def balance (log : List Seen) (p q : Nat) : Int :=
  log.count ⟨.create, p, q⟩ - log.count ⟨.delete, p, q⟩

def NoneDead (w : World) : Prop :=
  ∀ p player, w.players p = some player → player.isDead = false

/-! ## Fields that stay -/

variable {g : Grid} {w w' : World} {p q i : Nat} {player other : Player} {f : Player → Player}
  {msgs msgs' : List Sending} {log log' : List Seen} {names : Nat → Option (SessionId × UInt32)}

section

variable {α : Type} {φ : Player → α}

theorem read_modify (hf : ∀ player, φ (f player) = φ player) :
    (w.modify p f).read φ = w.read φ := by
  funext q
  unfold World.read
  by_cases hq : q = p
  · subst hq
    rw [modify_players_self, Option.map_map]
    congr 1
    funext player
    exact hf player
  · rw [modify_players_ne hq]

/-- The write is known for the player it is made to. -/
theorem read_modify_at (hp : w.players p = some player) (hf : φ (f player) = φ player) :
    (w.modify p f).read φ = w.read φ := by
  funext q
  unfold World.read
  by_cases hq : q = p
  · subst hq
    rw [modify_players_self, hp]
    exact congrArg some hf
  · rw [modify_players_ne hq]

theorem read_enter (hφ : ∀ (player : Player) i, φ { player with currentSector := i } = φ player) :
    (w.enter g p i).read φ = w.read φ :=
  (read_modify fun player => hφ player _ :)

theorem read_leave (hφ : ∀ (player : Player) i, φ { player with currentSector := i } = φ player) :
    (w.leave p i).read φ = w.read φ :=
  (read_modify fun player => hφ player _ :)

theorem read_eq_some (hp : w.players p = some player) : w.read φ p = some (φ player) := by
  rw [World.read, hp]
  rfl

end

theorem noneDead_of_read (h : w'.read Player.isDead = w.read Player.isDead) (hw : NoneDead w) :
    NoneDead w' := by
  intro p player hp
  have hread := congrFun h p
  rw [read_eq_some hp] at hread
  obtain ⟨player', hp', hdead⟩ := Option.map_eq_some_iff.mp hread.symm
  exact hdead.symm.trans (hw p player' hp')

/-! ## Messages and the log -/

theorem Tells.append (h : Tells names log msgs) (h' : Tells names log' msgs') :
    Tells names (log ++ log') (msgs ++ msgs') := by
  unfold Tells at *
  rw [List.filterMap_append, List.map_append, List.map_append, h, h']

/-- Other messages say nothing. -/
theorem Tells.quiet (h : ∀ m ∈ msgs, sightOf m = none) : Tells names [] msgs := by
  unfold Tells
  rw [List.filterMap_eq_nil_iff.mpr h]
  rfl

theorem Tells.append_quiet (h : Tells names log msgs) (h' : ∀ m ∈ msgs', sightOf m = none) :
    Tells names log (msgs ++ msgs') := by
  have hboth := h.append (@Tells.quiet _ names h')
  rwa [List.append_nil] at hboth

theorem Tells.flatMap {F : Nat → List Seen} {l : List Nat} {parts : List (List Sending)}
    (h : List.Forall₂ (fun q msgs => Tells names (F q) msgs) l parts) :
    Tells names (l.flatMap F) parts.flatten := by
  induction h with
  | nil => rfl
  | cons hq _ ih => exact hq.append ih

theorem Tells.map {F : Nat → Seen} {l : List Nat}
    (h : List.Forall₂ (fun q m => Tells names [F q] [m]) l msgs) : Tells names (l.map F) msgs := by
  induction h with
  | nil => rfl
  | cons hq _ ih => exact hq.append ih

/-- The log speaks of allocated players only. -/
theorem Tells.known {e : Seen} (h : Tells names log msgs) (he : e ∈ log) :
    names e.viewer ≠ none ∧ names e.subject ≠ none := by
  have hmem : e.resolve names ∈ log.map (Seen.resolve names) := List.mem_map_of_mem he
  rw [← h] at hmem
  obtain ⟨told, -, hsome⟩ := List.mem_map.mp hmem
  unfold Seen.resolve at hsome
  split at hsome
  · rename_i hviewer hsubject
    rw [hviewer, hsubject]
    exact ⟨Option.some_ne_none _, Option.some_ne_none _⟩
  · cases hsome

theorem resolve_eq {e : Seen} (hp : w.players e.viewer = some player)
    (hq : w.players e.subject = some other) :
    e.resolve (w.read Player.names) =
      some (player.sessionId, e.sight, other.playerId.characterId) := by
  rw [Seen.resolve, read_eq_some hp, read_eq_some hq]
  rfl

/-- Names that are nobody else's tell which entries a message stands for. -/
theorem count_messages {sight : Sight} (h : Tells (w.read Player.names) log msgs)
    (hp : w.players p = some player) (hq : w.players q = some other)
    (hsession : ∀ r third, w.players r = some third → third.sessionId = player.sessionId → r = p)
    (hid : ∀ r third, w.players r = some third →
      third.playerId.characterId = other.playerId.characterId → r = q) :
    (msgs.filterMap sightOf).count (player.sessionId, sight, other.playerId.characterId) =
      log.count ⟨sight, p, q⟩ := by
  rw [← List.count_map_of_injective _ some (Option.some_injective _), h, List.count_eq_countP,
    List.countP_map, List.count_eq_countP]
  refine List.countP_congr fun e he => ?_
  obtain ⟨hviewer, hsubject⟩ := h.known he
  have hresolve : ∀ r, w.read Player.names r ≠ none → ∃ third, w.players r = some third := by
    intro r hr
    cases hthird : w.players r with
    | none => rw [World.read, hthird] at hr; exact absurd rfl hr
    | some third => exact ⟨third, rfl⟩
  obtain ⟨viewer, hv⟩ := hresolve _ hviewer
  obtain ⟨subject, hs⟩ := hresolve _ hsubject
  rw [Function.comp_apply, resolve_eq hv hs, beq_iff_eq, beq_iff_eq, Option.some.injEq,
    Prod.mk.injEq, Prod.mk.injEq]
  constructor
  · rintro ⟨hsame, rfl, hchar⟩
    obtain rfl := hsession _ _ hv hsame
    obtain rfl := hid _ _ hs hchar
    rfl
  · rintro rfl
    rw [hp] at hv
    rw [hq] at hs
    cases hv
    cases hs
    exact ⟨rfl, rfl, rfl⟩

/-! ## What a pass adds -/

/-- Both players of every pair are shown to each other, or lose each other. -/
def met (sight : Sight) (p : Nat) (players : List Nat) : List Seen :=
  players.flatMap fun q => [⟨sight, p, q⟩, ⟨sight, q, p⟩]

/-- How often the pair is met on a pass of `p` over a list of players. -/
def meetings (p : Nat) (players : List Nat) (a b : Nat) : Nat :=
  if a = p then players.count b else if b = p then players.count a else 0

theorem count_met {sight sight' : Sight} {players : List Nat} {a b : Nat} (hab : a ≠ b) :
    (met sight p players).count ⟨sight', a, b⟩ =
      if sight = sight' then meetings p players a b else 0 := by
  induction players with
  | nil => simp [met, meetings]
  | cons q players ih =>
    have hcons : met sight p (q :: players) =
        [⟨sight, p, q⟩, ⟨sight, q, p⟩] ++ met sight p players := rfl
    rw [hcons, List.count_append, ih]
    simp only [meetings, List.count_cons, List.count_nil, beq_iff_eq, Seen.mk.injEq]
    grind

theorem balance_append {a b : Nat} :
    balance (log ++ log') a b = balance log a b + balance log' a b := by
  simp only [balance, List.count_append]
  omega

theorem balance_met_create {players : List Nat} {a b : Nat} (hab : a ≠ b) :
    balance (met .create p players) a b = meetings p players a b := by
  rw [balance, count_met hab, count_met hab, if_pos rfl, if_neg (by decide)]
  omega

theorem balance_met_delete {players : List Nat} {a b : Nat} (hab : a ≠ b) :
    balance (met .delete p players) a b = -meetings p players a b := by
  rw [balance, count_met hab, count_met hab, if_pos rfl, if_neg (by decide)]
  omega

/-! ## What the calls tell -/

theorem outcome_deref_some : Outcome (fun player => w.players p = some player) (fun _ => True)
    (w.deref p) := by
  unfold World.deref
  split
  · trivial
  · assumption

/-- Everybody in the sector of `p` and in those around it, but `p`. -/
def nearby (g : Grid) (w : World) (p : Nat) (player : Player) (i : Nat) : List Nat :=
  (w.sectors i).filter (· ≠ p) ++ (g.around player.x player.y).flatMap w.sectors

theorem sector_eq (hi : player.currentSector = some i) : player.sector = .ok i := by
  rw [Player.sector, hi]

theorem sendAOI_eq {msg : ScMessage} (hp : w.players p = some player)
    (hdead : player.isDead = false) (hi : player.currentSector = some i) :
    sendAOI g w p msg false = (nearby g w p player i).mapM fun q => do
      let other ← w.deref q
      return (other.sessionId, msg) := by
  have hhere : ((w.sectors i).filter fun q => !(player.isDead || (!false && decide (q = p)))) =
      (w.sectors i).filter (· ≠ p) := by
    simp only [hdead, Bool.false_or, Bool.not_false, Bool.true_and, ne_eq, decide_not]
  have haround : (((g.around player.x player.y).flatMap w.sectors).filter
      fun _ => !player.isDead) = (g.around player.x player.y).flatMap w.sectors := by
    rw [hdead]
    exact List.filter_true _
  unfold sendAOI
  rw [deref_ok hp]
  show (player.sector >>= _) = _
  rw [sector_eq hi]
  show (List.mapM _ (_ ++ _)) = _
  rw [hhere, haround]
  rfl

/-- A broadcast that shows nobody to anybody. -/
theorem outcome_sendAOI_quiet {msg : ScMessage} {sendMe : Bool}
    (hmsg : ∀ session, sightOf (session, msg) = none) :
    Outcome (fun msgs => ∀ m ∈ msgs, sightOf m = none) (fun _ => True)
      (sendAOI g w p msg sendMe) := by
  apply outcome_deref_some.bind
  intro player _
  apply outcome_any.bind
  intro i _
  have hall : ∀ {l : List Nat} {msgs : List Sending},
      List.Forall₂ (fun _ m => sightOf m = none) l msgs → ∀ m ∈ msgs, sightOf m = none := by
    intro l msgs h
    induction h with
    | nil => exact fun m hm => absurd hm List.not_mem_nil
    | cons hq _ ih =>
      intro m hm
      rcases List.mem_cons.mp hm with rfl | hm
      · exact hq
      · exact ih m hm
  refine Outcome.weaken (Outcome.forall₂ fun q _ => ?_) (fun _ h => hall h) fun _ h => h
  apply outcome_deref_some.bind
  intro other _
  exact hmsg other.sessionId

/-- A player is shown to everybody near it. -/
theorem outcome_sendAOI_create {direction hp : UInt8} {x y : UInt16}
    (hplayer : w.players p = some player) (hdead : player.isDead = false)
    (hi : player.currentSector = some i) :
    Outcome (Tells (w.read Player.names) ((nearby g w p player i).map fun q => ⟨.create, q, p⟩))
      (fun _ => True)
      (sendAOI g w p (.createOtherCharacter player.playerId.characterId direction x y hp)
        false) := by
  rw [sendAOI_eq hplayer hdead hi]
  refine Outcome.weaken (Outcome.forall₂ fun q _ => ?_) (fun _ h => Tells.map h) fun _ h => h
  apply outcome_deref_some.bind
  intro other hother
  show [some _] = [_]
  rw [resolve_eq hother hplayer]

/-- Nothing but a creation of `q` for `p`, whether `q` moves or not. -/
theorem outcome_introduce_tells {q : Nat} (hp : w.players p = some player) (hdead : NoneDead w) :
    Outcome (Tells (w.read Player.names) [⟨.create, p, q⟩]) (fun _ => True)
      (introduce w player q) := by
  apply outcome_deref_some.bind
  intro other hq
  dsimp only
  rw [hdead q other hq, if_neg Bool.false_ne_true]
  have htold : Tells (w.read Player.names) [⟨.create, p, q⟩] [(player.sessionId,
      .createOtherCharacter other.playerId.characterId other.direction other.x other.y
        other.hp)] := by
    show [some _] = [_]
    rw [resolve_eq hp hq]
  refine htold.append_quiet fun m hm => ?_
  split at hm
  · rw [List.mem_singleton.mp hm]
    rfl
  · exact absurd hm List.not_mem_nil

theorem outcome_sendAOIToSelf_tells (hp : w.players p = some player) (hdead : NoneDead w)
    (hi : player.currentSector = some i) :
    Outcome (Tells (w.read Player.names)
        ((nearby g w p player i).flatMap fun q => [⟨.create, p, q⟩])) (fun _ => True)
      (sendAOIToSelf g w p) := by
  unfold sendAOIToSelf
  rw [deref_ok hp]
  show Outcome _ _ (player.sector >>= _)
  rw [sector_eq hi]
  refine Outcome.bind (P := fun parts => List.Forall₂ (fun q msgs =>
    Tells (w.read Player.names) [⟨.create, p, q⟩] msgs) (nearby g w p player i) parts) ?_ ?_
  · exact Outcome.forall₂ fun q _ => outcome_introduce_tells hp hdead
  · intro parts hparts
    exact Tells.flatMap hparts

/-- What a new player's neighbours and the player itself are shown. -/
def spawned (p : Nat) (players : List Nat) : List Seen :=
  (players.map fun q => ⟨.create, q, p⟩) ++ players.flatMap fun q => [⟨.create, p, q⟩]

theorem balance_spawned {players : List Nat} {a b : Nat} (hab : a ≠ b) :
    balance (spawned p players) a b = meetings p players a b := by
  have hperm : (spawned p players).Perm (met .create p players) :=
    (List.map_append_flatMap_perm players _ _).trans
      (List.Perm.flatMap_left players fun q _ => List.Perm.swap _ _ _)
  rw [← balance_met_create hab, balance, balance, hperm.count_eq, hperm.count_eq]

theorem outcome_makeSectorSpawnPackets_tells (hp : w.players p = some player) (hdead : NoneDead w)
    (hi : player.currentSector = some i) :
    Outcome (Tells (w.read Player.names) (spawned p (nearby g w p player i))) (fun _ => True)
      (makeSectorSpawnPackets g w p) := by
  unfold makeSectorSpawnPackets
  rw [deref_ok hp]
  apply (outcome_sendAOI_create hp (hdead p player hp) hi).bind
  intro msgs hmsgs
  apply (outcome_sendAOIToSelf_tells hp hdead hi).bind
  intro own hown
  exact hmsgs.append hown

/-- `q` and `p` come into each other's view. -/
theorem outcome_appear_tells {q : Nat} (hp : w.players p = some player) (hdead : NoneDead w) :
    Outcome (Tells (w.read Player.names) [⟨.create, p, q⟩, ⟨.create, q, p⟩]) (fun _ => True)
      (appear w player q) := by
  apply outcome_deref_some.bind
  intro other hq
  dsimp only
  rw [hdead q other hq, if_neg Bool.false_ne_true]
  have htold : Tells (w.read Player.names) [⟨.create, p, q⟩, ⟨.create, q, p⟩]
      [(player.sessionId, .createOtherCharacter other.playerId.characterId other.direction
        other.x other.y other.hp),
      (other.sessionId, .createOtherCharacter player.playerId.characterId player.direction
        player.x player.y player.hp)] := by
    show [some _, some _] = [_, _]
    rw [resolve_eq hp hq, resolve_eq hq hp]
  refine (htold.append_quiet fun m hm => ?_).append_quiet fun m hm => ?_
  all_goals
    split at hm
    · rw [List.mem_singleton.mp hm]
      rfl
    · exact absurd hm List.not_mem_nil

/-- They go out of each other's view. -/
theorem outcome_disappear_tells {q : Nat} (hp : w.players p = some player) (hdead : NoneDead w) :
    Outcome (Tells (w.read Player.names) [⟨.delete, p, q⟩, ⟨.delete, q, p⟩]) (fun _ => True)
      (disappear w player q) := by
  apply outcome_deref_some.bind
  intro other hq
  rw [hdead q other hq, if_neg Bool.false_ne_true]
  show [some _, some _] = [_, _]
  rw [resolve_eq hp hq, resolve_eq hq hp]

/-- What a sector change shows and takes away. -/
def changes (g : Grid) (w : World) (p : Nat) (old new : Pos) : List Seen :=
  met .create p ((sectorSets g old.1 old.2 new.1 new.2).2.flatMap w.sectors) ++
    met .delete p ((sectorSets g old.1 old.2 new.1 new.2).1.flatMap w.sectors)

theorem outcome_sectorMessages_tells {prevX prevY : UInt16} (hp : w.players p = some player)
    (hdead : NoneDead w) :
    Outcome (Tells (w.read Player.names) (changes g w p (prevX, prevY) player.pos))
      (fun _ => True) (sectorMessages g w p prevX prevY) := by
  unfold sectorMessages
  rw [deref_ok hp]
  apply (Outcome.forall₂ fun q _ => outcome_appear_tells (q := q) hp hdead).bind
  intro created hcreated
  apply (Outcome.forall₂ fun q _ => outcome_disappear_tells (q := q) hp hdead).bind
  intro deleted hdeleted
  exact (Tells.flatMap hcreated).append (Tells.flatMap hdeleted)

end GameLogic

end IocpServer
