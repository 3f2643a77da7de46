import IocpServer.GameLogic.SectorMembership

/-!
# The phases of `FlushFrame`

`FlushFrame` looks at the active players one after the other, then at the moving ones, which it
keeps or drops, and then drains `destroyPlayerRequestQueue` one request after the other.
`RequestDestroyPlayer` reads `playerList`, sets two flags and enqueues.  Here every look, every
request drained, every flag set and the enqueueing is a step of its own, and the destroy thread's
steps come in between the logic thread's.  The logic thread's other calls are one step each.

* `run_flushFrame`, `run_requestDestroyPlayer` — without an interruption the phases are
  `flushFrame`, and the steps of the destroy thread are `requestDestroyPlayer`.
* `run_calls` — **every run of whole calls is a run of these steps.**
* `destroyPlayer_eq_ok` — what the drain of a request does.
* `Steps` — the steps, one constructor each; `Steps.places` — a property of places survives
  them.
-/

set_option autoImplicit false

namespace IocpServer

open Lib

namespace GameLogic

namespace Phases

/-- Where the logic thread stands in `FlushFrame`. -/
inductive FlushPc where
  | idle
  /-- The active players it has not looked at yet. -/
  | scanning (rest : List Nat)
  /-- The moving players it keeps, and those it has not looked at yet. -/
  | purging (kept rest : List Nat)
  | draining
  deriving DecidableEq

/-- Where the destroy thread stands in `RequestDestroyPlayer`. -/
inductive DestroyPc where
  | idle
  /-- It has read `p` from `playerList`. -/
  | found (id : SessionId) (p : Nat)
  /-- `isDead` is set. -/
  | dead (id : SessionId) (p : Nat)
  /-- `isDestroyRequest` is set. -/
  | marked (id : SessionId)

structure State where
  world : World
  flush : FlushPc
  destroy : DestroyPc

inductive Action where
  /-- `CreateNewPlayer`, a packet, or `UpdateGameWorld`. -/
  | logic (a : GameLogic.Action)
  /-- The next step of `FlushFrame`. -/
  | flush
  | requestDestroyPlayer (id : SessionId)
  /-- The next step of `RequestDestroyPlayer`. -/
  | destroy

/-- `InterlockedExchange(&player->isDead, 1)`. -/
def setDead (w : World) (p : Nat) : World :=
  w.modify p fun player => { player with isDead := true }

/-- `InterlockedExchange(&player->isDestroyRequest, 1)`. -/
def setDestroyRequest (w : World) (p : Nat) : World :=
  w.modify p fun player => { player with isDestroyRequest := true }

def logicStep (g : Grid) (s : State) (a : GameLogic.Action) : Except Fault State :=
  match s.flush, a with
  | .idle, .createNewPlayer .. | .idle, .packet .. | .idle, .updateGameWorld _ => do
    let w ← GameLogic.step g s.world a
    return { s with world := w }
  | _, _ => throw .notEnabled

def flushStep (g : Grid) (s : State) : Except Fault State :=
  match s.flush with
  | .idle => return { s with flush := .scanning s.world.activePlayerList }
  | .scanning [] => return { s with flush := .purging [] s.world.movingPlayerList }
  | .scanning (p :: rest) => do
    let w ← scanDead s.world p
    return { s with world := w, flush := .scanning rest }
  | .purging kept [] =>
    return { s with world := { s.world with movingPlayerList := kept }, flush := .draining }
  | .purging kept (p :: rest) => do
    let player ← s.world.deref p
    let kept := if player.isMoving && !player.isDead then kept ++ [p] else kept
    return { s with flush := .purging kept rest }
  | .draining =>
    match s.world.destroyPlayerRequestQueue with
    | [] => return { s with flush := .idle }
    | id :: queue => do
      let w ← destroyPlayer g { s.world with destroyPlayerRequestQueue := queue } id
      return { s with world := w }

/-- `RequestDestroyPlayer` begins. -/
def request (s : State) (id : SessionId) : Except Fault State :=
  match s.destroy with
  | .idle =>
    match s.world.playerList id.index with
    | none => return s
    | some p => return { s with destroy := .found id p }
  | _ => throw .notEnabled

def destroyStep (s : State) : Except Fault State :=
  match s.destroy with
  | .idle => throw .notEnabled
  | .found id p => do
    let _ ← s.world.deref p
    return { s with world := setDead s.world p, destroy := .dead id p }
  | .dead id p => do
    let _ ← s.world.deref p
    return { s with world := setDestroyRequest s.world p, destroy := .marked id }
  | .marked id =>
    return { s with
      world := { s.world with
        destroyPlayerRequestQueue := s.world.destroyPlayerRequestQueue ++ [id] }
      destroy := .idle }

def step (g : Grid) (s : State) : Action → Except Fault State
  | .logic a => logicStep g s a
  | .flush => flushStep g s
  | .requestDestroyPlayer id => request s id
  | .destroy => destroyStep s

def init (uniqueCharacterId : UInt32) : State := ⟨GameLogic.init uniqueCharacterId, .idle, .idle⟩

/-! ## The drain of one request -/

variable {g : Grid} {w w' : World} {p q i : Nat} {player : Player} {s t : State} {id : SessionId}
  {a : GameLogic.Action} {msgs : List Sending}

theorem deref_eq_ok : w.deref p = .ok player ↔ w.players p = some player := by
  unfold World.deref
  split
  · rename_i h
    simp [h]
  · rename_i other h
    simp [h]

/-- The world behind the drain of a request for the player at `p`. -/
def afterDestroy (w : World) (p : Nat) (player : Player) (msgs : List Sending) : World :=
  World.free { (w.send msgs).leaveSector p player with
    activePlayerList := ((w.send msgs).leaveSector p player).activePlayerList.filter (· ≠ p) }
    p player.playerId.index

theorem destroyPlayer_eq_ok : destroyPlayer g w id = .ok w' ↔
    ∃ p player msgs, w.playerList id.index = some p ∧ w.players p = some player ∧
      sendAOI g w p (.deleteCharacter player.playerId.characterId) false = .ok msgs ∧
      w' = afterDestroy w p player msgs := by
  unfold destroyPlayer
  constructor
  · intro h
    split at h
    · cases h
    · rename_i p hlist
      obtain ⟨player, hplayer, h⟩ := bind_eq_ok h
      obtain ⟨msgs, hmsgs, h⟩ := bind_eq_ok h
      cases h
      exact ⟨p, player, msgs, hlist, deref_eq_ok.mp hplayer, hmsgs, rfl⟩
  · rintro ⟨p, player, msgs, hlist, hplayer, hmsgs, rfl⟩
    rw [hlist]
    show (w.deref p >>= _) = _
    rw [deref_ok hplayer]
    show (sendAOI g w p _ false >>= _) = _
    rw [hmsgs]
    rfl

/-- `leaveSector` writes a set of players and the player's `currentSector`. -/
theorem leaveSector_fields : (w.leaveSector p player).playerList = w.playerList ∧
    (w.leaveSector p player).activePlayerList = w.activePlayerList ∧
    (w.leaveSector p player).movingPlayerList = w.movingPlayerList ∧
    (w.leaveSector p player).destroyPlayerRequestQueue = w.destroyPlayerRequestQueue ∧
    (w.leaveSector p player).sent = w.sent := by
  unfold World.leaveSector
  split
  · exact ⟨rfl, rfl, rfl, rfl, rfl⟩
  · exact ⟨rfl, rfl, rfl, rfl, rfl⟩

theorem leaveSector_players_ne (h : q ≠ p) : (w.leaveSector p player).players q = w.players q := by
  unfold World.leaveSector
  split
  · rfl
  · exact leave_players_ne h

theorem afterDestroy_players_ne (h : q ≠ p) :
    (afterDestroy w p player msgs).players q = w.players q :=
  (free_players_ne h).trans (leaveSector_players_ne h)

theorem afterDestroy_playerList_eq_some : (afterDestroy w p player msgs).playerList i = some q ↔
    i ≠ player.playerId.index ∧ w.playerList i = some q := by
  refine free_playerList_eq_some.trans ?_
  dsimp only
  rw [leaveSector_fields.1]
  rfl

@[simp] theorem afterDestroy_activePlayerList : (afterDestroy w p player msgs).activePlayerList =
    w.activePlayerList.filter (· ≠ p) :=
  congrArg (List.filter _) leaveSector_fields.2.1

@[simp] theorem afterDestroy_movingPlayerList :
    (afterDestroy w p player msgs).movingPlayerList = w.movingPlayerList :=
  leaveSector_fields.2.2.1

@[simp] theorem afterDestroy_queue : (afterDestroy w p player msgs).destroyPlayerRequestQueue =
    w.destroyPlayerRequestQueue :=
  leaveSector_fields.2.2.2.1

@[simp] theorem afterDestroy_sent : (afterDestroy w p player msgs).sent = w.sent ++ msgs :=
  leaveSector_fields.2.2.2.2

/-- The drain of one request does not look at the queue. -/
theorem destroyPlayer_queue {queue : List SessionId} (h : destroyPlayer g w id = .ok w') :
    destroyPlayer g { w with destroyPlayerRequestQueue := queue } id =
      .ok { w' with destroyPlayerRequestQueue := queue } := by
  obtain ⟨p, player, msgs, hlist, hplayer, hmsgs, rfl⟩ := destroyPlayer_eq_ok.mp h
  refine destroyPlayer_eq_ok.mpr ⟨p, player, msgs, hlist, hplayer, hmsgs, ?_⟩
  unfold afterDestroy World.leaveSector
  cases player.currentSector with
  | none => rfl
  | some i => rfl

/-! ## The phases and the calls -/

/-- Steps of the kind `only` lead from one state to another. -/
def Reaches (g : Grid) (only : Action → Prop) (s t : State) : Prop :=
  ∃ as, Run (fun s b t => step g s b = .ok t) (fun _ b => only b) s as t

theorem Reaches.refl {only : Action → Prop} : Reaches g only s s := ⟨[], .nil⟩

theorem Reaches.cons {only : Action → Prop} {u : State} (b : Action) (hb : only b)
    (hstep : step g s b = .ok t) (h : Reaches g only t u) : Reaches g only s u := by
  obtain ⟨as, hrun⟩ := h
  exact ⟨b :: as, .cons hstep hb hrun⟩

variable {flush : FlushPc} {destroy : DestroyPc} {l kept : List Nat}

theorem run_scan (h : l.foldlM scanDead w = .ok w')
    (hnext : Reaches g (· = .flush) ⟨w', .scanning [], destroy⟩ t) :
    Reaches g (· = .flush) ⟨w, .scanning l, destroy⟩ t := by
  induction l generalizing w with
  | nil =>
    cases h
    exact hnext
  | cons p l ih =>
    rw [List.foldlM_cons] at h
    obtain ⟨w₁, hfirst, h⟩ := bind_eq_ok h
    refine .cons .flush rfl ?_ (ih h)
    show (scanDead w p >>= _) = _
    rw [hfirst]
    rfl

theorem run_purge {moving : List (Nat × Bool)}
    (h : (l.mapM fun p => do
      let player ← w.deref p
      return (p, player.isMoving && !player.isDead)) = .ok moving)
    (hnext : Reaches g (· = .flush)
      ⟨w, .purging (kept ++ (moving.filter (·.2)).map (·.1)) [], destroy⟩ t) :
    Reaches g (· = .flush) ⟨w, .purging kept l, destroy⟩ t := by
  induction l generalizing kept moving with
  | nil =>
    rw [List.mapM_nil] at h
    cases h
    rw [List.filter_nil, List.map_nil, List.append_nil] at hnext
    exact hnext
  | cons p l ih =>
    rw [List.mapM_cons] at h
    obtain ⟨entry, hentry, h⟩ := bind_eq_ok h
    obtain ⟨moving, hmoving, h⟩ := bind_eq_ok h
    obtain ⟨player, hplayer, hentry⟩ := bind_eq_ok hentry
    cases h
    cases hentry
    refine .cons .flush rfl (t := ⟨w, .purging
      (if player.isMoving && !player.isDead then kept ++ [p] else kept) l, destroy⟩) ?_ ?_
    · show (w.deref p >>= _) = _
      rw [hplayer]
      rfl
    · refine ih hmoving ?_
      rw [List.filter_cons] at hnext
      dsimp only at hnext
      split at hnext
      · rename_i hkeep
        rw [if_pos hkeep, List.append_assoc]
        exact hnext
      · rename_i hkeep
        rw [if_neg hkeep]
        exact hnext

theorem run_drain {queue : List SessionId} (h : queue.foldlM (destroyPlayer g) w = .ok w')
    (hnext : Reaches g (· = .flush)
      ⟨{ w' with destroyPlayerRequestQueue := [] }, .draining, destroy⟩ t) :
    Reaches g (· = .flush)
      ⟨{ w with destroyPlayerRequestQueue := queue }, .draining, destroy⟩ t := by
  induction queue generalizing w with
  | nil =>
    cases h
    exact hnext
  | cons id queue ih =>
    rw [List.foldlM_cons] at h
    obtain ⟨w₁, hfirst, h⟩ := bind_eq_ok h
    have hdrain := @destroyPlayer_queue g w w₁ id queue hfirst
    refine .cons .flush rfl ?_ (ih h)
    show (destroyPlayer g { w with destroyPlayerRequestQueue := queue } id >>= _) = _
    rw [hdrain]
    rfl

/-- The phases without an interruption are `FlushFrame`. -/
theorem run_flushFrame (h : flushFrame g w = .ok w') :
    Reaches g (· = .flush) ⟨w, .idle, destroy⟩ ⟨w', .idle, destroy⟩ := by
  obtain ⟨w₁, hscan, h⟩ := bind_eq_ok h
  obtain ⟨w₂, hpurge, h⟩ := bind_eq_ok h
  obtain ⟨w₃, hdrain, h⟩ := bind_eq_ok h
  obtain ⟨moving, hmoving, hpurge⟩ := bind_eq_ok hpurge
  cases h
  cases hpurge
  refine .cons .flush rfl rfl (run_scan hscan ?_)
  refine .cons .flush rfl rfl (run_purge hmoving ?_)
  refine .cons .flush rfl rfl (run_drain hdrain ?_)
  exact .cons .flush rfl rfl .refl

/-- The steps of the destroy thread without an interruption are `RequestDestroyPlayer`. -/
theorem run_requestDestroyPlayer (h : requestDestroyPlayer w id = .ok w') :
    Reaches g (fun b => b = .requestDestroyPlayer id ∨ b = .destroy) ⟨w, flush, .idle⟩
      ⟨w', flush, .idle⟩ := by
  unfold requestDestroyPlayer at h
  split at h
  · rename_i hlist
    cases h
    refine .cons (.requestDestroyPlayer id) (Or.inl rfl) ?_ .refl
    simp only [step, request, hlist]
    rfl
  · rename_i p hlist
    obtain ⟨player, hplayer, h⟩ := bind_eq_ok h
    cases h
    have hboth : setDestroyRequest (setDead w p) p =
        w.modify p fun player => { player with isDead := true, isDestroyRequest := true } := by
      simp only [setDestroyRequest, setDead, World.modify, Function.update_idem,
        Function.update_self, Option.map_map]
      rfl
    have hdead : (setDead w p).deref p = .ok { player with isDead := true } := by
      apply deref_ok
      rw [setDead, modify_players_self, deref_eq_ok.mp hplayer]
      rfl
    rw [← hboth]
    refine .cons (.requestDestroyPlayer id) (Or.inl rfl) (t := ⟨w, flush, .found id p⟩) ?_ <|
      .cons .destroy (Or.inr rfl) (t := ⟨setDead w p, flush, .dead id p⟩) ?_ <|
      .cons .destroy (Or.inr rfl)
        (t := ⟨setDestroyRequest (setDead w p) p, flush, .marked id⟩) ?_ <|
      .cons .destroy (Or.inr rfl) rfl .refl
    · simp only [step, request, hlist]
      rfl
    · show (w.deref p >>= _) = _
      rw [hplayer]
      rfl
    · show (World.deref _ p >>= _) = _
      rw [hdead]
      rfl

/-- The call is one of the logic thread's, outside `FlushFrame`. -/
def IsLogic : GameLogic.Action → Prop
  | .createNewPlayer .. | .packet .. | .updateGameWorld _ => True
  | _ => False

theorem step_logic (ha : IsLogic a) (h : GameLogic.step g w a = .ok w') :
    step g ⟨w, .idle, destroy⟩ (.logic a) = .ok ⟨w', .idle, destroy⟩ := by
  have hstep : (do let w ← GameLogic.step g w a; return (⟨w, .idle, destroy⟩ : State)) =
      (.ok ⟨w', .idle, destroy⟩ : Except Fault State) := by
    rw [h]
    rfl
  cases a with
  | createNewPlayer | packet | updateGameWorld => exact hstep
  | flushFrame | requestDestroyPlayer => exact ha.elim

theorem Reaches.trans {only only' : Action → Prop} {u : State} (h : Reaches g only s t)
    (h' : Reaches g only' t u) : Reaches g (fun _ => True) s u := by
  obtain ⟨as, hrun⟩ := h
  obtain ⟨bs, hrun'⟩ := h'
  exact ⟨as ++ bs, (hrun.weaken fun _ _ _ => trivial).trans (hrun'.weaken fun _ _ _ => trivial)⟩

/-- **The calls one after the other are one way the phases can go.** -/
theorem run_calls {as : List GameLogic.Action}
    (hr : Run (fun w a w' => GameLogic.step g w a = .ok w') anyStep w as w') :
    Reaches g (fun _ => True) ⟨w, .idle, .idle⟩ ⟨w', .idle, .idle⟩ := by
  induction hr with
  | nil => exact .refl
  | @snoc as w₁ w₂ a _ _ hstep ih =>
    by_cases ha : IsLogic a
    · have honce : Reaches g (fun _ => True) ⟨w₁, .idle, .idle⟩ ⟨w₂, .idle, .idle⟩ :=
        .cons (.logic a) trivial (step_logic ha hstep) .refl
      exact ih.trans honce
    · cases a with
      | flushFrame => exact ih.trans (run_flushFrame hstep)
      | requestDestroyPlayer id => exact ih.trans (run_requestDestroyPlayer hstep)
      | createNewPlayer | packet | updateGameWorld => exact absurd trivial ha

/-! ## What a step can do -/

/-- The steps, one constructor each. -/
inductive Steps (g : Grid) : State → Action → State → Prop
  | logic {w w' : World} {d : DestroyPc} {a : GameLogic.Action} (ha : IsLogic a)
      (h : GameLogic.step g w a = .ok w') : Steps g ⟨w, .idle, d⟩ (.logic a) ⟨w', .idle, d⟩
  | scanStart {w : World} {d : DestroyPc} :
      Steps g ⟨w, .idle, d⟩ .flush ⟨w, .scanning w.activePlayerList, d⟩
  | scan {w w' : World} {d : DestroyPc} {p : Nat} {rest : List Nat} (h : scanDead w p = .ok w') :
      Steps g ⟨w, .scanning (p :: rest), d⟩ .flush ⟨w', .scanning rest, d⟩
  | purgeStart {w : World} {d : DestroyPc} :
      Steps g ⟨w, .scanning [], d⟩ .flush ⟨w, .purging [] w.movingPlayerList, d⟩
  | purge {w : World} {d : DestroyPc} {p : Nat} {player : Player} {kept rest : List Nat}
      (hp : w.players p = some player) :
      Steps g ⟨w, .purging kept (p :: rest), d⟩ .flush
        ⟨w, .purging (if player.isMoving && !player.isDead then kept ++ [p] else kept) rest, d⟩
  | drainStart {w : World} {d : DestroyPc} {kept : List Nat} :
      Steps g ⟨w, .purging kept [], d⟩ .flush ⟨{ w with movingPlayerList := kept }, .draining, d⟩
  | drain {w w' : World} {d : DestroyPc} {id : SessionId} {queue : List SessionId}
      (hqueue : w.destroyPlayerRequestQueue = id :: queue)
      (h : destroyPlayer g { w with destroyPlayerRequestQueue := queue } id = .ok w') :
      Steps g ⟨w, .draining, d⟩ .flush ⟨w', .draining, d⟩
  | drainEnd {w : World} {d : DestroyPc} (hqueue : w.destroyPlayerRequestQueue = []) :
      Steps g ⟨w, .draining, d⟩ .flush ⟨w, .idle, d⟩
  | noPlayer {w : World} {f : FlushPc} {id : SessionId} (hlist : w.playerList id.index = none) :
      Steps g ⟨w, f, .idle⟩ (.requestDestroyPlayer id) ⟨w, f, .idle⟩
  | find {w : World} {f : FlushPc} {id : SessionId} {p : Nat}
      (hlist : w.playerList id.index = some p) :
      Steps g ⟨w, f, .idle⟩ (.requestDestroyPlayer id) ⟨w, f, .found id p⟩
  | setDead {w : World} {f : FlushPc} {id : SessionId} {p : Nat} {player : Player}
      (hp : w.players p = some player) :
      Steps g ⟨w, f, .found id p⟩ .destroy ⟨Phases.setDead w p, f, .dead id p⟩
  | setDestroyRequest {w : World} {f : FlushPc} {id : SessionId} {p : Nat} {player : Player}
      (hp : w.players p = some player) :
      Steps g ⟨w, f, .dead id p⟩ .destroy ⟨Phases.setDestroyRequest w p, f, .marked id⟩
  | enqueue {w : World} {f : FlushPc} {id : SessionId} :
      Steps g ⟨w, f, .marked id⟩ .destroy
        ⟨{ w with destroyPlayerRequestQueue := w.destroyPlayerRequestQueue ++ [id] }, f, .idle⟩

theorem steps_of_step {b : Action} (h : step g s b = .ok t) : Steps g s b t := by
  obtain ⟨w, flush, destroy⟩ := s
  cases b with
  | logic a =>
    simp only [step, logicStep] at h
    split at h
    iterate 3
      · obtain ⟨w', hstep, h⟩ := bind_eq_ok h
        cases h
        exact .logic trivial hstep
    · cases h
  | flush =>
    cases flush with
    | idle => cases h; exact .scanStart
    | scanning rest =>
      cases rest with
      | nil => cases h; exact .purgeStart
      | cons p rest =>
        obtain ⟨w', hscan, h⟩ := bind_eq_ok h
        cases h
        exact .scan hscan
    | purging kept rest =>
      cases rest with
      | nil => cases h; exact .drainStart
      | cons p rest =>
        obtain ⟨player, hplayer, h⟩ := bind_eq_ok h
        cases h
        exact .purge (deref_eq_ok.mp hplayer)
    | draining =>
      simp only [step, flushStep] at h
      split at h
      · rename_i hqueue
        cases h
        exact .drainEnd hqueue
      · rename_i id queue hqueue
        obtain ⟨w', hdrain, h⟩ := bind_eq_ok h
        cases h
        exact .drain hqueue hdrain
  | requestDestroyPlayer id =>
    cases destroy with
    | idle =>
      simp only [step, request] at h
      split at h
      · rename_i hlist
        cases h
        exact .noPlayer hlist
      · rename_i p hlist
        cases h
        exact .find hlist
    | found | dead | marked => cases h
  | destroy =>
    cases destroy with
    | idle => cases h
    | found id p =>
      obtain ⟨player, hplayer, h⟩ := bind_eq_ok h
      cases h
      exact .setDead (deref_eq_ok.mp hplayer)
    | dead id p =>
      obtain ⟨player, hplayer, h⟩ := bind_eq_ok h
      cases h
      exact .setDestroyRequest (deref_eq_ok.mp hplayer)
    | marked id => cases h; exact .enqueue

/-- The positions a step stores may be stored. -/
def PhaseOk (Move Attack : Pos → Pos → Prop) (s : State) : Action → Prop
  | .logic a => PacketOk Move Attack s.world a
  | _ => True

theorem samePlaces_queue {queue : List SessionId} :
    SamePlaces w { w with destroyPlayerRequestQueue := queue } :=
  ⟨fun _ => rfl, rfl, rfl⟩

/-- **Every step keeps a place invariant.** -/
theorem Steps.places {J : World → Prop} {E : Fault → Prop} {Move Attack : Pos → Pos → Prop}
    {b : Action} (h : Steps g s b t) (K : PlaceInvariant g J E Move Attack) (hJ : J s.world)
    (hok : PhaseOk Move Attack s b) : J t.world := by
  cases h with
  | logic _ h => exact (K.step hJ hok).of_ok h
  | scan h => exact (K.scanDead hJ).of_ok h
  | drain _ h => exact (K.destroyPlayer (K.same _ _ samePlaces_queue hJ)).of_ok h
  | scanStart | purgeStart | purge | drainEnd | noPlayer | find => exact hJ
  | @drainStart w d kept => exact K.same w _ ⟨fun _ => rfl, rfl, rfl⟩ hJ
  | @enqueue w f id => exact K.same w _ samePlaces_queue hJ
  | @setDead w f id p | @setDestroyRequest w f id p =>
    exact K.same w _ (SamePlaces.modify_self fun _ => rfl) hJ

/-- The step condition of sector membership. -/
def TileStep (g : Grid) (s : State) : Action → Prop
  | .logic a => SameTile g s.world a
  | _ => True

/-- Under it every step keeps every player in the sector of its position. -/
theorem Steps.placed {b : Action} (h : Steps g s b t) (hw : Placed g s.world)
    (hok : TileStep g s b) : Placed g t.world := by
  refine h.places placed_invariant hw ?_
  cases b with
  | logic a => exact packetOk_of_sameTile hok
  | _ => trivial

end Phases

end GameLogic

end IocpServer
