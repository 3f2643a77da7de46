import IocpServer.GameLogic.FlushPhases

/-!
# Requests between `RequestDestroyPlayer` and the drain

`RequestDestroyPlayer` sets `isDead` before it enqueues, and nothing takes the flag back.

* `Steady`, `Created` — what the logic thread's calls do to the players and the lists of pointers;
  `steady_calls` — packets and ticks are `Steady`.
* `FreshSlot` — the step condition: no player is created in a slot with a request on its way.
* `Requested.step` — **under it the player of a queued request is dead.**
-/

set_option autoImplicit false

namespace IocpServer

open Lib

namespace GameLogic

namespace Phases

variable {g : Grid} {w w' w'' : World} {p q i : Nat} {player : Player} {f : Player → Player}
  {msgs : List Sending} {s t : State} {id : SessionId}

/-! ## What the calls do to the players and the lists -/

/-- Nobody is freed or comes back to life; `movingPlayerList` gets allocated players. -/
structure Steady (w w' : World) : Prop where
  players : ∀ p player, w.players p = some player →
    ∃ player', w'.players p = some player' ∧ (player.isDead = true → player'.isDead = true)
  playerList : w'.playerList = w.playerList
  active : w'.activePlayerList = w.activePlayerList
  moving : ∀ p ∈ w'.movingPlayerList, p ∈ w.movingPlayerList ∨ w'.players p ≠ none
  queue : w'.destroyPlayerRequestQueue = w.destroyPlayerRequestQueue

theorem Steady.refl : Steady w w :=
  ⟨fun _ player hp => ⟨player, hp, fun h => h⟩, rfl, rfl, fun _ hp => Or.inl hp, rfl⟩

theorem Steady.allocated (h : Steady w w') (hp : w.players p ≠ none) : w'.players p ≠ none := by
  obtain ⟨player, hplayer⟩ := Option.ne_none_iff_exists'.mp hp
  obtain ⟨player', hp', -⟩ := h.players p player hplayer
  exact Option.ne_none_iff_exists'.mpr ⟨player', hp'⟩

theorem Steady.send (h : Steady w w') : Steady w (w'.send msgs) :=
  ⟨h.players, h.playerList, h.active, h.moving, h.queue⟩

theorem modify_eq_none : (w.modify p f).players q = none ↔ w.players q = none := by
  by_cases hq : q = p
  · subst hq
    rw [modify_players_self, Option.map_eq_none_iff]
  · rw [modify_players_ne hq]

theorem Steady.modify (h : Steady w w')
    (hf : ∀ player : Player, player.isDead = true → (f player).isDead = true) :
    Steady w (w'.modify p f) := by
  refine ⟨fun q player hq => ?_, h.playerList, h.active, fun q hq => ?_, h.queue⟩
  · obtain ⟨player', hq', hdead⟩ := h.players q player hq
    by_cases hqp : q = p
    · subst hqp
      exact ⟨f player', by rw [modify_players_self, hq']; rfl, fun hd => hf player' (hdead hd)⟩
    · exact ⟨player', by rw [modify_players_ne hqp, hq'], hdead⟩
  · rw [ne_eq, modify_eq_none]
    exact h.moving q hq

theorem Steady.sectors {sectors : Nat → List Nat} (h : Steady w w') :
    Steady w { w' with sectors := sectors } :=
  ⟨h.players, h.playerList, h.active, h.moving, h.queue⟩

theorem Steady.enter (h : Steady w w') : Steady w (w'.enter g p i) :=
  h.sectors.modify fun _ hd => hd

theorem Steady.leave (h : Steady w w') : Steady w (w'.leave p i) :=
  h.sectors.modify fun _ hd => hd

theorem Steady.checkSector {prevX prevY : UInt16} (h : Steady w w') :
    Outcome (Steady w) (fun _ => True) (checkSector g w' p prevX prevY) :=
  outcome_checkSector_moved h fun _ _ _ => h.leave.enter.send

/-- A stored position. -/
theorem Steady.stored {new : Pos} (h : Steady w w') (hp : w'.players p = some player)
    (hstored : Stored w' p player new w'') : Steady w w'' := by
  obtain ⟨msgs, f, -, hdead, rfl | rfl⟩ := hstored
  · exact h.send.modify hdead
  · have hwritten : Steady w ((w'.send msgs).modify p f) := h.send.modify hdead
    refine ⟨hwritten.players, h.playerList, h.active, fun q hq => ?_, h.queue⟩
    rcases List.mem_append.mp hq with hq | hq
    · exact hwritten.moving q hq
    · obtain rfl := List.mem_singleton.mp hq
      refine Or.inr (mt modify_eq_none.mp ?_)
      rw [send_players, hp]
      exact Option.some_ne_none player

/-- **Packets and ticks.** -/
theorem steady_calls :
    CallInvariant g (Steady w) (fun _ => True) (fun _ _ => True) (fun _ _ => True) where
  fault := fun _ _ => trivial
  send := fun _ _ h => h.send
  write := fun _ _ _ hf h => h.modify fun player => (hf player).2
  cursors := fun _ _ _ h => ⟨h.players, h.playerList, h.active, h.moving, h.queue⟩
  stay := fun _ _ _ _ _ => trivial
  tick := fun _ _ _ _ => trivial
  move := fun _ _ _ _ _ h hp _ hstored => (h.stored hp hstored).checkSector
  attack := fun _ _ _ _ _ h hp _ hstored => h.stored hp hstored

theorem Steady.scanDead : Outcome (Steady w) (fun _ => True) (scanDead w p) := by
  unfold GameLogic.scanDead
  apply outcome_any.bind
  intro player _
  apply Outcome.ite
  · intro _
    have h : Steady w (w.modify p fun player => { player with isDestroyRequest := true }) :=
      Steady.refl.modify fun _ hd => hd
    exact ⟨h.players, h.playerList, h.active, h.moving, h.queue⟩
  · intro _
    exact Steady.refl

/-- A player is built at `p` and stored at `i`. -/
structure Created (w : World) (p i : Nat) (w' : World) : Prop where
  fresh : w.players p = none
  self : w'.players p ≠ none
  other : ∀ q, q ≠ p → w'.players q = w.players q
  playerList : ∀ j q, w'.playerList j = some q ↔ j = i ∧ p = q ∨ j ≠ i ∧ w.playerList j = some q
  active : w'.activePlayerList = w.activePlayerList ++ [p]
  moving : w'.movingPlayerList = w.movingPlayerList
  queue : w'.destroyPlayerRequestQueue = w.destroyPlayerRequestQueue

theorem outcome_createNewPlayer {randX randY : Nat} {now : Int32} {registered : Bool} :
    Outcome (fun w' => registered = true ∧ Created w p id.index w' ∨ Steady w w') (fun _ => True)
      (createNewPlayer g w id p randX randY now registered) := by
  unfold createNewPlayer
  split
  · trivial
  · rename_i hfresh
    apply Outcome.ite
    · intro _
      exact Or.inr ⟨fun _ player hq => ⟨player, hq, fun hd => hd⟩, rfl, rfl,
        fun _ hq => Or.inl hq, rfl⟩
    · intro hregistered
      rw [Bool.not_eq_true, Bool.not_eq_false'] at hregistered
      apply outcome_any.bind
      intro j _
      apply outcome_any.bind
      intro msgs _
      refine Or.inl ⟨hregistered, hfresh, ?_, fun q hq => ?_, fun k q => store_playerList_eq_some,
        rfl, rfl, rfl⟩
      · show (World.enter g _ p j).players p ≠ none
        rw [enter_players_self, alloc_players_self]
        exact Option.some_ne_none _
      · show (World.enter g _ p j).players q = _
        rw [enter_players_ne hq, alloc_players_ne hq]

/-! ## Requests on their way -/

/-- The session `RequestDestroyPlayer` is called for. -/
def DestroyPc.session : DestroyPc → Option SessionId
  | .idle => none
  | .found id _ | .dead id _ | .marked id => some id

/-- A request for `id` is on its way. -/
def Pending (s : State) (id : SessionId) : Prop :=
  id ∈ s.world.destroyPlayerRequestQueue ∨ s.destroy.session = some id

/-- The step condition: a player is created in a slot without a request on its way. -/
def FreshSlot (s : State) : Action → Prop
  | .logic (.createNewPlayer id _ _ _ _ registered) =>
    registered = true → ∀ id', Pending s id' → id'.index ≠ id.index
  | _ => True

/-- Whoever is stored in the slot of `id` is dead. -/
def Killed (w : World) (id : SessionId) : Prop :=
  ∀ p, w.playerList id.index = some p → ∃ player, w.players p = some player ∧ player.isDead = true

/-- What the destroy thread has done so far. -/
def DestroyPc.Done (w : World) : DestroyPc → Prop
  | .idle => True
  | .found id p => ∀ q, w.playerList id.index = some q → q = p
  | .dead id _ | .marked id => Killed w id

structure Requested (s : State) : Prop where
  queued : ∀ id ∈ s.world.destroyPlayerRequestQueue, Killed s.world id
  done : s.destroy.Done s.world

/-- The slot of `id` gets nobody, and nobody in it is freed or comes back to life. -/
def SlotKept (w w' : World) (id : SessionId) : Prop :=
  ∀ q, w'.playerList id.index = some q → w.playerList id.index = some q ∧
    ∀ player, w.players q = some player →
      ∃ player', w'.players q = some player' ∧ (player.isDead = true → player'.isDead = true)

theorem Killed.keep (h : Killed w id) (hkept : SlotKept w w' id) : Killed w' id := by
  intro q hq
  obtain ⟨hq, hplayers⟩ := hkept q hq
  obtain ⟨player, hplayer, hdead⟩ := h q hq
  obtain ⟨player', hplayer', hdead'⟩ := hplayers player hplayer
  exact ⟨player', hplayer', hdead' hdead⟩

theorem Steady.slotKept (h : Steady w w') : SlotKept w w' id := by
  intro q hq
  rw [h.playerList] at hq
  exact ⟨hq, fun player hplayer => h.players q player hplayer⟩

theorem Created.slotKept (h : Created w p i w') (hi : id.index ≠ i) : SlotKept w w' id := by
  intro q hq
  rcases (h.playerList _ _).mp hq with ⟨heq, -⟩ | ⟨-, hq⟩
  · exact absurd heq hi
  · refine ⟨hq, fun player hplayer => ⟨player, ?_, fun hd => hd⟩⟩
    rw [h.other q ?_, hplayer]
    rintro rfl
    rw [h.fresh] at hplayer
    cases hplayer

theorem slotKept_afterDestroy (hw : Placed g w) (hp : w.players p = some player) :
    SlotKept w (afterDestroy w p player msgs) id := by
  intro q hq
  obtain ⟨hne, hlist⟩ := afterDestroy_playerList_eq_some.mp hq
  refine ⟨hlist, fun other hother => ⟨other, ?_, fun hd => hd⟩⟩
  rw [afterDestroy_players_ne ?_, hother]
  rintro rfl
  exact hne (hw.index hlist hp).symm

/-- What is known of requests stays known. -/
theorem Requested.keep {flush flush' : FlushPc} {d : DestroyPc} (h : Requested ⟨w, flush, d⟩)
    (hqueue : ∀ id ∈ w'.destroyPlayerRequestQueue, id ∈ w.destroyPlayerRequestQueue)
    (hkept : ∀ id, Pending ⟨w, flush, d⟩ id → SlotKept w w' id) : Requested ⟨w', flush', d⟩ := by
  refine ⟨fun id hid => ?_, ?_⟩
  · exact (h.queued id (hqueue id hid)).keep (hkept id (Or.inl (hqueue id hid)))
  · have hdone := h.done
    cases d with
    | idle => trivial
    | found => exact fun q hq => hdone q (hkept _ (Or.inr rfl) q hq).1
    | dead | marked => exact Killed.keep hdone (hkept _ (Or.inr rfl))

theorem Requested.steady {flush flush' : FlushPc} {d : DestroyPc} (h : Requested ⟨w, flush, d⟩)
    (hsteady : Steady w w') : Requested ⟨w', flush', d⟩ :=
  h.keep (fun _ hid => hsteady.queue ▸ hid) fun _ _ => hsteady.slotKept

/-- The logic thread's calls. -/
theorem steady_or_created {a : GameLogic.Action} (ha : IsLogic a)
    (h : GameLogic.step g w a = .ok w') :
    Steady w w' ∨ ∃ id p randX randY now, a = .createNewPlayer id p randX randY now true ∧
      Created w p id.index w' := by
  cases a with
  | createNewPlayer id p randX randY now registered =>
    rcases outcome_createNewPlayer.of_ok h with ⟨rfl, hcreated⟩ | hsteady
    · exact Or.inr ⟨id, p, randX, randY, now, rfl, hcreated⟩
    · exact Or.inl hsteady
  | packet ipi locals now =>
    exact Or.inl ((steady_calls.processPacket Steady.refl packetOk_any).of_ok h)
  | updateGameWorld timer => exact Or.inl ((steady_calls.updateGameWorld Steady.refl).of_ok h)
  | flushFrame => exact ha.elim
  | requestDestroyPlayer id => exact ha.elim

theorem steady_setDead : Steady w (setDead w p) :=
  Steady.refl.modify fun _ _ => rfl

theorem steady_setDestroyRequest : Steady w (setDestroyRequest w p) := by
  refine Steady.refl.modify ?_
  exact fun _ hd => hd

/-- **The player of a queued request is dead.** -/
theorem Requested.step {b : Action} (h : Requested s) (hw : Placed g s.world)
    (hok : FreshSlot s b) (hstep : Steps g s b t) : Requested t := by
  cases hstep with
  | logic ha hstep =>
    rcases steady_or_created ha hstep with hsteady | ⟨id, p, _, _, _, rfl, hcreated⟩
    · exact h.steady hsteady
    · exact h.keep (fun id hid => hcreated.queue ▸ hid) fun id hid =>
        hcreated.slotKept (hok rfl id hid)
  | scan hscan => exact h.steady (Steady.scanDead.of_ok hscan)
  | scanStart | purgeStart | purge | drainEnd | noPlayer => exact ⟨h.queued, h.done⟩
  | drainStart => exact h.keep (fun _ hid => hid) fun _ _ => Steady.refl.slotKept
  | @drain w w' d id queue hqueue hdrain =>
    obtain ⟨p, player, msgs, -, hp, -, rfl⟩ := destroyPlayer_eq_ok.mp hdrain
    refine h.keep (fun id' hid => ?_) fun id' _ => ?_
    · rw [afterDestroy_queue] at hid
      rw [hqueue]
      exact List.mem_cons_of_mem id hid
    · exact slotKept_afterDestroy (hw.same samePlaces_queue) hp
  | @find w f id p hlist =>
    refine ⟨h.queued, fun q hq => ?_⟩
    rw [hlist] at hq
    exact (Option.some.inj hq).symm
  | @setDead w f id p player hp =>
    have hkept : Requested ⟨Phases.setDead w p, f, .found id p⟩ := h.steady steady_setDead
    refine ⟨hkept.queued, fun q hq => ?_⟩
    obtain rfl := h.done q hq
    have hself : (Phases.setDead w q).players q = some { player with isDead := true } := by
      rw [Phases.setDead, modify_players_self, hp]
      rfl
    exact ⟨_, hself, rfl⟩
  | @setDestroyRequest w f id p player hp =>
    have hkept : Requested ⟨Phases.setDestroyRequest w p, f, .dead id p⟩ :=
      h.steady steady_setDestroyRequest
    exact ⟨hkept.queued, hkept.done⟩
  | @enqueue w f id =>
    refine ⟨fun id' hid => ?_, trivial⟩
    rcases List.mem_append.mp hid with hid | hid
    · exact h.queued id' hid
    · obtain rfl := List.mem_singleton.mp hid
      exact h.done

end Phases

end GameLogic

end IocpServer
