import IocpServer.Slots

/-!
# Who has a slot

The slot indices alone, without asking who is registered where.  An index is on the stack, with a
session, or on its way back: with the destroy thread, in a destroy request, or with `FlushFrame`.
`RequestDestroyPlayer` decides once per release which way it goes, so it comes back once, however
players and sessions are mixed up.

`Pop` does not say that the stack is empty: it returns 0, and slot 0 has an owner already.  An index
of more than 16 bits does not fit into the id.

* `PopOk` — the step condition: `OnAccept` finds an index on the stack, of 16 bits.
* `Held` — every slot index has one owner.
* `Held.step` — **a step keeps the owners apart, and what is on its way back grows by a release and
  shrinks by a push.**
* `run_exclusive` — **in every run whose steps meet the condition nobody has a slot that is on the
  stack.**
-/

set_option autoImplicit false

namespace IocpServer

open Lib

namespace Slots

/-! ## The promise and its condition -/

/-- The index `FlushFrame` is at work on. -/
def flushIndex (s : State) : Option Nat :=
  match s.logic with
  | .flush id => some id.index
  | .leave p | .clear p => (s.players p).map fun player => player.playerId.index
  | .free _ i | .giveIndex i => some i
  | _ => none

/-- The step condition. -/
def PopOk (s : State) : Action → Prop
  | .onAccept _ => ∃ i stack, s.emptySessionMapStack = i :: stack ∧ i < 2 ^ 16
  | _ => True

/-! ## The invariant -/

section

variable (owner : Nat → Owner) (ids : Nat → Option SessionId) (sessionMap playerList : Nat → Option Nat)

def AcceptHeld : AcceptPc → Prop
  | .built p id => ids p = some id ∧ sessionMap id.index = none
  | _ => True

def LogicHeld : LogicPc → Prop
  | .register _ p | .registerRead _ p | .registerWrite _ p _ | .store _ p =>
    ∀ i, playerList i ≠ some p
  | .flush id => owner id.index = .flushing ∧ playerList id.index ≠ none
  | .leave p | .clear p => ∃ i, playerList i = some p ∧ owner i = .flushing
  | .free p i => owner i = .flushing ∧ ∀ j, playerList j ≠ some p
  | .giveIndex i => owner i = .flushing
  | _ => True

def DestroyHeld : DestroyPc → Prop
  | .unmapped p id => ids p = some id ∧ sessionMap id.index = none
  | .freed id => owner id.index = .released id
  | .giveIndex i => owner i = .returning
  | _ => True

end

structure Held (owner : Nat → Owner) (s : State) : Prop where
  stack_nodup : s.emptySessionMapStack.Nodup
  stack : ∀ i ∈ s.emptySessionMapStack, owner i = .free
  session : ∀ p id, s.ids p = some id → owner id.index = .session p id
  mapped : ∀ i p, s.sessionMap i = some p → ∃ id, s.ids p = some id ∧ id.index = i
  player : ∀ i p, s.playerList i = some p →
    ∃ playerId id, s.names p = some (playerId, id) ∧ playerId.index = i
  requests_nodup : (requests s.destroy s.destroyPlayerRequestQueue).Nodup
  requests : ∀ id ∈ requests s.destroy s.destroyPlayerRequestQueue,
    owner id.index = .requested id ∧ s.playerList id.index ≠ none
  /-- The session `OnAccept` has not mapped yet is not being released. -/
  apart : ∀ p id q id', s.accept = .built p id → s.destroy = .unmapped q id' → p ≠ q
  accept : AcceptHeld s.ids s.sessionMap s.accept
  logic : LogicHeld owner s.playerList s.logic
  destroy : DestroyHeld owner s.ids s.sessionMap s.destroy

/-- Whether an index is on its way back to the stack. -/
def Owner.awaits : Owner → Nat
  | .free | .session _ _ => 0
  | _ => 1

/-- What is released and not pushed: the index of the session `OnRelease` is about to free, and an
index on its way back. -/
def owed (owner : Nat → Owner) (destroy : DestroyPc) (i : Nat) : Nat :=
  (owner i).awaits +
    match destroy with
    | .unmapped _ id => if id.index = i then 1 else 0
    | _ => 0

/-- The id of the session a step begins to release. -/
def releasedBy (s : State) : Action → List SessionId
  | .onRelease p => (s.heap p).toList.map Session.sessionId
  | _ => []

/-- The index a step pushes onto the stack. -/
def pushedBy (s : State) : Action → List Nat
  | .logicThread =>
    match s.logic with
    | .giveIndex i => [i]
    | _ => []
  | .destroyThread =>
    match s.destroy with
    | .giveIndex i => [i]
    | _ => []
  | _ => []

/-- The books balance over a step. -/
def Balanced (owner owner' : Nat → Owner) (s t : State) (a : Action) : Prop :=
  ∀ i, owed owner' t.destroy i + (pushedBy s a).count i =
    owed owner s.destroy i + ((releasedBy s a).map SessionId.index).count i

variable {s t : State} {a : Action} {owner owner' : Nat → Owner} {o x : Owner} {i j p q : Nat}
  {id : SessionId} {session : Session} {player : Player} {logic : LogicPc} {destroy : DestroyPc}
  {ids : Nat → Option SessionId} {sessionMap playerList : Nat → Option Nat}

theorem LogicHeld.setOwner (h : LogicHeld owner playerList logic) (hi : owner i ≠ .flushing) :
    LogicHeld (Function.update owner i o) playerList logic := by
  cases logic with
  | flush id => exact ⟨owner_of_ne h.1 hi, h.2⟩
  | leave p | clear p =>
    obtain ⟨j, hj, howner⟩ := h
    exact ⟨j, hj, owner_of_ne howner hi⟩
  | free p j => exact ⟨owner_of_ne h.1 hi, h.2⟩
  | giveIndex j => exact owner_of_ne h hi
  | _ => exact h

theorem DestroyHeld.setOwner (h : DestroyHeld owner ids sessionMap destroy)
    (hi : ∀ id, owner i ≠ .released id) (hreturning : owner i ≠ .returning) :
    DestroyHeld (Function.update owner i o) ids sessionMap destroy := by
  cases destroy with
  | freed id => exact owner_of_ne h (hi id)
  | giveIndex j => exact owner_of_ne h hreturning
  | _ => exact h

/-- An index changes hands on its way back, or starts out on it. -/
theorem owed_setOwner (hawaits : (owner i).awaits = o.awaits) :
    owed (Function.update owner i o) destroy j = owed owner destroy j := by
  unfold owed
  by_cases hj : j = i
  · rw [hj, Function.update_self, hawaits]
  · rw [Function.update_of_ne hj]

theorem Balanced.of_owed (hpush : pushedBy s a = []) (hrelease : releasedBy s a = [])
    (h : ∀ i, owed owner' t.destroy i = owed owner s.destroy i) : Balanced owner owner' s t a := by
  intro i
  rw [hpush, hrelease, h i]
  rfl

/-! ### The accept thread -/

/-- A new session beside those there are. -/
theorem ids_insert {session : Session} {id' : SessionId}
    (hq : (Function.update s.heap p (some session) q).map Session.sessionId = some id') :
    (q = p ∧ session.sessionId = id') ∨ (q ≠ p ∧ s.ids q = some id') := by
  by_cases hqp : q = p
  · rw [hqp, Function.update_self] at hq
    exact Or.inl ⟨hqp, Option.some.inj hq⟩
  · rw [Function.update_of_ne hqp] at hq
    exact Or.inr ⟨hqp, hq⟩

theorem Held.onAccept (H : Held owner s) (hok : PopOk s (.onAccept p))
    (h : Slots.onAccept s p = .ok t) :
    ∃ owner', Held owner' t ∧ Balanced owner owner' s t (.onAccept p) := by
  obtain ⟨i, stack, hstack, hlt⟩ := hok
  unfold Slots.onAccept at h
  split at h
  · rename_i haccept hp
    cases h
    have hnone : s.ids p = none := by rw [State.ids, hp]; rfl
    have hindex : (newId s).index = i := by
      rw [newId, hstack]
      exact Nat.mod_eq_of_lt hlt
    have hpop : (pop s.emptySessionMapStack).2 = stack := by rw [hstack]; rfl
    have hnodup := H.stack_nodup
    have hfree : owner i = .free := H.stack i (by rw [hstack]; exact List.mem_cons_self)
    rw [hstack, List.nodup_cons] at hnodup
    generalize newId s = id at *
    have hkeep : ∀ q id', s.ids q = some id' → q ≠ p ∧
        (Function.update s.heap p (some (Session.mk id none)) q).map Session.sessionId =
          some id' := by
      intro q id' hq
      have hqp : q ≠ p := by
        rintro rfl
        exact Option.some_ne_none _ (hq.symm.trans hnone)
      exact ⟨hqp, by rw [Function.update_of_ne hqp]; exact hq⟩
    have hempty : s.sessionMap i = none := by
      by_contra hne
      obtain ⟨q, hq⟩ := Option.ne_none_iff_exists'.mp hne
      obtain ⟨id', hid', rfl⟩ := H.mapped i q hq
      have := H.session q id' hid'
      rw [hfree] at this
      cases this
    refine ⟨Function.update owner i (.session p id), { H with
      stack_nodup := by rw [hpop]; exact hnodup.2
      stack := fun j hj => ?_
      session := fun q id' hq => ?_
      mapped := fun j q hj => ?_
      requests := fun id' hid' => ?_
      apart := fun q id' q' id'' hpc hpc' => ?_
      accept := ?_
      logic := H.logic.setOwner (by rw [hfree]; intro he; cases he)
      destroy := ?_ }, .of_owed rfl rfl fun j => ?_⟩
    · rw [hpop] at hj
      rw [Function.update_of_ne fun he : j = i => hnodup.1 (he ▸ hj)]
      exact H.stack j (by rw [hstack]; exact List.mem_cons_of_mem _ hj)
    · rcases ids_insert hq with ⟨rfl, rfl⟩ | ⟨-, hq⟩
      · rw [hindex, Function.update_self]
      · exact owner_of_ne (H.session q id' hq) (by rw [hfree]; intro he; cases he)
    · obtain ⟨id', hq, hid'⟩ := H.mapped j q hj
      exact ⟨id', (hkeep q id' hq).2, hid'⟩
    · obtain ⟨howner, hplayer⟩ := H.requests id' hid'
      exact ⟨owner_of_ne howner (by rw [hfree]; intro he; cases he), hplayer⟩
    · cases hpc
      have hd := H.destroy
      rw [hpc'] at hd
      rintro rfl
      exact Option.some_ne_none _ (hd.1.symm.trans hnone)
    · refine ⟨?_, hindex ▸ hempty⟩
      show (Function.update s.heap p _ p).map Session.sessionId = _
      rw [Function.update_self]; rfl
    · have hd := H.destroy.setOwner (o := .session p id) (i := i) (by
        rw [hfree]
        intro _ he
        cases he)
        (by rw [hfree]; intro he; cases he)
      cases hpc : s.destroy with
      | unmapped q id' =>
        rw [hpc] at hd
        exact ⟨(hkeep q id' hd.1).2, hd.2⟩
      | _ => rw [hpc] at hd; exact hd
    · exact owed_setOwner (by rw [hfree]; rfl)
  · cases h

theorem Held.acceptStep (H : Held owner s) (h : Slots.acceptStep s = .ok t) :
    Held owner t ∧ Balanced owner owner s t .acceptThread := by
  have ha := H.accept
  have hapart := H.apart
  unfold Slots.acceptStep at h
  split at h
  all_goals rename_i hpc; rw [hpc] at ha hapart
  · cases h
  · rename_i p id
    cases h
    refine ⟨{ H with
      mapped := fun j q hj => ?_
      apart := nofun
      accept := trivial
      destroy := ?_ }, fun _ => rfl⟩
    · rcases update_some_eq_some.mp hj with ⟨rfl, rfl⟩ | ⟨-, hj⟩
      · exact ⟨id, ha.1, rfl⟩
      · exact H.mapped j q hj
    · have hd := H.destroy
      cases hpc' : s.destroy with
      | unmapped q id' =>
        rw [hpc'] at hd
        refine ⟨hd.1, ?_⟩
        have hne : id'.index ≠ id.index := by
          intro he
          have hp := H.session p id ha.1
          rw [← he, H.session q id' hd.1] at hp
          cases hp
          exact hapart p id p id rfl hpc' rfl
        show Function.update s.sessionMap id.index (some p) id'.index = none
        rw [Function.update_of_ne hne]
        exact hd.2
      | _ => rw [hpc'] at hd; exact hd
  · split at h
    · cases h
    · cases h
      exact ⟨{ H with apart := nofun, accept := trivial }, fun _ => rfl⟩

/-! ### The logic thread -/

/-- A player that is not stored is freed. -/
theorem Held.freePlayer (H : Held owner s) (hp : ∀ i, s.playerList i ≠ some p)
    (hlogic : LogicHeld owner s.playerList logic) :
    Held owner { s with players := Function.update s.players p none, logic := logic } :=
  { H with
    player := fun j q hj => by
      obtain ⟨playerId, id, hq, hindex⟩ := H.player j q hj
      refine ⟨playerId, id, ?_, hindex⟩
      have hqp : q ≠ p := fun he => hp j (he ▸ hj)
      simp only [State.names, Function.update_of_ne hqp]
      exact hq
    logic := hlogic }

theorem Held.createNewPlayer (H : Held owner s) (h : Slots.createNewPlayer s p = .ok t) :
    Held owner t ∧ Balanced owner owner s t (.createNewPlayer p) := by
  unfold Slots.createNewPlayer at h
  split at h
  · rename_i id queue hpc hqueue hp
    have hstored : ∀ j q, s.playerList j = some q → q ≠ p := by
      rintro j q hj rfl
      obtain ⟨_, _, hq, _⟩ := H.player j q hj
      rw [State.names, hp] at hq
      cases hq
    cases h
    refine ⟨{ H with
      player := fun j q hj => ?_
      logic := fun j hj => hstored j p hj rfl }, fun _ => rfl⟩
    obtain ⟨playerId, id', hq, hindex⟩ := H.player j q hj
    refine ⟨playerId, id', ?_, hindex⟩
    simp only [State.names, Function.update_of_ne (hstored j q hj)]
    exact hq
  · cases h

/-- `FlushFrame` takes a request. -/
theorem Held.flushFrame (H : Held owner s) (h : Slots.flushFrame s = .ok t) :
    ∃ owner', Held owner' t ∧ Balanced owner owner' s t .flushFrame := by
  unfold Slots.flushFrame at h
  split at h
  · rename_i id queue hpc hqueue
    cases h
    have hnodup := H.requests_nodup
    have hrequests := H.requests
    rw [hqueue] at hnodup hrequests
    have hperm : (Slots.requests s.destroy (id :: queue)).Perm
        (id :: Slots.requests s.destroy queue) :=
      List.perm_middle
    obtain ⟨howner, hplayer⟩ := hrequests id (hperm.mem_iff.mpr List.mem_cons_self)
    rw [hperm.nodup_iff, List.nodup_cons] at hnodup
    refine ⟨Function.update owner id.index .flushing, { H with
      stack := fun j hj => owner_of_ne (H.stack j hj) (by rw [howner]; nofun)
      session := fun q id' hq => owner_of_ne (H.session q id' hq) (by rw [howner]; nofun)
      requests_nodup := hnodup.2
      requests := fun id' hid' => ?_
      logic := ⟨Function.update_self .., hplayer⟩
      destroy := H.destroy.setOwner (by rw [howner]; nofun) (by rw [howner]; nofun) },
      .of_owed rfl rfl fun j => owed_setOwner (by rw [howner]; rfl)⟩
    · obtain ⟨howner', hplayer'⟩ := hrequests id' (hperm.mem_iff.mpr (List.mem_cons_of_mem _ hid'))
      refine ⟨owner_of_ne howner' fun he => ?_, hplayer'⟩
      rw [howner] at he
      cases he
      exact hnodup.1 hid'
  · cases h

/-- A session is written to and keeps its id. -/
theorem Held.writeSession (H : Held owner s) {session' : Session} (hq : s.heap q = some session)
    (hid : session'.sessionId = session.sessionId) (hlogic : LogicHeld owner s.playerList logic) :
    Held owner { s with heap := Function.update s.heap q (some session'), logic := logic } := by
  have hids : ({ s with heap := Function.update s.heap q (some session'), logic := logic } :
      State).ids = s.ids := ids_update hq hid
  exact { H with
    session := hids ▸ H.session
    mapped := hids ▸ H.mapped
    accept := hids ▸ H.accept
    logic := hlogic
    destroy := hids ▸ H.destroy }

/-- `CreateNewPlayer` stores its player. -/
theorem Held.store (H : Held owner s) (hp : s.players p = some player) :
    Held owner { s with
      playerList := Function.update s.playerList player.playerId.index (some p)
      logic := .pushActive id p } :=
  { H with
    player := fun j q hj => by
      rcases update_some_eq_some.mp hj with ⟨rfl, rfl⟩ | ⟨-, hj⟩
      · exact ⟨_, _, names_of_players hp, rfl⟩
      · exact H.player j q hj
    requests := fun id' hid' => by
      obtain ⟨howner, hplayer⟩ := H.requests id' hid'
      refine ⟨howner, ?_⟩
      by_cases hi : id'.index = player.playerId.index
      · simp only [hi, Function.update_self]
        exact Option.some_ne_none _
      · simp only [Function.update_of_ne hi]
        exact hplayer
    logic := trivial }

/-- `FlushFrame` clears the entry of its player. -/
theorem Held.clear (H : Held owner s) (hpc : s.logic = .clear p) (hp : s.players p = some player) :
    Held owner { s with
      playerList := Function.update s.playerList player.playerId.index none
      logic := .free p player.playerId.index } := by
  have hl := H.logic
  rw [hpc] at hl
  obtain ⟨i, hi, howner⟩ := hl
  have hat : ∀ j, s.playerList j = some p → j = player.playerId.index := by
    intro j hj
    obtain ⟨playerId, id, hname, rfl⟩ := H.player j p hj
    rw [names_of_players hp] at hname
    cases hname
    rfl
  rw [hat i hi] at howner
  exact { H with
    player := fun j q hj => H.player j q (update_none_eq_some.mp hj).2
    requests := fun id' hid' => by
      obtain ⟨howner', hplayer⟩ := H.requests id' hid'
      refine ⟨howner', ?_⟩
      have hne : id'.index ≠ player.playerId.index := by
        intro he
        rw [he, howner] at howner'
        cases howner'
      simp only [Function.update_of_ne hne]
      exact hplayer
    logic := ⟨howner, fun j hj => by
      obtain ⟨hne, hj⟩ := update_none_eq_some.mp hj
      exact hne (hat j hj)⟩ }

/-- An index goes back to the stack. -/
theorem Held.giveIndex (H : Held owner s) (hi : owner i = .flushing ∨ owner i = .returning)
    (hrequests : Slots.requests destroy s.destroyPlayerRequestQueue =
      Slots.requests s.destroy s.destroyPlayerRequestQueue)
    (hapart : ∀ p id q id', s.accept = .built p id → destroy = .unmapped q id' → p ≠ q)
    (hlogic : LogicHeld (Function.update owner i .free) s.playerList logic)
    (hdestroy : DestroyHeld (Function.update owner i .free) s.ids s.sessionMap destroy) :
    Held (Function.update owner i .free) { s with
      emptySessionMapStack := i :: s.emptySessionMapStack, logic := logic, destroy := destroy } := by
  have hother : ∀ x : Owner, x ≠ .flushing → x ≠ .returning → owner i ≠ x := by
    intro x hflush hreturn h
    rcases hi with hi | hi
    · exact hflush (h.symm.trans hi)
    · exact hreturn (h.symm.trans hi)
  exact { H with
    stack_nodup := List.nodup_cons.mpr
      ⟨fun hmem => hother .free nofun nofun (H.stack i hmem), H.stack_nodup⟩
    stack := fun j hj => by
      by_cases hji : j = i
      · rw [hji, Function.update_self]
      · rw [Function.update_of_ne hji]
        exact H.stack j ((List.mem_cons.mp hj).resolve_left hji)
    session := fun q id hq => owner_of_ne (H.session q id hq) (hother _ nofun nofun)
    requests_nodup := hrequests ▸ H.requests_nodup
    requests := fun id hid => by
      obtain ⟨howner, hplayer⟩ := H.requests id (hrequests ▸ hid)
      exact ⟨owner_of_ne howner (hother _ nofun nofun), hplayer⟩
    apart := hapart
    logic := hlogic
    destroy := hdestroy }

/-- The pushed index is no longer owed. -/
theorem owed_free (hi : (owner i).awaits = 1) :
    owed (Function.update owner i .free) destroy j + [i].count j = owed owner destroy j := by
  unfold owed
  by_cases hj : j = i
  · rw [hj, Function.update_self, hi, List.count_singleton_self]
    simp only [Owner.awaits]
    omega
  · rw [Function.update_of_ne hj, List.count_singleton, if_neg]
    · rfl
    · simpa using fun he : i = j => hj he.symm

theorem Held.logicStep (H : Held owner s) (h : Slots.logicStep s = .ok t) :
    ∃ owner', Held owner' t ∧ Balanced owner owner' s t .logicThread := by
  have hl := H.logic
  have hpush : ∀ {logic}, s.logic = logic → (∀ i, logic ≠ .giveIndex i) →
      pushedBy s .logicThread = [] := by
    intro logic hpc hne
    cases logic <;> simp only [pushedBy, hpc]
    exact absurd rfl (hne _)
  have hbalance : ∀ {t : State}, t.destroy = s.destroy → pushedBy s .logicThread = [] →
      Balanced owner owner s t .logicThread := fun hdestroy hnil =>
    .of_owed hnil rfl fun i => by rw [hdestroy]
  unfold Slots.logicStep at h
  split at h
  all_goals rename_i hpc; rw [hpc] at hl
  · cases h
  · split at h
    · cases h
      exact ⟨owner, H.freePlayer hl trivial, hbalance rfl (hpush hpc nofun)⟩
    · cases h
      exact ⟨owner, { H with logic := hl }, hbalance rfl (hpush hpc nofun)⟩
  · split at h
    · cases h
    · cases h
      exact ⟨owner, { H with logic := hl }, hbalance rfl (hpush hpc nofun)⟩
  · split at h
    · rename_i session player hq hp
      cases h
      exact ⟨owner, H.writeSession hq rfl hl, hbalance rfl (hpush hpc nofun)⟩
    · cases h
  · split at h
    · cases h
    · rename_i player hp
      cases h
      exact ⟨owner, H.store hp, hbalance rfl (hpush hpc nofun)⟩
  · cases h
    exact ⟨owner, { H with logic := trivial }, hbalance rfl (hpush hpc nofun)⟩
  · split at h
    · cases h
    · rename_i p hp
      cases h
      exact ⟨owner, { H with logic := ⟨_, hp, hl.1⟩ }, hbalance rfl (hpush hpc nofun)⟩
  · cases h
    exact ⟨owner, { H with logic := hl }, hbalance rfl (hpush hpc nofun)⟩
  · split at h
    · cases h
    · rename_i player hp
      cases h
      exact ⟨owner, H.clear hpc hp, hbalance rfl (hpush hpc nofun)⟩
  · cases h
    exact ⟨owner, H.freePlayer hl.2 hl.1, hbalance rfl (hpush hpc nofun)⟩
  · rename_i i
    cases h
    have howner : owner i = .flushing := hl
    refine ⟨_, H.giveIndex (Or.inl howner) rfl H.apart trivial
      (H.destroy.setOwner (by rw [howner]; nofun) (by rw [howner]; nofun)), fun j => ?_⟩
    rw [pushedBy, hpc]
    exact owed_free (by rw [howner]; rfl)

/-! ### The destroy thread -/

theorem Held.onRelease (H : Held owner s) (h : Slots.onRelease s p = .ok t) :
    Held owner t ∧ Balanced owner owner s t (.onRelease p) := by
  unfold Slots.onRelease at h
  split at h
  · rename_i session hpc hp
    split at h
    · rename_i hmap
      cases h
      have hrequests := H.requests
      have hnodup := H.requests_nodup
      rw [hpc] at hrequests hnodup
      refine ⟨{ H with
        mapped := fun j q hj => H.mapped j q (update_none_eq_some.mp hj).2
        requests_nodup := hnodup
        requests := hrequests
        apart := fun q id q' id' haccept hdestroy => ?_
        accept := ?_
        destroy := ⟨ids_of_heap hp, Function.update_self ..⟩ }, fun i => ?_⟩
      · cases hdestroy
        have ha := H.accept
        rw [haccept] at ha
        rintro rfl
        have hid := ha.1
        rw [ids_of_heap hp] at hid
        cases hid
        exact Option.some_ne_none _ (hmap.symm.trans ha.2)
      · have ha := H.accept
        cases hpc' : s.accept with
        | built q id =>
          rw [hpc'] at ha
          refine ⟨ha.1, ?_⟩
          by_cases hi : id.index = session.sessionId.index
          · simp only [hi, Function.update_self]
          · simp only [Function.update_of_ne hi]
            exact ha.2
        | _ => rw [hpc'] at ha; exact ha
      · simp only [owed, hpc, releasedBy, pushedBy, hp, Option.toList_some, List.map_cons,
          List.map_nil, List.count_singleton, List.count_nil, Nat.add_zero, beq_iff_eq]
    · cases h
  · cases h

/-- `OnRelease` frees the session. -/
theorem Held.freeSession (H : Held owner s) (hpc : s.destroy = .unmapped p id) :
    Held (Function.update owner id.index (.released id))
        { s with heap := Function.update s.heap p none, destroy := .freed id } ∧
      ∀ i, owed (Function.update owner id.index (.released id)) (.freed id) i =
        owed owner s.destroy i := by
  have hd := H.destroy
  have hrequests := H.requests
  have hnodup := H.requests_nodup
  rw [hpc] at hd hrequests hnodup
  obtain ⟨hid, hunmapped⟩ := hd
  have howner := H.session p id hid
  have hleft : ∀ q id', (Function.update s.heap p none q).map Session.sessionId = some id' →
      q ≠ p ∧ s.ids q = some id' := by
    intro q id' hq
    by_cases hqp : q = p
    · simp only [hqp, Function.update_self, Option.map_none, reduceCtorEq] at hq
    · simp only [Function.update_of_ne hqp] at hq
      exact ⟨hqp, hq⟩
  have hkeep : ∀ q id', q ≠ p → s.ids q = some id' →
      (Function.update s.heap p none q).map Session.sessionId = some id' := by
    intro q id' hqp hq
    rw [Function.update_of_ne hqp]
    exact hq
  refine ⟨{ H with
    stack := fun j hj => owner_of_ne (H.stack j hj) (by rw [howner]; nofun)
    session := fun q id' hq => ?_
    mapped := fun j q hj => ?_
    requests_nodup := hnodup
    requests := fun id' hid' => ?_
    apart := nofun
    accept := ?_
    logic := H.logic.setOwner (by rw [howner]; nofun)
    destroy := Function.update_self .. }, fun i => ?_⟩
  · obtain ⟨hqp, hq⟩ := hleft q id' hq
    refine owner_of_ne (H.session q id' hq) fun he => hqp ?_
    rw [howner] at he
    cases he
    rfl
  · obtain ⟨id', hq, rfl⟩ := H.mapped j q hj
    refine ⟨id', hkeep q id' ?_ hq, rfl⟩
    rintro rfl
    rw [hid] at hq
    cases hq
    exact Option.some_ne_none _ (hj.symm.trans hunmapped)
  · obtain ⟨howner', hplayer⟩ := hrequests id' hid'
    exact ⟨owner_of_ne howner' (by rw [howner]; nofun), hplayer⟩
  · have ha := H.accept
    cases hpc' : s.accept with
    | built q id' =>
      rw [hpc'] at ha
      exact ⟨hkeep q id' (H.apart q id' p id hpc' hpc) ha.1, ha.2⟩
    | _ => trivial
  · unfold owed
    rw [hpc]
    dsimp only
    by_cases hi : id.index = i
    · rw [← hi, Function.update_self, howner, if_pos rfl]
      rfl
    · rw [Function.update_of_ne (Ne.symm hi), if_neg hi]

/-- `RequestDestroyPlayer` finds no player, and returns the index itself. -/
theorem Held.returning (H : Held owner s) (hpc : s.destroy = .freed id) :
    Held (Function.update owner id.index .returning) { s with destroy := .giveIndex id.index } := by
  have howner := H.destroy
  have hrequests := H.requests
  have hnodup := H.requests_nodup
  rw [hpc] at howner hrequests hnodup
  have howner : owner id.index = .released id := howner
  exact { H with
    stack := fun j hj => owner_of_ne (H.stack j hj) (by rw [howner]; nofun)
    session := fun q id' hq => owner_of_ne (H.session q id' hq) (by rw [howner]; nofun)
    requests_nodup := hnodup
    requests := fun id' hid' => by
      obtain ⟨howner', hplayer⟩ := hrequests id' hid'
      exact ⟨owner_of_ne howner' (by rw [howner]; nofun), hplayer⟩
    apart := nofun
    logic := H.logic.setOwner (by rw [howner]; nofun)
    destroy := Function.update_self .. }

/-- `RequestDestroyPlayer` finds a player, and leaves the index to its request. -/
theorem Held.requested (H : Held owner s) (hpc : s.destroy = .freed id)
    (hp : s.playerList id.index = some p) :
    Held (Function.update owner id.index (.requested id)) { s with destroy := .mark id p } := by
  have howner := H.destroy
  have hrequests := H.requests
  have hnodup := H.requests_nodup
  rw [hpc] at howner hrequests hnodup
  have howner : owner id.index = .released id := howner
  have hnew : id ∉ s.destroyPlayerRequestQueue := by
    intro hmem
    have := (hrequests id hmem).1
    rw [howner] at this
    cases this
  exact { H with
    stack := fun j hj => owner_of_ne (H.stack j hj) (by rw [howner]; nofun)
    session := fun q id' hq => owner_of_ne (H.session q id' hq) (by rw [howner]; nofun)
    requests_nodup := List.nodup_cons.mpr ⟨hnew, hnodup⟩
    requests := fun id' hid' => by
      rcases List.mem_cons.mp hid' with rfl | hid'
      · exact ⟨Function.update_self .., by rw [hp]; exact Option.some_ne_none _⟩
      · obtain ⟨howner', hplayer⟩ := hrequests id' hid'
        exact ⟨owner_of_ne howner' (by rw [howner]; nofun), hplayer⟩
    apart := nofun
    logic := H.logic.setOwner (by rw [howner]; nofun)
    destroy := trivial }

theorem Held.destroyStep (H : Held owner s) (h : Slots.destroyStep s = .ok t) :
    ∃ owner', Held owner' t ∧ Balanced owner owner' s t .destroyThread := by
  have hd := H.destroy
  have hrequests := H.requests
  have hnodup := H.requests_nodup
  unfold Slots.destroyStep at h
  split at h
  all_goals rename_i hpc; rw [hpc] at hd hrequests hnodup
  · cases h
  · rename_i p id
    cases h
    obtain ⟨H', howed⟩ := H.freeSession hpc
    exact ⟨_, H', .of_owed (by rw [pushedBy, hpc]) rfl howed⟩
  · rename_i id
    have howner : owner id.index = .released id := hd
    split at h
    · cases h
      refine ⟨_, H.returning hpc, .of_owed (by rw [pushedBy, hpc]) rfl fun i => ?_⟩
      rw [hpc]
      exact @owed_setOwner owner _ _ i (.freed id) (by rw [howner]; rfl)
    · rename_i p hp
      cases h
      refine ⟨_, H.requested hpc hp, .of_owed (by rw [pushedBy, hpc]) rfl fun i => ?_⟩
      rw [hpc]
      exact @owed_setOwner owner _ _ i (.freed id) (by rw [howner]; rfl)
  · rename_i id p
    split at h
    · cases h
    · rename_i player hp
      cases h
      have hnames := @names_update s p player
        { player with isDead := true, isDestroyRequest := true } hp rfl rfl
      refine ⟨owner, { H with
        player := fun j q hj => ?_
        requests_nodup := hnodup
        requests := hrequests
        apart := nofun
        destroy := trivial }, .of_owed (by rw [pushedBy, hpc]) rfl fun i => by rw [hpc]; rfl⟩
      obtain ⟨playerId, id', hq, hindex⟩ := H.player j q hj
      exact ⟨playerId, id', (congrFun hnames q).trans hq, hindex⟩
  · rename_i id
    cases h
    have hperm : (Slots.requests .idle (s.destroyPlayerRequestQueue ++ [id])).Perm
        (Slots.requests (.enqueue id) s.destroyPlayerRequestQueue) :=
      List.perm_append_singleton id s.destroyPlayerRequestQueue
    exact ⟨owner, { H with
      requests_nodup := hperm.nodup_iff.mpr hnodup
      requests := fun id' hid' => hrequests id' (hperm.mem_iff.mp hid')
      apart := nofun
      destroy := trivial }, .of_owed (by rw [pushedBy, hpc]) rfl fun i => by rw [hpc]; rfl⟩
  · rename_i i
    cases h
    have howner : owner i = .returning := hd
    refine ⟨_, H.giveIndex (Or.inr howner) (by rw [hpc]; rfl) nofun
      (H.logic.setOwner (by rw [howner]; nofun)) trivial, fun j => ?_⟩
    rw [pushedBy, hpc]
    have hfree : owed (Function.update owner i .free) (.giveIndex i) j + [i].count j =
        owed owner (.giveIndex i) j := owed_free (by rw [howner]; rfl)
    exact hfree

/-! ## Runs -/

/-- **A step keeps the owners apart**, and what is on its way back grows by a release and shrinks
by a push. -/
theorem Held.step (H : Held owner s) (hok : PopOk s a) (h : Slots.step s a = .ok t) :
    ∃ owner', Held owner' t ∧ Balanced owner owner' s t a := by
  cases a with
  | onAccept p => exact H.onAccept hok h
  | acceptThread => exact ⟨owner, H.acceptStep h⟩
  | createNewPlayer p => exact ⟨owner, H.createNewPlayer h⟩
  | flushFrame => exact H.flushFrame h
  | logicThread => exact H.logicStep h
  | onRelease p => exact ⟨owner, H.onRelease h⟩
  | destroyThread => exact H.destroyStep h

theorem Held.init (maxSessionCount : Nat) (uniqueCharacterId : UInt32) :
    Held (fun _ => .free) (Slots.init maxSessionCount uniqueCharacterId) :=
  ⟨List.nodup_range, fun _ _ => rfl, nofun, nofun, nofun, List.nodup_nil, nofun, nofun, trivial,
    trivial, trivial⟩

/-- A mapped slot is a session's. -/
theorem Held.owner_of_mapped (H : Held owner s) (h : s.sessionMap i = some p) :
    ∃ id, owner i = .session p id := by
  obtain ⟨id, hid, rfl⟩ := H.mapped i p h
  exact ⟨id, H.session p id hid⟩

/-- What nobody's session is under is not mapped. -/
theorem Held.unmapped (H : Held owner s) (h : ∀ p id, owner i ≠ .session p id) :
    s.sessionMap i = none := by
  by_contra hne
  obtain ⟨p, hp⟩ := Option.ne_none_iff_exists'.mp hne
  obtain ⟨id, howner⟩ := H.owner_of_mapped hp
  exact h p id howner

/-- `FlushFrame` is the owner of the slot it is at work on. -/
theorem Held.flushing (H : Held owner s) (h : flushIndex s = some i) : owner i = .flushing := by
  have hl := H.logic
  have hplayer : ∀ p, (∃ j, s.playerList j = some p ∧ owner j = .flushing) →
      (s.players p).map (fun player => player.playerId.index) = some i → owner i = .flushing := by
    rintro p ⟨j, hj, howner⟩ hi
    obtain ⟨playerId, id, hname, rfl⟩ := H.player j p hj
    obtain ⟨player, hp, heq⟩ := Option.map_eq_some_iff.mp hname
    cases heq
    rw [hp] at hi
    cases hi
    exact howner
  unfold flushIndex at h
  split at h
  all_goals try rename_i hpc; rw [hpc] at hl
  · cases h
    exact hl.1
  · exact hplayer _ hl h
  · exact hplayer _ hl h
  · cases h
    exact hl.1
  · cases h
    exact hl
  · cases h

end Slots

end IocpServer
