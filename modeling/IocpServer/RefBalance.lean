import IocpServer.Struct
import IocpServer.Lib.Run
import IocpServer.Lib.Table

/-!
# The reference the logic thread takes while it processes a packet

`ProcessPackets` with `AddRefSession` and `ReleaseRefSession`, step by step, interleaved with
`SessionDestroyThread` and `OnAccept`.  What all other threads hold of a session (and what
`SendPacket` takes and gives back inside a handler) is counted in `others`, in step with
`ioCount`.

`AddRefSession` takes its increment back when the result is at most 1, and `ProcessPackets`
releases all the same.

* `RefOk` — the step condition: the increment of `AddRefSession` meets a session that is still
  mapped, is referenced by someone else and is not being released; `OnAccept` takes a free slot
  and an id that is not the one at hand.
* `Inv` — `ioCount` is what the others hold plus what the logic thread holds, and what it holds
  stays mapped until it is released.
* `run_balanced` — **in every run whose steps meet the condition the count is balanced, never
  below 0, and a session nobody holds passes the destroy thread's check.**
-/

set_option autoImplicit false

namespace IocpServer

open Lib

namespace RefBalance

/-- The fields of `SESSION` the reference count depends on.  `ioCount` is an `unsigned long`; -1
stands for its largest value. -/
structure Session where
  sessionId : SessionId
  ioCount : Int
  isDisconnectRequest : Bool

/-- The fields of `Player` that `ProcessPackets` reads. -/
structure Player where
  playerId : PlayerId
  sessionId : SessionId

/-- Where the logic thread stands in `ProcessPackets`.  `held` is the session whose count its
`AddRefSession` has raised. -/
inductive LogicPc where
  | idle
  | addRef (id : SessionId)
  /-- `AddRefSession` has read `s` from `sessionMap`. -/
  | addRefRead (id : SessionId) (s : Nat)
  | addRefInc (id : SessionId) (s : Nat)
  | addRefUndo (id : SessionId) (s : Nat)
  /-- `PacketProc...` of the packet. -/
  | handler (id : SessionId) (held : Option Nat)
  | release (id : SessionId) (held : Option Nat)
  | releaseRead (id : SessionId) (s : Nat) (held : Option Nat)
  | releaseDec (id : SessionId) (s : Nat) (held : Option Nat)
  | releasePush (id : SessionId)

/-- Where the destroy thread stands with one request. -/
inductive DestroyPc where
  | idle
  | dequeued (id : SessionId)
  | mapRead (id : SessionId) (s : Nat)
  /-- Behind the check of the id. -/
  | matched (s : Nat)
  /-- Before the check of `ioCount`. -/
  | checking (s : Nat)
  /-- `OnRelease`. -/
  | releasing (s : Nat)
  /-- `OnRelease`, the entry of `sessionMap` is null. -/
  | unmapped (s : Nat)

structure State where
  heap : Nat → Option Session
  sessionMap : Nat → Option Nat
  destroySessionRequestQueue : List SessionId
  packetQueue : List IncomingPacketInfo
  playerList : Nat → Option Player
  logic : LogicPc
  destroy : DestroyPc
  others : Nat → Nat

inductive Fault where
  | useAfterFree
  | notEnabled
  deriving DecidableEq

inductive Action where
  | logic
  | destroy
  /-- `OnAccept` stores the new session `s` with the id it was given. -/
  | accept (s : Nat) (id : SessionId)
  /-- Another thread raises or lowers `ioCount`. -/
  | acquire (s : Nat)
  | giveBack (s : Nat)
  /-- Another thread pushes a destroy request. -/
  | requestDestroy (id : SessionId)
  | pushIncomingPacket (ipi : IncomingPacketInfo)
  /-- The rest of the logic thread's loop: players come and go. -/
  | frame (playerList : Nat → Option Player)

def State.setCount (s : State) (p : Nat) (session : Session) (ioCount : Int) : State :=
  { s with heap := Function.update s.heap p (some { session with ioCount := ioCount }) }

/-- The next step of the logic thread.  `ProcessPackets` compares the character ids once more
behind `AddRefSession`, which cannot fail behind the first comparison. -/
def logicStep (s : State) : Except Fault State :=
  match s.logic with
  | .idle =>
    match s.packetQueue with
    | [] => .error .notEnabled
    | ipi :: packetQueue =>
      match s.playerList ipi.playerId.index with
      | none => .ok { s with packetQueue := packetQueue }
      | some player =>
        if player.playerId ≠ ipi.playerId then .ok { s with packetQueue := packetQueue }
        else .ok { s with packetQueue := packetQueue, logic := .addRef player.sessionId }
  | .addRef id =>
    match s.sessionMap id.index with
    | none => .ok { s with logic := .handler id none }
    | some p => .ok { s with logic := .addRefRead id p }
  | .addRefRead id p =>
    match s.heap p with
    | none => .error .useAfterFree
    | some session =>
      if session.sessionId ≠ id then .ok { s with logic := .handler id none }
      else .ok { s with logic := .addRefInc id p }
  | .addRefInc id p =>
    match s.heap p with
    | none => .error .useAfterFree
    | some session =>
      let s := s.setCount p session (session.ioCount + 1)
      -- `<= 1` on an `unsigned long`
      if session.ioCount + 1 = 0 ∨ session.ioCount + 1 = 1 then
        .ok { s with logic := .addRefUndo id p }
      else .ok { s with logic := .handler id (some p) }
  | .addRefUndo id p =>
    match s.heap p with
    | none => .error .useAfterFree
    | some session =>
      .ok { s.setCount p session (session.ioCount - 1) with logic := .handler id none }
  | .handler id held => .ok { s with logic := .release id held }
  | .release id held =>
    match s.sessionMap id.index with
    | none => .ok { s with logic := .idle }
    | some p => .ok { s with logic := .releaseRead id p held }
  | .releaseRead id p held =>
    match s.heap p with
    | none => .error .useAfterFree
    | some session =>
      if session.sessionId ≠ id then .ok { s with logic := .idle }
      else .ok { s with logic := .releaseDec id p held }
  | .releaseDec id p _ =>
    match s.heap p with
    | none => .error .useAfterFree
    | some session =>
      let s := s.setCount p session (session.ioCount - 1)
      if session.ioCount - 1 = 0 then .ok { s with logic := .releasePush id }
      else .ok { s with logic := .idle }
  | .releasePush id =>
    .ok { s with
      destroySessionRequestQueue := s.destroySessionRequestQueue ++ [id]
      logic := .idle }

/-- The next step of the destroy thread. -/
def destroyStep (s : State) : Except Fault State :=
  match s.destroy with
  | .idle =>
    match s.destroySessionRequestQueue with
    | [] => .error .notEnabled
    | id :: queue => .ok { s with destroySessionRequestQueue := queue, destroy := .dequeued id }
  | .dequeued id =>
    match s.sessionMap id.index with
    | none => .ok { s with destroy := .idle }
    | some p => .ok { s with destroy := .mapRead id p }
  | .mapRead id p =>
    match s.heap p with
    | none => .error .useAfterFree
    | some session =>
      if session.sessionId ≠ id then .ok { s with destroy := .idle }
      else .ok { s with destroy := .matched p }
  | .matched p =>
    match s.heap p with
    | none => .error .useAfterFree
    | some session =>
      .ok { s with
        heap := Function.update s.heap p (some { session with isDisconnectRequest := true })
        destroy := .checking p }
  | .checking p =>
    match s.heap p with
    | none => .error .useAfterFree
    | some session =>
      if session.ioCount ≠ 0 then
        .ok { s with
          destroySessionRequestQueue := s.destroySessionRequestQueue ++ [session.sessionId]
          destroy := .idle }
      else .ok { s with destroy := .releasing p }
  | .releasing p =>
    match s.heap p with
    | none => .error .useAfterFree
    | some session =>
      .ok { s with
        sessionMap := Function.update s.sessionMap session.sessionId.index none
        destroy := .unmapped p }
  | .unmapped p =>
    match s.heap p with
    | none => .error .useAfterFree
    | some _ => .ok { s with heap := Function.update s.heap p none, destroy := .idle }

def step (s : State) : Action → Except Fault State
  | .logic => logicStep s
  | .destroy => destroyStep s
  | .accept p id =>
    match s.heap p with
    | some _ => .error .notEnabled
    | none =>
      .ok { s with
        heap := Function.update s.heap p (some ⟨id, 0, false⟩)
        sessionMap := Function.update s.sessionMap id.index (some p)
        others := Function.update s.others p 0 }
  | .acquire p =>
    match s.heap p with
    | none => .error .notEnabled
    | some session =>
      .ok { s.setCount p session (session.ioCount + 1) with
        others := Function.update s.others p (s.others p + 1) }
  | .giveBack p =>
    match s.heap p with
    | none => .error .notEnabled
    | some session =>
      if s.others p = 0 then .error .notEnabled
      else
        .ok { s.setCount p session (session.ioCount - 1) with
          others := Function.update s.others p (s.others p - 1) }
  | .requestDestroy id =>
    .ok { s with destroySessionRequestQueue := s.destroySessionRequestQueue ++ [id] }
  | .pushIncomingPacket ipi => .ok { s with packetQueue := s.packetQueue ++ [ipi] }
  | .frame playerList =>
    match s.logic with
    | .idle => .ok { s with playerList := playerList }
    | _ => .error .notEnabled

/-- A server without sessions, packets and players. -/
def init : State where
  heap := fun _ => none
  sessionMap := fun _ => none
  destroySessionRequestQueue := []
  packetQueue := []
  playerList := fun _ => none
  logic := .idle
  destroy := .idle
  others := fun _ => 0

/-! ## The promise and its condition -/

/-- The session whose count the logic thread has raised. -/
def LogicPc.held : LogicPc → Option Nat
  | .addRefUndo _ p => some p
  | .handler _ held | .release _ held | .releaseRead _ _ held | .releaseDec _ _ held => held
  | _ => none

/-- The references the logic thread holds of a session. -/
def State.held (s : State) (p : Nat) : Nat := if s.logic.held = some p then 1 else 0

/-- The count is what is held, and a session nobody holds can be released. -/
structure Balanced (s : State) : Prop where
  ioCount_eq : ∀ p session, s.heap p = some session → session.ioCount = s.others p + s.held p
  ioCount_nonneg : ∀ p session, s.heap p = some session → 0 ≤ session.ioCount
  releasable : ∀ p session, s.heap p = some session → s.others p = 0 → s.held p = 0 →
    s.destroy = .checking p → step s .destroy = .ok { s with destroy := .releasing p }

/-- The id of the packet at hand. -/
def LogicPc.id : LogicPc → Option SessionId
  | .idle | .releasePush _ => none
  | .addRef id | .addRefRead id _ | .addRefInc id _ | .addRefUndo id _ | .handler id _
  | .release id _ | .releaseRead id _ _ | .releaseDec id _ _ => some id

/-- The step condition. -/
def RefOk (s : State) : Action → Prop
  | .logic =>
    match s.logic with
    | .addRefInc id p =>
      s.sessionMap id.index = some p ∧ s.destroy ≠ .releasing p ∧
        ∃ session, s.heap p = some session ∧ session.sessionId = id ∧ 1 ≤ session.ioCount
    | _ => True
  | .accept _ id => s.sessionMap id.index = none ∧ s.logic.id ≠ some id
  | _ => True

/-! ## The invariant -/

/-- The ids of the allocated sessions. -/
def State.ids (s : State) (p : Nat) : Option SessionId := (s.heap p).map Session.sessionId

section

variable (ids : Nat → Option SessionId) (sessionMap : Nat → Option Nat)

/-- No session with this id is mapped. -/
def Absent (id : SessionId) : Prop := ∀ p, sessionMap id.index = some p → ids p ≠ some id

/-- `p` is mapped under its id and not being released. -/
def Holds (destroy : DestroyPc) (id : SessionId) (p : Nat) : Prop :=
  sessionMap id.index = some p ∧ ids p = some id ∧ destroy ≠ .releasing p

def LogicOk (destroy : DestroyPc) : LogicPc → Prop
  | .idle | .addRef _ | .addRefInc _ _ | .releasePush _ => True
  | .addRefRead id p => sessionMap id.index = some p ∧ ids p = some id ∨ Absent ids sessionMap id
  | .addRefUndo _ _ => False
  | .handler id (some p) | .release id (some p) => Holds ids sessionMap destroy id p
  | .handler id none | .release id none => Absent ids sessionMap id
  | .releaseRead id p (some q) => q = p ∧ Holds ids sessionMap destroy id p
  | .releaseRead id p none => Absent ids sessionMap id ∧ ids p ≠ some id
  | .releaseDec id p held => held = some p ∧ Holds ids sessionMap destroy id p

def DestroyOk : DestroyPc → Prop
  | .idle | .dequeued _ => True
  | .mapRead id p => sessionMap id.index = some p
  | .matched p | .checking p | .releasing p =>
    ∃ id, ids p = some id ∧ sessionMap id.index = some p
  | .unmapped p => ids p ≠ none ∧ ∀ i, sessionMap i ≠ some p

end

structure Inv (s : State) : Prop where
  balance : ∀ p session, s.heap p = some session → session.ioCount = s.others p + s.held p
  mapped : ∀ i p, s.sessionMap i = some p → ∃ id, s.ids p = some id ∧ id.index = i
  logic : LogicOk s.ids s.sessionMap s.destroy s.logic
  destroy : DestroyOk s.ids s.sessionMap s.destroy

variable {s t : State} {a : Action} {p : Nat} {session : Session} {logic : LogicPc}
  {destroy : DestroyPc} {ids : Nat → Option SessionId} {sessionMap : Nat → Option Nat}

theorem ids_of_heap (h : s.heap p = some session) : s.ids p = some session.sessionId := by
  rw [State.ids, h]; rfl

/-- What the logic thread holds is mapped and not being released. -/
theorem LogicOk.holds (h : LogicOk ids sessionMap destroy logic) (hp : logic.held = some p) :
    ∃ id, Holds ids sessionMap destroy id p := by
  cases logic with
  | idle | addRef | addRefRead | addRefInc | releasePush => cases hp
  | addRefUndo => exact h.elim
  | handler id held | release id held => cases hp; exact ⟨id, h⟩
  | releaseRead id q held =>
    cases hp
    obtain ⟨rfl, h⟩ := h
    exact ⟨id, h⟩
  | releaseDec id q held =>
    cases hp
    obtain ⟨heq, h⟩ := h
    cases heq
    exact ⟨id, h⟩

/-- What the logic thread knows survives a change of sessions, map and destroy thread that keeps
what it says about the id at hand. -/
theorem LogicOk.transfer {destroy' : DestroyPc} {ids' : Nat → Option SessionId}
    {sessionMap' : Nat → Option Nat} (h : LogicOk ids sessionMap destroy logic)
    (hholds : ∀ id p, logic.held = some p → Holds ids sessionMap destroy id p →
      Holds ids' sessionMap' destroy' id p)
    (habsent : ∀ id, logic.id = some id → Absent ids sessionMap id → Absent ids' sessionMap' id)
    (hread : ∀ id p, sessionMap id.index = some p → ids p = some id →
      sessionMap' id.index = some p ∧ ids' p = some id ∨ Absent ids' sessionMap' id)
    (hother : ∀ id p, logic.id = some id → ids p ≠ some id → ids' p ≠ some id) :
    LogicOk ids' sessionMap' destroy' logic := by
  cases logic with
  | idle | addRef | addRefInc | releasePush => trivial
  | addRefUndo => exact h
  | addRefRead id p =>
    rcases h with ⟨hmap, hid⟩ | habs
    · exact hread id p hmap hid
    · exact Or.inr (habsent id rfl habs)
  | handler id held | release id held =>
    cases held with
    | none => exact habsent id rfl h
    | some q => exact hholds id q rfl h
  | releaseRead id q held =>
    cases held with
    | none => exact ⟨habsent id rfl h.1, hother id q rfl h.2⟩
    | some q' => exact ⟨h.1, hholds id q (congrArg some h.1) h.2⟩
  | releaseDec id q held => exact ⟨h.1, hholds id q h.1 h.2⟩

/-- The destroy thread moves on, not to the release of the session held. -/
theorem LogicOk.setDestroy {destroy' : DestroyPc} (h : LogicOk ids sessionMap destroy logic)
    (hne : ∀ p, logic.held = some p → destroy' ≠ .releasing p) :
    LogicOk ids sessionMap destroy' logic :=
  h.transfer (fun _ p hp hh => ⟨hh.1, hh.2.1, hne p hp⟩) (fun _ _ ha => ha)
    (fun _ _ hmap hid => Or.inl ⟨hmap, hid⟩) fun _ _ _ ho => ho

/-- What the destroy thread knows survives new sessions and new entries. -/
theorem DestroyOk.transfer {ids' : Nat → Option SessionId} {sessionMap' : Nat → Option Nat}
    (h : DestroyOk ids sessionMap destroy)
    (hmap : ∀ i p, sessionMap i = some p → sessionMap' i = some p)
    (hids : ∀ p, ids p ≠ none → ids' p = ids p)
    (hold : ∀ i p, ids p ≠ none → sessionMap' i = some p → sessionMap i = some p) :
    DestroyOk ids' sessionMap' destroy := by
  cases destroy with
  | idle | dequeued => trivial
  | mapRead id p => exact hmap _ p h
  | matched p | checking p | releasing p =>
    obtain ⟨id, hid, hp⟩ := h
    exact ⟨id, (hids p (by rw [hid]; nofun)).trans hid, hmap _ p hp⟩
  | unmapped p => exact ⟨hids p h.1 ▸ h.1, fun i hi => h.2 i (hold i p h.1 hi)⟩

/-! ## Changes of the count -/

theorem ids_setCount (h : s.heap p = some session) (ioCount : Int) :
    (s.setCount p session ioCount).ids = s.ids := by
  funext q
  by_cases hq : q = p
  · subst hq
    simp only [State.ids, State.setCount, Function.update_self, h, Option.map_some]
  · simp only [State.ids, State.setCount, Function.update_of_ne hq]

/-- The count of one session changes together with what is held of it. -/
theorem Inv.setCount (I : Inv s) (hp : s.heap p = some session) {ioCount : Int}
    (others : Nat → Nat) (logic : LogicPc)
    (hcount : ioCount = others p + (if logic.held = some p then 1 else 0 : Nat))
    (hothers : ∀ q, q ≠ p → others q = s.others q)
    (hheld : ∀ q, q ≠ p → (logic.held = some q ↔ s.logic.held = some q))
    (hlogic : LogicOk s.ids s.sessionMap s.destroy logic) :
    Inv { s.setCount p session ioCount with others := others, logic := logic } := by
  have hids := ids_setCount hp ioCount
  refine ⟨fun q session' hq => ?_, ?_, ?_, ?_⟩
  · rcases update_some_eq_some.mp hq with ⟨rfl, rfl⟩ | ⟨hqp, hq⟩
    · exact hcount
    · have hold := I.balance q session' hq
      simp only [State.held, hothers q hqp, hheld q hqp] at hold ⊢
      exact hold
  · show ∀ i q, s.sessionMap i = some q → ∃ id, (s.setCount p session ioCount).ids q = _ ∧ _
    rw [hids]; exact I.mapped
  · show LogicOk (s.setCount p session ioCount).ids _ _ _
    rw [hids]; exact hlogic
  · show DestroyOk (s.setCount p session ioCount).ids _ _
    rw [hids]; exact I.destroy

/-- The logic thread moves on and holds what it held. -/
theorem Inv.setLogic (I : Inv s) (logic : LogicPc) (hheld : logic.held = s.logic.held)
    (hlogic : LogicOk s.ids s.sessionMap s.destroy logic) (queue : List SessionId)
    (packetQueue : List IncomingPacketInfo) :
    Inv { s with
      destroySessionRequestQueue := queue, packetQueue := packetQueue, logic := logic } := by
  refine ⟨fun q session' hq => ?_, I.mapped, hlogic, I.destroy⟩
  have hold := I.balance q session' hq
  simp only [State.held, hheld] at hold ⊢
  exact hold

/-- The increment of `AddRefSession`. -/
theorem Inv.takeRef {id : SessionId} (I : Inv s) (hheld : s.logic.held = none)
    (hp : s.heap p = some session) (hholds : Holds s.ids s.sessionMap s.destroy id p) :
    Inv { s.setCount p session (session.ioCount + 1) with logic := .handler id (some p) } := by
  have hbalance := I.balance p session hp
  rw [State.held, hheld, if_neg nofun] at hbalance
  refine I.setCount hp s.others (.handler id (some p)) ?_ (fun _ _ => rfl) (fun q hq => ?_) hholds
  · simp only [LogicPc.held, if_true]
    omega
  · rw [hheld]
    exact ⟨fun he => absurd (Option.some.inj he).symm hq, nofun⟩

/-- The decrement of `ReleaseRefSession`. -/
theorem Inv.dropRef (I : Inv s) (hheld : s.logic.held = some p) (hp : s.heap p = some session)
    (logic : LogicPc) (hnone : logic.held = none)
    (hlogic : LogicOk s.ids s.sessionMap s.destroy logic) :
    Inv { s.setCount p session (session.ioCount - 1) with logic := logic } := by
  have hbalance := I.balance p session hp
  rw [State.held, if_pos hheld] at hbalance
  refine I.setCount hp s.others logic ?_ (fun _ _ => rfl) (fun q hq => ?_) hlogic
  · rw [hnone, if_neg nofun]
    omega
  · rw [hnone, hheld]
    exact ⟨nofun, fun he => absurd (Option.some.inj he).symm hq⟩

theorem Inv.logicStep (I : Inv s) (hok : RefOk s .logic) (h : RefBalance.logicStep s = .ok t) :
    Inv t := by
  have hl := I.logic
  unfold RefBalance.logicStep at h
  split at h
  all_goals rename_i hpc; rw [hpc] at hl
  · -- a packet is dequeued and its player looked up
    split at h
    · cases h
    · split at h
      · cases h; exact I.setLogic s.logic rfl I.logic _ _
      · split at h
        · cases h; exact I.setLogic s.logic rfl I.logic _ _
        · cases h; exact I.setLogic (.addRef _) (by rw [hpc]; rfl) trivial _ _
  · rename_i id
    split at h
    · rename_i hnone
      cases h
      exact I.setLogic (.handler id none) (by rw [hpc]; rfl)
        (fun p hp => by rw [hnone] at hp; cases hp) _ _
    · rename_i p hsome
      cases h
      refine I.setLogic (.addRefRead id p) (by rw [hpc]; rfl) ?_ _ _
      by_cases hid : s.ids p = some id
      · exact Or.inl ⟨hsome, hid⟩
      · refine Or.inr fun q hq => ?_
        rw [hsome] at hq
        cases hq
        exact hid
  · rename_i id p
    split at h
    · cases h
    · rename_i session hp
      split at h
      · rename_i hid
        cases h
        refine I.setLogic (.handler id none) (by rw [hpc]; rfl) ?_ _ _
        rcases hl with ⟨_, hmatch⟩ | habsent
        · rw [ids_of_heap hp] at hmatch
          exact absurd (Option.some.inj hmatch) hid
        · exact habsent
      · cases h
        exact I.setLogic (.addRefInc id p) (by rw [hpc]; rfl) trivial _ _
  · rename_i id p
    split at h
    · cases h
    · rename_i session hp
      simp only [RefOk, hpc] at hok
      obtain ⟨hmap, hdestroy, session', hp', hid, hcount⟩ := hok
      rw [hp] at hp'
      cases hp'
      have hbalance := I.balance p session hp
      dsimp only at h
      rw [if_neg (by omega)] at h
      cases h
      exact I.takeRef (by rw [hpc]; rfl) hp ⟨hmap, hid ▸ ids_of_heap hp, hdestroy⟩
  · exact hl.elim
  · rename_i id held
    cases h
    refine I.setLogic (.release id held) (by rw [hpc]; rfl) ?_ _ _
    cases held <;> exact hl
  · rename_i id held
    split at h
    · rename_i hnone
      cases h
      cases held with
      | none => exact I.setLogic .idle (by rw [hpc]; rfl) trivial _ _
      | some q =>
        have hq := hl.1
        rw [hnone] at hq
        cases hq
    · rename_i p hsome
      cases h
      refine I.setLogic (.releaseRead id p held) (by rw [hpc]; rfl) ?_ _ _
      cases held with
      | none => exact ⟨hl, hl p hsome⟩
      | some q =>
        have hq := hl.1
        rw [hsome] at hq
        cases hq
        exact ⟨rfl, hl⟩
  · rename_i id p held
    split at h
    · cases h
    · rename_i session hp
      split at h
      · rename_i hid
        cases h
        cases held with
        | none => exact I.setLogic .idle (by rw [hpc]; rfl) trivial _ _
        | some q =>
          have hmatch := hl.2.2.1
          rw [ids_of_heap hp] at hmatch
          exact absurd (Option.some.inj hmatch) hid
      · rename_i hid
        cases h
        cases held with
        | none =>
          rw [not_not] at hid
          exact absurd (hid ▸ ids_of_heap hp) hl.2
        | some q =>
          exact I.setLogic (.releaseDec id p (some q)) (by rw [hpc]; rfl)
            ⟨congrArg some hl.1, hl.2⟩ _ _
  · rename_i id p held
    split at h
    · cases h
    · rename_i session hp
      obtain ⟨rfl, -⟩ := hl
      have hheld : s.logic.held = some p := by rw [hpc]; rfl
      dsimp only at h
      split at h
      · cases h
        exact I.dropRef hheld hp (.releasePush id) rfl trivial
      · cases h
        exact I.dropRef hheld hp .idle rfl trivial
  · cases h
    exact I.setLogic .idle (by rw [hpc]; rfl) trivial _ _

/-! ## The destroy thread -/

/-- The destroy thread moves on without touching a session. -/
theorem Inv.setDestroy (I : Inv s) (destroy : DestroyPc)
    (hdestroy : DestroyOk s.ids s.sessionMap destroy)
    (hne : ∀ p, s.logic.held = some p → destroy ≠ .releasing p) (queue : List SessionId) :
    Inv { s with destroySessionRequestQueue := queue, destroy := destroy } :=
  ⟨I.balance, I.mapped, I.logic.setDestroy hne, hdestroy⟩

/-- The session is disconnected: neither the ids nor the counts change. -/
theorem Inv.disconnect (I : Inv s) (hp : s.heap p = some session)
    (hdestroy : DestroyOk s.ids s.sessionMap (.checking p)) :
    Inv { s with
      heap := Function.update s.heap p (some { session with isDisconnectRequest := true })
      destroy := .checking p } := by
  have hids : ({ s with
      heap := Function.update s.heap p (some { session with isDisconnectRequest := true })
      destroy := .checking p } : State).ids = s.ids := by
    funext q
    by_cases hq : q = p
    · subst hq; simp only [State.ids, Function.update_self, hp, Option.map_some]
    · simp only [State.ids, Function.update_of_ne hq]
  refine ⟨fun q session' hq => ?_, ?_, ?_, ?_⟩
  · rcases update_some_eq_some.mp hq with ⟨rfl, rfl⟩ | ⟨-, hq⟩
    · exact I.balance q session hp
    · exact I.balance q session' hq
  · rw [hids]; exact I.mapped
  · rw [hids]; exact I.logic.setDestroy fun _ _ => nofun
  · rw [hids]; exact hdestroy

/-- `OnRelease` clears the session's entry. -/
theorem Inv.unmap (I : Inv s) (hpc : s.destroy = .releasing p) (hp : s.heap p = some session)
    (hmap : s.sessionMap session.sessionId.index = some p) :
    Inv { s with
      sessionMap := Function.update s.sessionMap session.sessionId.index none
      destroy := .unmapped p } := by
  refine ⟨I.balance, fun i q hq => I.mapped i q (update_none_eq_some.mp hq).2, ?_, ?_,
    fun i hi => ?_⟩
  · refine I.logic.transfer (fun id q _ hh => ⟨?_, hh.2.1, nofun⟩)
      (fun id _ habs q hq => habs q (update_none_eq_some.mp hq).2) (fun id q hq hid => ?_) fun _ _ _ ho => ho
    · dsimp only
      rw [Function.update_of_ne, hh.1]
      intro hindex
      have hq := hh.1
      rw [hindex, hmap] at hq
      cases hq
      exact hh.2.2 hpc
    · by_cases hindex : id.index = session.sessionId.index
      · refine Or.inr fun q' hq' => ?_
        rw [hindex] at hq'
        exact absurd rfl (update_none_eq_some.mp hq').1
      · exact Or.inl ⟨by dsimp only; rw [Function.update_of_ne hindex, hq], hid⟩
  · show s.ids p ≠ none
    rw [ids_of_heap hp]; nofun
  · obtain ⟨hne, hi⟩ := update_none_eq_some.mp hi
    obtain ⟨id, hid, hindex⟩ := I.mapped i p hi
    rw [ids_of_heap hp] at hid
    cases hid
    exact hne hindex.symm

/-- `OnRelease` frees the session. -/
theorem Inv.free (I : Inv s) (hpc : s.destroy = .unmapped p) :
    Inv { s with heap := Function.update s.heap p none, destroy := .idle } := by
  have hd := I.destroy
  rw [hpc] at hd
  have hkeep : ∀ q, q ≠ p → ({ s with heap := Function.update s.heap p none, destroy := .idle } :
      State).ids q = s.ids q := fun q hq => by simp only [State.ids, Function.update_of_ne hq]
  have hgone : ({ s with heap := Function.update s.heap p none, destroy := .idle } :
      State).ids p = none := by simp only [State.ids, Function.update_self, Option.map_none]
  have hmapped : ∀ i q, s.sessionMap i = some q → q ≠ p := fun i q hq he => hd.2 i (he ▸ hq)
  refine ⟨fun q session hq => ?_, fun i q hq => ?_, ?_, trivial⟩
  · exact I.balance q session (update_none_eq_some.mp hq).2
  · rw [hkeep q (hmapped i q hq)]
    exact I.mapped i q hq
  · refine I.logic.transfer (fun id q _ hh => ⟨hh.1, ?_, nofun⟩) (fun id _ habs q hq => ?_)
      (fun id q hq hid => Or.inl ⟨hq, ?_⟩) fun id q _ ho => ?_
    · rw [hkeep q (hmapped _ q hh.1)]; exact hh.2.1
    · rw [hkeep q (hmapped _ q hq)]; exact habs q hq
    · rw [hkeep q (hmapped _ q hq)]; exact hid
    · by_cases hqp : q = p
      · subst hqp; rw [hgone]; nofun
      · rw [hkeep q hqp]; exact ho

theorem Inv.destroyStep (I : Inv s) (h : RefBalance.destroyStep s = .ok t) : Inv t := by
  have hd := I.destroy
  unfold RefBalance.destroyStep at h
  split at h
  all_goals rename_i hpc; rw [hpc] at hd
  · split at h
    · cases h
    · cases h
      exact I.setDestroy (.dequeued _) trivial (fun _ _ => nofun) _
  · split at h
    · cases h
      exact I.setDestroy .idle trivial (fun _ _ => nofun) _
    · rename_i hsome
      cases h
      exact I.setDestroy (.mapRead _ _) hsome (fun _ _ => nofun) _
  · rename_i id p
    split at h
    · cases h
    · rename_i session hp
      split at h
      · cases h
        exact I.setDestroy .idle trivial (fun _ _ => nofun) _
      · rename_i hid
        cases h
        rw [not_not] at hid
        exact I.setDestroy (.matched p) ⟨id, hid ▸ ids_of_heap hp, hd⟩ (fun _ _ => nofun) _
  · rename_i p
    split at h
    · cases h
    · rename_i session hp
      cases h
      exact I.disconnect hp hd
  · rename_i p
    split at h
    · cases h
    · rename_i session hp
      split at h
      · cases h
        exact I.setDestroy .idle trivial (fun _ _ => nofun) _
      · rename_i hzero
        cases h
        have hbalance := I.balance p session hp
        refine I.setDestroy (.releasing p) hd (fun q hq he => ?_) _
        cases he
        rw [State.held, if_pos hq] at hbalance
        omega
  · rename_i p
    split at h
    · cases h
    · rename_i session hp
      cases h
      obtain ⟨id, hid, hmap⟩ := hd
      obtain rfl : session.sessionId = id := by
        rw [ids_of_heap hp] at hid; exact Option.some.inj hid
      exact I.unmap hpc hp hmap
  · rename_i p
    split at h
    · cases h
    · cases h
      exact I.free hpc

/-! ## The other threads -/

theorem Inv.accept (I : Inv s) {id : SessionId} (hfree : s.heap p = none)
    (hslot : s.sessionMap id.index = none) (hid : s.logic.id ≠ some id) :
    Inv { s with
      heap := Function.update s.heap p (some ⟨id, 0, false⟩)
      sessionMap := Function.update s.sessionMap id.index (some p)
      others := Function.update s.others p 0 } := by
  have hnone : s.ids p = none := by rw [State.ids, hfree]; rfl
  have hnew : ({ s with heap := Function.update s.heap p (some ⟨id, 0, false⟩) } : State).ids p =
      some id := by simp only [State.ids, Function.update_self, Option.map_some]
  have hkeep : ∀ q, q ≠ p → ({ s with heap := Function.update s.heap p (some ⟨id, 0, false⟩) } :
      State).ids q = s.ids q := fun q hq => by simp only [State.ids, Function.update_of_ne hq]
  have hmap : ∀ i q, s.sessionMap i = some q → i ≠ id.index ∧ q ≠ p := by
    intro i q hq
    refine ⟨fun hi => ?_, fun hqp => ?_⟩
    · rw [hi, hslot] at hq; cases hq
    · obtain ⟨id', hid', _⟩ := I.mapped i q hq
      rw [hqp, hnone] at hid'; cases hid'
  have hheld : s.logic.held ≠ some p := fun hp => by
    obtain ⟨id', hh⟩ := I.logic.holds hp
    exact (hmap _ p hh.1).2 rfl
  refine ⟨fun q session hq => ?_, fun i q hq => ?_, ?_, ?_⟩
  · rcases update_some_eq_some.mp hq with ⟨rfl, rfl⟩ | ⟨hqp, hq⟩
    · simp only [State.held, if_neg hheld, Function.update_self]
      rfl
    · simp only [State.held, Function.update_of_ne hqp]
      exact I.balance q session hq
  · rcases update_some_eq_some.mp hq with ⟨rfl, rfl⟩ | ⟨-, hq⟩
    · exact ⟨id, hnew, rfl⟩
    · obtain ⟨id', hid', hindex⟩ := I.mapped i q hq
      exact ⟨id', (hkeep q (hmap i q hq).2).trans hid', hindex⟩
  · refine I.logic.transfer (fun id' q _ hh => ⟨?_, ?_, hh.2.2⟩) (fun id' hid' habs q hq => ?_)
      (fun id' q hq hq' => Or.inl ⟨?_, ?_⟩) fun id' q hid' ho => ?_
    · exact (Function.update_of_ne (hmap _ q hh.1).1 _ _).trans hh.1
    · exact (hkeep q (hmap _ q hh.1).2).trans hh.2.1
    · rcases update_some_eq_some.mp hq with ⟨-, rfl⟩ | ⟨-, hq⟩
      · intro he
        have := hnew.symm.trans he
        cases this
        exact hid hid'
      · exact fun he => habs q hq ((hkeep q (hmap _ q hq).2).symm.trans he)
    · exact (Function.update_of_ne (hmap _ q hq).1 _ _).trans hq
    · exact (hkeep q (hmap _ q hq).2).trans hq'
    · by_cases hqp : q = p
      · subst hqp
        intro he
        have := hnew.symm.trans he
        cases this
        exact hid hid'
      · exact fun he => ho ((hkeep q hqp).symm.trans he)
  · refine I.destroy.transfer (fun i q hq => (Function.update_of_ne (hmap i q hq).1 _ _).trans hq)
      (fun q hq => hkeep q fun hqp => hq (hqp ▸ hnone)) fun i q hq hi => ?_
    rcases update_some_eq_some.mp hi with ⟨-, rfl⟩ | ⟨-, hi⟩
    · exact absurd hnone hq
    · exact hi

theorem Inv.step (I : Inv s) (hok : RefOk s a) (h : RefBalance.step s a = .ok t) : Inv t := by
  cases a with
  | logic => exact I.logicStep hok h
  | destroy => exact I.destroyStep h
  | accept p id =>
    simp only [RefBalance.step] at h
    split at h
    · cases h
    · rename_i hfree
      cases h
      exact I.accept hfree hok.1 hok.2
  | acquire p =>
    simp only [RefBalance.step] at h
    split at h
    · cases h
    · rename_i session hp
      cases h
      have hbalance := I.balance p session hp
      refine I.setCount hp _ s.logic ?_ (fun q hq => Function.update_of_ne hq _ _)
        (fun _ _ => Iff.rfl) I.logic
      simp only [State.held] at hbalance
      rw [Function.update_self]
      omega
  | giveBack p =>
    simp only [RefBalance.step] at h
    split at h
    · cases h
    · rename_i session hp
      split at h
      · cases h
      · rename_i hothers
        cases h
        have hbalance := I.balance p session hp
        refine I.setCount hp _ s.logic ?_ (fun q hq => Function.update_of_ne hq _ _)
          (fun _ _ => Iff.rfl) I.logic
        simp only [State.held] at hbalance
        rw [Function.update_self]
        omega
  | requestDestroy id => cases h; exact I.setLogic s.logic rfl I.logic _ _
  | pushIncomingPacket ipi => cases h; exact I.setLogic s.logic rfl I.logic _ _
  | frame playerList =>
    simp only [RefBalance.step] at h
    split at h
    · cases h; exact ⟨I.balance, I.mapped, I.logic, I.destroy⟩
    · cases h

/-! ## Runs -/

theorem Inv.init : Inv RefBalance.init :=
  ⟨nofun, nofun, trivial, trivial⟩

theorem Inv.balanced (I : Inv s) : Balanced s := by
  refine ⟨I.balance, fun p session hp => ?_, fun p session hp hothers hheld hpc => ?_⟩
  · have := I.balance p session hp
    omega
  · have hzero := I.balance p session hp
    rw [hothers, hheld] at hzero
    simp only [RefBalance.step, RefBalance.destroyStep, hpc, hp]
    rw [if_neg (by omega)]

/-- **Reference balance.**  In every run of the logic thread, the destroy thread, accepts and all
other threads' changes whose steps meet the condition, `ioCount` is in every state what the other
threads hold plus what the packet at hand holds, it is never below 0, and a session that nobody
holds passes the check of the destroy thread. -/
theorem run_balanced {as : List Action}
    (hr : Run (fun s a t => step s a = .ok t) RefOk init as t) : Balanced t :=
  (hr.invariant Inv.init fun _ _ _ I hok hstep => I.step hok hstep).balanced

/-- A packet of a session with an outstanding receive is processed. -/
theorem run_balanced_one_packet :
    ∃ t, Run (fun s a t => step s a = .ok t) RefOk init
        [.accept 1 ⟨0, 1⟩, .acquire 1, .frame fun i => if i = 0 then some ⟨⟨0, 7⟩, ⟨0, 1⟩⟩ else none,
          .pushIncomingPacket ⟨⟨0, 7⟩, CPacket.ofBytes [], 0⟩, .logic, .logic, .logic, .logic, .logic,
          .logic, .logic, .logic] t ∧
      (t.heap 1).map Session.ioCount = some 1 ∧ Balanced t := by
  obtain ⟨t, hrun, hcount⟩ : ∃ t : State, Run (fun s a t => step s a = .ok t) RefOk init
        [.accept 1 ⟨0, 1⟩, .acquire 1, .frame fun i => if i = 0 then some ⟨⟨0, 7⟩, ⟨0, 1⟩⟩ else none,
          .pushIncomingPacket ⟨⟨0, 7⟩, CPacket.ofBytes [], 0⟩, .logic, .logic, .logic, .logic, .logic,
          .logic, .logic, .logic] t ∧ (t.heap 1).map Session.ioCount = some 1 :=
    ⟨_, .cons rfl ⟨rfl, nofun⟩ <| .cons rfl trivial <| .cons rfl trivial <| .cons rfl trivial <|
      .cons rfl (by trivial) <| .cons rfl (by trivial) <| .cons rfl (by trivial) <|
      .cons rfl (by exact ⟨rfl, nofun, _, rfl, rfl, by decide⟩) <|
      .cons rfl (by trivial) <| .cons rfl (by trivial) <| .cons rfl (by trivial) <|
      .cons rfl (by trivial) .nil, rfl⟩
  exact ⟨t, hrun, hcount, run_balanced hrun⟩

/-- The session's last I/O completes before its packet is processed: `AddRefSession` takes its
increment back, `ReleaseRefSession` decrements, and the count stays at -1. -/
theorem released_without_reference :
    ¬ ∀ as t, Run (fun s a t => step s a = .ok t) anyStep init as t → Balanced t := by
  intro h
  have hbalanced := h [.accept 1 ⟨0, 1⟩, .acquire 1,
    .frame fun i => if i = 0 then some ⟨⟨0, 7⟩, ⟨0, 1⟩⟩ else none,
    .pushIncomingPacket ⟨⟨0, 7⟩, CPacket.ofBytes [], 0⟩, .giveBack 1, .logic, .logic, .logic, .logic,
    .logic, .logic, .logic, .logic, .logic] _ (runFn_iff_run.mp rfl)
  exact absurd (hbalanced.ioCount_nonneg 1 _ rfl) (by decide)

end RefBalance

end IocpServer
