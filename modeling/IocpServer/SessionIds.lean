import IocpServer.Slots

/-!
# Session ids and who keeps them

An id is the slot index and the accept counter modulo `0x1FFFF`, packed into 16 and 48 bits.  It is
copied into four queues and into the player, and stays there when the session is gone; whoever
takes it out looks into `sessionMap` and compares `originValue`.  Each function is atomic here; an
id carries the number of the accept that issued it and the index that was popped for it.

* `IdOk` — the step condition: the popped index has 16 bits, and no id of this slot is kept whose
  accept counter was the same modulo `0x1FFFF`.
* `keeps_onAccept`, `copies_of_step` — what a step keeps was kept before, or is the new session's
  id.
* `run_told_apart` — **in every run whose steps meet the condition a comparison finds only the
  session the id was issued for, and an id holds the index that was popped for it.**
* `stale_id_matches` — a slot reused 131071 times gives a kept id to a new session.
-/

set_option autoImplicit false

namespace IocpServer

open Lib

namespace SessionIds

/-- A session id.  `number` and `slot` are history: the accept that issued it, from 1 on, and the
index popped for it. -/
structure Issued where
  id : SessionId
  number : Nat
  slot : Nat
  deriving DecidableEq

structure State where
  emptySessionMapStack : List Nat
  sessionMap : Nat → Option Issued
  /-- The sessions allocated, mapped or not. -/
  sessions : List Issued
  /-- The counter behind the unique ids, of 64 bits. -/
  sessionId : Nat
  newSessionQueue : List Issued
  sendRequestQueue : List Issued
  destroySessionRequestQueue : List Issued
  destroyPlayerRequestQueue : List Issued
  /-- The `sessionId` of the players. -/
  playerList : Nat → Option Issued
  activePlayerList : List Issued
  /-- The id `OnRelease` is about to hand to `RequestDestroyPlayer`. -/
  released : Option Issued
  /-- History: the accepts so far. -/
  accepts : Nat

inductive Action where
  | onAccept
  | createNewPlayer
  /-- `SendPacket` to the session of a player, or of the id just taken from `newSessionQueue`. -/
  | sendPacket (x : Issued)
  /-- `SendThread` on one request; `requeue` when it is too early to send. -/
  | sendThread (requeue : Bool)
  /-- A send completion of the session `x` asks for the rest to be sent. -/
  | completion (x : Issued)
  /-- A worker, the send thread or `ReleaseRefSession` asks for the session `x` to be released. -/
  | release (x : Issued)
  /-- `OnClientLeave` for a player. -/
  | onClientLeave (x : Issued)
  /-- `SessionDestroyThread` on one request; `busy` is `ioCount != 0`. -/
  | destroyThread (busy : Bool)
  | requestDestroyPlayer
  | flushFrame

/-- The check of `originValue`: the mapped session with this id. -/
def find (s : State) (id : SessionId) : Option Issued :=
  match s.sessionMap id.index with
  | none => none
  | some session => if session.id = id then some session else none

def onAccept (s : State) : State :=
  let sessionId := (s.sessionId + 1) % 2 ^ 64
  let (index, stack) := Slots.pop s.emptySessionMapStack
  let session : Issued := ⟨.pack index (sessionId % 0x1FFFF), s.accepts + 1, index⟩
  { s with
    emptySessionMapStack := stack
    sessionMap := Function.update s.sessionMap session.id.index (some session)
    sessions := s.sessions ++ [session]
    sessionId := sessionId
    newSessionQueue := s.newSessionQueue ++ [session]
    accepts := s.accepts + 1 }

def createNewPlayer (s : State) : Option State :=
  match s.newSessionQueue with
  | [] => none
  | x :: queue =>
    let s := { s with newSessionQueue := queue }
    -- `RegisterSessionPlayer` asks for a session only
    match s.sessionMap x.id.index with
    | none => some s
    | some _ =>
      some { s with
        playerList := Function.update s.playerList x.id.index (some x)
        activePlayerList := s.activePlayerList ++ [x] }

def sendPacket (s : State) (x : Issued) : Option State :=
  if x ∈ s.activePlayerList then
    match find s x.id with
    | none => some s
    | some session => some { s with sendRequestQueue := s.sendRequestQueue ++ [session] }
  else none

def sendThread (s : State) (requeue : Bool) : Option State :=
  match s.sendRequestQueue with
  | [] => none
  | x :: queue =>
    let s := { s with sendRequestQueue := queue }
    match find s x.id with
    | none => some s
    | some session =>
      some { s with sendRequestQueue := if requeue then queue ++ [session] else queue }

def completion (s : State) (x : Issued) : Option State :=
  if x ∈ s.sessions then
    match find s x.id with
    | none => some s
    | some _ => some { s with sendRequestQueue := s.sendRequestQueue ++ [x] }
  else none

def release (s : State) (x : Issued) : Option State :=
  if x ∈ s.sessions then
    some { s with destroySessionRequestQueue := s.destroySessionRequestQueue ++ [x] }
  else none

def onClientLeave (s : State) (x : Issued) : Option State :=
  if x ∈ s.activePlayerList then
    match find s x.id with
    | none => some s
    | some _ => some { s with destroySessionRequestQueue := s.destroySessionRequestQueue ++ [x] }
  else none

def destroyThread (s : State) (busy : Bool) : Option State :=
  match s.released, s.destroySessionRequestQueue with
  | none, x :: queue =>
    let s := { s with destroySessionRequestQueue := queue }
    match find s x.id with
    | none => some s
    | some session =>
      if busy then some { s with destroySessionRequestQueue := queue ++ [session] }
      else
        some { s with
          sessionMap := Function.update s.sessionMap session.id.index none
          sessions := s.sessions.erase session
          released := some session }
  | _, _ => none

def requestDestroyPlayer (s : State) : Option State :=
  match s.released with
  | none => none
  | some x =>
    let s := { s with released := none }
    match s.playerList x.id.index with
    | none => some { s with emptySessionMapStack := x.id.index :: s.emptySessionMapStack }
    | some _ => some { s with destroyPlayerRequestQueue := s.destroyPlayerRequestQueue ++ [x] }

def flushFrame (s : State) : Option State :=
  match s.destroyPlayerRequestQueue with
  | [] => none
  | x :: queue =>
    match s.playerList x.id.index with
    | none => none
    | some player =>
      some { s with
        destroyPlayerRequestQueue := queue
        activePlayerList := s.activePlayerList.erase player
        playerList := Function.update s.playerList player.id.index none
        emptySessionMapStack := player.id.index :: s.emptySessionMapStack }

def step (s : State) : Action → Option State
  | .onAccept => some (onAccept s)
  | .createNewPlayer => createNewPlayer s
  | .sendPacket x => sendPacket s x
  | .sendThread requeue => sendThread s requeue
  | .completion x => completion s x
  | .release x => release s x
  | .onClientLeave x => onClientLeave s x
  | .destroyThread busy => destroyThread s busy
  | .requestDestroyPlayer => requestDestroyPlayer s
  | .flushFrame => flushFrame s

def init (maxSessionCount : Nat) : State where
  emptySessionMapStack := List.range maxSessionCount
  sessionMap := fun _ => none
  sessions := []
  sessionId := 0
  newSessionQueue := []
  sendRequestQueue := []
  destroySessionRequestQueue := []
  destroyPlayerRequestQueue := []
  playerList := fun _ => none
  activePlayerList := []
  released := none
  accepts := 0

/-! ## The promise and its condition -/

/-- An id is kept by an allocated session, a mapped one, a queue, a player or the destroy thread. -/
inductive Keeps (s : State) (x : Issued) : Prop
  | session (h : x ∈ s.sessions)
  | mapped (i : Nat) (h : s.sessionMap i = some x)
  | newSession (h : x ∈ s.newSessionQueue)
  | sendRequest (h : x ∈ s.sendRequestQueue)
  | destroySession (h : x ∈ s.destroySessionRequestQueue)
  | destroyPlayer (h : x ∈ s.destroyPlayerRequestQueue)
  | stored (i : Nat) (h : s.playerList i = some x)
  | active (h : x ∈ s.activePlayerList)
  | released (h : s.released = some x)

/-- Ids tell sessions apart. -/
structure ToldApart (s : State) : Prop where
  /-- Equal ids were issued by one accept. -/
  apart : ∀ x y, Keeps s x → Keeps s y → x.id = y.id → x.number = y.number
  /-- A comparison finds no other session than the one the id was issued for. -/
  own : ∀ x session, Keeps s x → find s x.id = some session → session.number = x.number
  /-- The index read back is the index popped. -/
  index : ∀ x, Keeps s x → x.id.index = x.slot

/-- The step condition. -/
def IdOk (s : State) : Action → Prop
  | .onAccept =>
    (Slots.pop s.emptySessionMapStack).1 < 2 ^ 16 ∧
      ∀ x, Keeps s x → x.slot = (Slots.pop s.emptySessionMapStack).1 →
        x.number % 2 ^ 64 % 0x1FFFF ≠ (s.accepts + 1) % 2 ^ 64 % 0x1FFFF
  | _ => True

/-! ## What a step keeps -/

variable {s t : State} {a : Action} {x y : Issued} {id : SessionId}

/-- The id `OnAccept` issues. -/
def issue (s : State) : Issued :=
  ⟨.pack (Slots.pop s.emptySessionMapStack).1 ((s.sessionId + 1) % 2 ^ 64 % 0x1FFFF), s.accepts + 1,
    (Slots.pop s.emptySessionMapStack).1⟩

theorem find_eq_some (h : find s id = some y) : Keeps s y ∧ y.id = id := by
  unfold find at h
  split at h
  · cases h
  · rename_i session hmap
    split at h
    · rename_i hid
      cases h
      exact ⟨.mapped _ hmap, hid⟩
    · cases h

theorem keeps_onAccept (h : Keeps (onAccept s) x) : Keeps s x ∨ x = issue s := by
  cases h with
  | session h =>
    rcases List.mem_append.mp h with h | h
    · exact Or.inl (.session h)
    · exact Or.inr (List.mem_singleton.mp h)
  | mapped i h =>
    rcases update_some_eq_some.mp h with ⟨-, rfl⟩ | ⟨-, h⟩
    · exact Or.inr rfl
    · exact Or.inl (.mapped i h)
  | newSession h =>
    rcases List.mem_append.mp h with h | h
    · exact Or.inl (.newSession h)
    · exact Or.inr (List.mem_singleton.mp h)
  | sendRequest h => exact Or.inl (.sendRequest h)
  | destroySession h => exact Or.inl (.destroySession h)
  | destroyPlayer h => exact Or.inl (.destroyPlayer h)
  | stored i h => exact Or.inl (.stored i h)
  | active h => exact Or.inl (.active h)
  | released h => exact Or.inl (.released h)

/-- `t` keeps no id that `s` does not keep, and has issued none since. -/
structure Copies (s t : State) : Prop where
  counter : t.sessionId = s.sessionId ∧ t.accepts = s.accepts
  keeps : ∀ x, Keeps t x → Keeps s x

/-- **Every other step copies ids and drops them.** -/
theorem copies_of_step (h : step s a = some t) (ha : a ≠ .onAccept) : Copies s t := by
  cases a with
  | onAccept => exact absurd rfl ha
  | createNewPlayer =>
    simp only [step, createNewPlayer] at h
    split at h
    · cases h
    · rename_i y queue hqueue
      have hy : Keeps s y := .newSession (by rw [hqueue]; exact List.mem_cons_self)
      split at h <;> cases h <;> refine ⟨⟨rfl, rfl⟩, fun x hx => ?_⟩
      · cases hx <;> grind [Keeps]
      · cases hx <;> grind [Keeps, update_some_eq_some]
  | sendPacket y =>
    simp only [step, sendPacket] at h
    split at h
    · split at h
      · cases h; exact ⟨⟨rfl, rfl⟩, fun _ hx => hx⟩
      · rename_i session hfind
        have hsession := (find_eq_some hfind).1
        cases h
        refine ⟨⟨rfl, rfl⟩, fun x hx => ?_⟩
        cases hx <;> grind [Keeps]
    · cases h
  | sendThread requeue =>
    simp only [step, sendThread] at h
    split at h
    · cases h
    · rename_i y queue hqueue
      split at h
      · cases h
        refine ⟨⟨rfl, rfl⟩, fun x hx => ?_⟩
        cases hx <;> grind [Keeps]
      · rename_i session hfind
        have hsession := (find_eq_some hfind).1
        cases h
        refine ⟨⟨rfl, rfl⟩, fun x hx => ?_⟩
        cases hx <;> grind [Keeps]
  | completion y =>
    simp only [step, completion] at h
    split at h
    · rename_i hy
      split at h
      · cases h; exact ⟨⟨rfl, rfl⟩, fun _ hx => hx⟩
      · cases h
        refine ⟨⟨rfl, rfl⟩, fun x hx => ?_⟩
        cases hx <;> grind [Keeps]
    · cases h
  | release y =>
    simp only [step, release] at h
    split at h
    · cases h
      refine ⟨⟨rfl, rfl⟩, fun x hx => ?_⟩
      cases hx <;> grind [Keeps]
    · cases h
  | onClientLeave y =>
    simp only [step, onClientLeave] at h
    split at h
    · split at h
      · cases h; exact ⟨⟨rfl, rfl⟩, fun _ hx => hx⟩
      · cases h
        refine ⟨⟨rfl, rfl⟩, fun x hx => ?_⟩
        cases hx <;> grind [Keeps]
    · cases h
  | destroyThread busy =>
    simp only [step, destroyThread] at h
    split at h
    · rename_i y queue hidle hqueue
      split at h
      · cases h
        refine ⟨⟨rfl, rfl⟩, fun x hx => ?_⟩
        cases hx <;> grind [Keeps]
      · rename_i session hfind
        have hsession := (find_eq_some hfind).1
        split at h <;> cases h <;> refine ⟨⟨rfl, rfl⟩, fun x hx => ?_⟩
        · cases hx <;> grind [Keeps]
        · cases hx <;> grind [Keeps, update_none_eq_some, List.mem_of_mem_erase]
    · cases h
  | requestDestroyPlayer =>
    simp only [step, requestDestroyPlayer] at h
    split at h
    · cases h
    · split at h <;> cases h <;> refine ⟨⟨rfl, rfl⟩, fun x hx => ?_⟩ <;>
        cases hx <;> grind [Keeps]
  | flushFrame =>
    simp only [step, flushFrame] at h
    split at h
    · cases h
    · split at h
      · cases h
      · cases h
        refine ⟨⟨rfl, rfl⟩, fun x hx => ?_⟩
        cases hx <;> grind [Keeps, update_none_eq_some, List.mem_of_mem_erase]

/-! ## The invariant -/

/-- What `pack` makes of an index of 16 bits and a reduced counter can be taken apart again. -/
theorem pack_inj {i j u v : Nat} (hi : i < 2 ^ 16) (hj : j < 2 ^ 16)
    (h : SessionId.pack i (u % 0x1FFFF) = .pack j (v % 0x1FFFF)) :
    i = j ∧ u % 0x1FFFF = v % 0x1FFFF := by
  have hindex : i % 2 ^ 16 = j % 2 ^ 16 := congrArg SessionId.index h
  have hunique : u % 0x1FFFF % 2 ^ 48 = v % 0x1FFFF % 2 ^ 48 := congrArg SessionId.uniqueId h
  omega

structure Inv (s : State) : Prop where
  counter : s.sessionId = s.accepts % 2 ^ 64
  issued : ∀ x, Keeps s x → x.slot < 2 ^ 16 ∧
    x.id = .pack x.slot (x.number % 2 ^ 64 % 0x1FFFF)
  apart : ∀ x y, Keeps s x → Keeps s y → x.id = y.id → x.number = y.number

theorem Inv.onAccept (I : Inv s) (hok : IdOk s .onAccept) : Inv (onAccept s) := by
  obtain ⟨hlt, hnew⟩ := hok
  have hcounter : (s.sessionId + 1) % 2 ^ 64 = (s.accepts + 1) % 2 ^ 64 := by
    rw [I.counter]
    omega
  have hissue : (issue s).id =
      .pack (Slots.pop s.emptySessionMapStack).1 ((s.accepts + 1) % 2 ^ 64 % 0x1FFFF) := by
    rw [issue, hcounter]
  have hdiffer : ∀ x, Keeps s x → x.id ≠ (issue s).id := by
    intro x hx he
    obtain ⟨hslot, hid⟩ := I.issued x hx
    rw [hid, hissue] at he
    obtain ⟨hsame, hcongr⟩ := pack_inj hslot hlt he
    exact hnew x hx hsame hcongr
  refine ⟨hcounter, fun x hx => ?_, fun x y hx hy he => ?_⟩
  · rcases keeps_onAccept hx with hx | rfl
    · exact I.issued x hx
    · exact ⟨hlt, hissue⟩
  · rcases keeps_onAccept hx with hx | rfl
    · rcases keeps_onAccept hy with hy | rfl
      · exact I.apart x y hx hy he
      · exact (hdiffer x hx he).elim
    · rcases keeps_onAccept hy with hy | rfl
      · exact (hdiffer y hy he.symm).elim
      · rfl

theorem Inv.step (I : Inv s) (hok : IdOk s a) (h : step s a = some t) : Inv t := by
  by_cases ha : a = .onAccept
  · subst ha
    cases h
    exact I.onAccept hok
  · have C := copies_of_step h ha
    exact ⟨by rw [C.counter.1, C.counter.2, I.counter], fun x hx => I.issued x (C.keeps x hx),
      fun x y hx hy => I.apart x y (C.keeps x hx) (C.keeps y hy)⟩

theorem not_keeps_init (maxSessionCount : Nat) (x : Issued) : ¬ Keeps (init maxSessionCount) x := by
  rintro (h | ⟨_, h⟩ | h | h | h | h | ⟨_, h⟩ | h | h) <;> cases h

theorem Inv.init (maxSessionCount : Nat) : Inv (SessionIds.init maxSessionCount) :=
  ⟨rfl, fun x hx => (not_keeps_init _ x hx).elim, fun x _ hx => (not_keeps_init _ x hx).elim⟩

theorem Inv.toldApart (I : Inv s) : ToldApart s := by
  refine ⟨I.apart, fun x session hx hfind => ?_, fun x hx => ?_⟩
  · obtain ⟨hsession, hid⟩ := find_eq_some hfind
    exact I.apart session x hsession hx hid
  · obtain ⟨hslot, hid⟩ := I.issued x hx
    rw [hid]
    exact Nat.mod_eq_of_lt hslot

/-! ## Runs -/

/-- **Stale ids never match.**  In every run of accepts, releases and everybody who copies an id,
of any length, whose steps meet the condition, ids of different sessions differ as long as they
are kept, a comparison finds no other session than the one the id was issued for, and an id holds
the index that was popped for it. -/
theorem run_told_apart {maxSessionCount : Nat} {as : List Action}
    (hr : Run (fun s a t => step s a = some t) IdOk (init maxSessionCount) as t) : ToldApart t :=
  Inv.toldApart <| hr.invariant (Inv.init maxSessionCount) fun _ _ _ I hok h => I.step hok h

/-- A session comes and goes, another one comes: the id of the first is kept. -/
theorem run_told_apart_two_sessions :
    ∃ t, Run (fun s a t => step s a = some t) IdOk (init 1)
        [.onAccept, .release ⟨⟨0, 1⟩, 1, 0⟩, .destroyThread false, .requestDestroyPlayer,
          .onAccept] t ∧
      Keeps t ⟨⟨0, 1⟩, 1, 0⟩ ∧ ToldApart t := by
  obtain ⟨t, hrun, hkeeps⟩ : ∃ t : State, Run (fun s a t => step s a = some t) IdOk (init 1)
        [.onAccept, .release ⟨⟨0, 1⟩, 1, 0⟩, .destroyThread false, .requestDestroyPlayer,
          .onAccept] t ∧ Keeps t ⟨⟨0, 1⟩, 1, 0⟩ := by
    refine ⟨_, .cons rfl ⟨by decide, fun x hx => (not_keeps_init _ x hx).elim⟩ <|
      .cons rfl trivial <| .cons rfl trivial <| .cons rfl trivial <|
      .cons rfl ⟨by decide, fun x hx => ?_⟩ .nil, .newSession List.mem_cons_self⟩
    have hx : x = ⟨⟨0, 1⟩, 1, 0⟩ := by
      cases hx with
      | newSession h => exact List.mem_singleton.mp h
      | mapped i h =>
        obtain ⟨hne, h⟩ := update_none_eq_some.mp h
        rcases update_some_eq_some.mp h with ⟨hi, -⟩ | ⟨-, h⟩
        · exact absurd hi hne
        · cases h
      | stored i h => cases h
      | session h | sendRequest h | destroySession h | destroyPlayer h | active h | released h =>
        cases h
    subst hx
    decide
  exact ⟨t, hrun, hkeeps, run_told_apart hrun⟩

/-! ## A slot reused again and again -/

/-- What the `n`-th accept issues when slot 0 is on top of the stack. -/
def issued (n : Nat) : Issued := ⟨.pack 0 (n % 2 ^ 64 % 0x1FFFF), n, 0⟩

/-- After `n` sessions that came and went: their ids still wait in `newSessionQueue`. -/
def afterSessions (n : Nat) : State :=
  { init 1 with
    sessionId := n % 2 ^ 64
    newSessionQueue := (List.range n).map fun k => issued (k + 1)
    accepts := n }

/-- The last of them is still there. -/
def withSession (n : Nat) : State :=
  { afterSessions n with
    emptySessionMapStack := []
    sessionMap := Function.update (fun _ => none) 0 (some (issued n))
    sessions := [issued n] }

theorem onAccept_afterSessions (n : Nat) : onAccept (afterSessions n) = withSession (n + 1) := by
  have hcounter : (n % 2 ^ 64 + 1) % 2 ^ 64 = (n + 1) % 2 ^ 64 := Nat.mod_add_mod ..
  simp only [onAccept, withSession, afterSessions, issued, init, Slots.pop, hcounter,
    List.range_succ, List.map_append, List.map_cons, List.map_nil, List.nil_append, List.range_zero]
  rfl

/-- The destroy thread releases the session of a request. -/
theorem destroyThread_release {session : Issued} {queue : List Issued}
    (hidle : s.released = none) (hqueue : s.destroySessionRequestQueue = x :: queue)
    (hfind : find s x.id = some session) :
    destroyThread s false = some { s with
      destroySessionRequestQueue := queue
      sessionMap := Function.update s.sessionMap session.id.index none
      sessions := s.sessions.erase session
      released := some session } := by
  obtain ⟨stack, map, sessions, counter, new, send, destroy, players, list, active, released,
    accepts⟩ := s
  cases hidle
  cases hqueue
  have hfind' : find ⟨stack, map, sessions, counter, new, send, queue, players, list, active, none,
      accepts⟩ x.id = some session := hfind
  simp only [destroyThread, hfind', Bool.false_eq_true, if_false]

/-- Congruent accepts issue one id. -/
theorem find_withSession {m n : Nat} (h : m % 2 ^ 64 % 0x1FFFF = n % 2 ^ 64 % 0x1FFFF) :
    find (withSession n) (issued m).id = some (issued n) := by
  have hid : (issued n).id = (issued m).id := by rw [issued, issued, h]
  have hmapped : (withSession n).sessionMap (issued m).id.index = some (issued n) :=
    @Function.update_self Nat (fun _ => Option Issued) _ 0 (some (issued n)) fun _ => none
  rw [find, hmapped]
  exact if_pos hid

/-- Every id still waits. -/
theorem keeps_withSession {m n : Nat} (h : m < n) : Keeps (withSession n) (issued (m + 1)) :=
  .newSession (List.mem_map.mpr ⟨m, List.mem_range.mpr h, rfl⟩)

/-- A session is asked for, released and its slot pushed. -/
theorem run_release (n : Nat) :
    Run (fun s a t => step s a = some t) anyStep (withSession n)
      [.release (issued n), .destroyThread false, .requestDestroyPlayer] (afterSessions n) := by
  have hfind : find (withSession n) (issued n).id = some (issued n) := find_withSession rfl
  have hclear : Function.update (withSession n).sessionMap (issued n).id.index none =
      fun _ => none := by
    show Function.update (Function.update (fun _ => none) 0 (some (issued n))) 0 none = _
    rw [Function.update_idem, Function.update_eq_self_iff]
  refine .cons (t := { withSession n with destroySessionRequestQueue := [issued n] }) ?_ trivial <|
    .cons (t := { afterSessions n with
      emptySessionMapStack := [], released := some (issued n) }) ?_ trivial <|
    .cons rfl trivial .nil
  · exact if_pos List.mem_cons_self
  · have hstep := @destroyThread_release
      { withSession n with destroySessionRequestQueue := [issued n] } (issued n) (issued n) []
      rfl rfl hfind
    refine hstep.trans (congrArg some ?_)
    rw [hclear, show (withSession n).sessions.erase (issued n) = [] from List.erase_cons_head ..]
    rfl

/-- One more session comes and goes. -/
theorem run_session (n : Nat) :
    Run (fun s a t => step s a = some t) anyStep (afterSessions n)
      [.onAccept, .release (issued (n + 1)), .destroyThread false, .requestDestroyPlayer]
      (afterSessions (n + 1)) :=
  .cons (congrArg some (onAccept_afterSessions n)) trivial (run_release (n + 1))

theorem run_sessions (n : Nat) :
    ∃ as, Run (fun s a t => step s a = some t) anyStep (init 1) as (afterSessions n) := by
  induction n with
  | zero => exact ⟨[], .nil⟩
  | succ n ih =>
    obtain ⟨as, hrun⟩ := ih
    exact ⟨_, hrun.trans (run_session n)⟩

/-- One slot.  The id of the first session waits in `newSessionQueue` while 131070 others come and
go; the next session has the same id. -/
theorem stale_id_matches :
    ¬ ∀ maxSessionCount as t,
      Run (fun s a t => step s a = some t) anyStep (init maxSessionCount) as t → ToldApart t := by
  intro h
  obtain ⟨as, hrun⟩ := run_sessions 131071
  have hstep : step (afterSessions 131071) .onAccept = some (withSession (131071 + 1)) :=
    congrArg some (onAccept_afterSessions 131071)
  have htold := h 1 _ _ (hrun.snoc trivial hstep)
  have hkeeps : Keeps (withSession (131071 + 1)) (issued 1) := keeps_withSession (by omega)
  have hsame : 131071 + 1 = 1 :=
    htold.own (issued 1) (issued (131071 + 1)) hkeeps (find_withSession (by norm_num))
  omega

end SessionIds

end IocpServer
