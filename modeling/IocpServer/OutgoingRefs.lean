import IocpServer.Struct
import IocpServer.Lib.Outcome
import IocpServer.Lib.Run
import IocpServer.Lib.Table
import IocpServer.Lib.Threads

/-!
# Reference counts of outgoing packets

Packet creation, `SendPacket`, `DESTROY_IF_ZERO`, `SendPost`, send completions and `OnRelease` with
`FlushSendPacket`, each atomic, over any number of packets and sessions.  A packet is deleted when
its `referenceCount`, an `unsigned int`, comes down to 0.

A session is known by the order of its allocation.  Which operations keep it allocated is the
subject of other modules; here an operation on a freed session is not a step.

* `refs` — who refers to a packet: its creator, the send queues and the send contexts.
* `RefsFit` — the step condition: `SendPacket` does not make them `2 ^ 32`.
* `outcome_step` — **a step moves references and changes each count by what it moves.**
* `run_accounted` — **in every run whose steps meet the condition the counts are the numbers of
  references, so each packet is deleted once, when nobody refers to it any more.**
-/

set_option autoImplicit false

namespace IocpServer

open Lib

namespace OutgoingRefs

/-- The fields of `SESSION` that refer to packets or decide about them. -/
structure Session where
  sessionId : SessionId
  isDeleteRequest : Bool
  sendQueue : List Nat
  /-- `sendWSAOverlapped.ptr[0..count)`. -/
  ptr : List Nat

structure State where
  /-- The packets that are not deleted. -/
  heap : Nat → Option CPacket
  /-- By address; `none` behind `_aligned_free`. -/
  sessions : List (Option Session)
  sessionMap : Nat → Option Nat
  /-- The packets whose creator has not come to its `DESTROY_IF_ZERO`. -/
  held : List Nat
  /-- History: the `new`s and the `delete`s. -/
  created : List Nat
  deleted : List Nat

inductive Fault where
  /-- A deleted packet or a freed session is read or written. -/
  | useAfterFree
  /-- Not a step. -/
  | notEnabled
  deriving DecidableEq

inductive Action where
  | onAccept (id : SessionId)
  /-- `new CPacket` returns `p`, and `MakePacket...` fills it. -/
  | create (p : Nat) (packet : CPacket)
  /-- `acquired`: the test of `ioCount` in `TryAcquireSession` succeeds. -/
  | sendPacket (id : SessionId) (p : Nat) (acquired : Bool)
  /-- The creator's. -/
  | destroyIfZero (p : Nat)
  | sendPost (a : Nat)
  | completion (a : Nat) (cbTransferred : UInt32)
  /-- Somebody sets `isDeleteRequest`. -/
  | deleteRequest (a : Nat)
  | onRelease (a : Nat)

def init : State where
  heap := fun _ => none
  sessions := []
  sessionMap := fun _ => none
  held := []
  created := []
  deleted := []

namespace State

variable (s : State)

def deref (p : Nat) : Except Fault CPacket :=
  match s.heap p with
  | none => .error .useAfterFree
  | some packet => .ok packet

def write (p : Nat) (packet : CPacket) : State :=
  { s with heap := Function.update s.heap p (some packet) }

def delete (p : Nat) : State :=
  { s with heap := Function.update s.heap p none, deleted := s.deleted ++ [p] }

/-- The session at `a`; whoever works on it has the pointer. -/
def sessionAt (a : Nat) (e : Fault) : Except Fault Session :=
  match s.sessions[a]? with
  | some (some session) => .ok session
  | _ => .error e

def setSession (a : Nat) (session : Option Session) : State :=
  { s with sessions := s.sessions.set a session }

/-- `DESTROY_IF_ZERO`. -/
def destroyIfZero (p : Nat) : Except Fault State := do
  let packet ← s.deref p
  let referenceCount := packet.referenceCount - 1
  if referenceCount = 0 then return s.delete p
  else return s.write p { packet with referenceCount := referenceCount }

end State

/-- `new CPacket()`, at the address `p`. -/
def create (s : State) (p : Nat) (packet : CPacket) : Except Fault State :=
  match s.heap p with
  | some _ => throw .notEnabled
  | none => return { s.write p { packet with referenceCount := 1 } with
      held := p :: s.held
      created := s.created ++ [p] }

/-- `SendPacket`: a session that is not found, or not the one of the id, changes nothing. -/
def sendPacket (s : State) (id : SessionId) (p : Nat) (acquired : Bool) : Except Fault State :=
  match s.sessionMap id.index with
  | none => return s
  | some a => do
    let session ← s.sessionAt a .useAfterFree
    if session.sessionId ≠ id || !acquired then return s
    else
      let packet ← s.deref p
      let s := s.write p { packet with referenceCount := packet.referenceCount + 1 }
      return s.setSession a (some { session with sendQueue := session.sendQueue ++ [p] })

/-- The loop of `SendPost`: `n` packets from the queue into the context, whose buffer and size
it reads. -/
def fillContext (s : State) : Nat → Session → Except Fault Session
  | 0, session => return session
  | n + 1, session =>
    match session.sendQueue with
    | [] => return session
    | p :: sendQueue => do
      let _ ← s.deref p
      fillContext s n { session with sendQueue := sendQueue, ptr := session.ptr ++ [p] }

/-- `SendPost`; what `WSASend` answers concerns no packet. -/
def sendPost (s : State) (a : Nat) : Except Fault State := do
  let session ← s.sessionAt a .notEnabled
  let size := session.sendQueue.length
  let leftCount := session.ptr.length
  -- with nothing to send it returns -1
  if size + leftCount = 0 then return s
  else
    let size := if size + leftCount > 1000 then 1000 else size + leftCount
    let session ← fillContext s (size - leftCount) session
    return s.setSession a (some session)

/-- The first loop of the send completion: the packets that are left in the context. -/
def dropTransferred (cbTransferred : UInt32) : List Nat → UInt32 → State →
    Except Fault (List Nat × State)
  | [], _, s => return ([], s)
  | p :: ptr, transfer, s => do
    let packet ← s.deref p
    let transfer := transfer + UInt32.ofNat packet.getUsedSize
    if transfer > cbTransferred then return (p :: ptr, s)
    else
      let s ← s.destroyIfZero p
      dropTransferred cbTransferred ptr transfer s

/-- A send completion in `WorkerThread`. -/
def completion (s : State) (a : Nat) (cbTransferred : UInt32) : Except Fault State := do
  let session ← s.sessionAt a .notEnabled
  if session.isDeleteRequest then return s
  -- the zero-byte send
  else if cbTransferred = 0 then return s
  else
    match s.sessionMap session.sessionId.index with
    | none => return s
    | some b => do
      let ses ← s.sessionAt b .useAfterFree
      if session.sessionId ≠ ses.sessionId then return s
      else
        let (ptr, s) ← dropTransferred cbTransferred session.ptr 0 s
        return s.setSession a (some { session with ptr := ptr })

/-- `FlushSendPacket`. -/
def flushSendPacket (s : State) (session : Session) : Except Fault State := do
  let s ← session.sendQueue.foldlM State.destroyIfZero s
  session.ptr.foldlM State.destroyIfZero s

/-- `OnRelease`. -/
def onRelease (s : State) (a : Nat) : Except Fault State := do
  let session ← s.sessionAt a .notEnabled
  let s := { s with sessionMap := Function.update s.sessionMap session.sessionId.index none }
  let s ← flushSendPacket s session
  return s.setSession a none

def step (s : State) : Action → Except Fault State
  | .onAccept id => return { s with
      sessions := s.sessions ++ [some ⟨id, false, [], []⟩]
      sessionMap := Function.update s.sessionMap id.index (some s.sessions.length) }
  | .create p packet => create s p packet
  | .sendPacket id p acquired =>
    if p ∈ s.held then sendPacket s id p acquired else throw .notEnabled
  | .destroyIfZero p =>
    if p ∈ s.held then { s with held := s.held.erase p }.destroyIfZero p
    else throw .notEnabled
  | .sendPost a => sendPost s a
  | .completion a cbTransferred => completion s a cbTransferred
  | .deleteRequest a => do
    let session ← s.sessionAt a .notEnabled
    return s.setSession a (some { session with isDeleteRequest := true })
  | .onRelease a => onRelease s a

/-! ## What the counts promise, and when -/

/-- How often a session refers to `p`. -/
def occurrences (p : Nat) : Option Session → Nat
  | none => 0
  | some session => session.sendQueue.count p + session.ptr.count p

/-- The references to `p`: its creator's, and those of all queues and contexts. -/
def refs (s : State) (p : Nat) : Nat := s.held.count p + total (occurrences p) s.sessions

/-- The promises, in one state. -/
structure Accounted (s : State) : Prop where
  /-- One creator at most refers to a packet. -/
  held_once : s.held.Nodup
  count : ∀ p packet, s.heap p = some packet → packet.referenceCount.toNat = refs s p
  /-- Nothing is deleted while it is held, queued or posted. -/
  kept : ∀ p, refs s p ≠ 0 → s.heap p ≠ none
  /-- Nothing remains when its creator and its sessions are gone. -/
  collected : ∀ p, refs s p = 0 → s.heap p = none
  deleted_once : ∀ p, s.created.count p = s.deleted.count p + if s.heap p = none then 0 else 1
  no_useAfterFree : ∀ a, step s a ≠ .error .useAfterFree

/-- `SendPacket` does not bring the references of its packet to `2 ^ 32`. -/
def RefsFit (s : State) : Action → Prop
  | .sendPacket _ p _ => refs s p + 1 < 2 ^ 32
  | _ => True

/-! ## The ledger -/

variable {s t : State} {f : Nat → Nat} {p a : Nat} {packet : CPacket} {session : Session}
  {ps : List Nat}

/-- The counts of the packets in a heap are what `f` says, and nothing else is in the heap. -/
structure Counts (heap : Nat → Option CPacket) (f : Nat → Nat) : Prop where
  counted : ∀ p packet, heap p = some packet → packet.referenceCount.toNat = f p ∧ f p ≠ 0
  freed : ∀ p, heap p = none → f p = 0

/-- The history agrees with the heap. -/
def Logged (s : State) : Prop :=
  ∀ p, s.created.count p = s.deleted.count p + if s.heap p = none then 0 else 1

/-- Nothing but packets has changed. -/
def SameBut (s t : State) : Prop := t = { s with heap := t.heap, deleted := t.deleted }

theorem SameBut.trans {u : State} (h : SameBut s t) (h' : SameBut t u) : SameBut s u := by
  unfold SameBut at *
  rw [h'] at *
  rw [h]

theorem Counts.exists_of_ne_zero (h : Counts s.heap f) (hp : f p ≠ 0) :
    ∃ packet, s.heap p = some packet := by
  cases hheap : s.heap p with
  | none => exact absurd (h.freed p hheap) hp
  | some packet => exact ⟨packet, rfl⟩

theorem deref_ok (h : s.heap p = some packet) : s.deref p = .ok packet := by
  simp only [State.deref, h]

/-- **`DESTROY_IF_ZERO` gives one reference up.** -/
theorem destroyIfZero_spec (h : Counts s.heap fun q => [p].count q + f q) (hlog : Logged s) :
    ∃ t, s.destroyIfZero p = .ok t ∧ Counts t.heap f ∧ Logged t ∧ SameBut s t := by
  obtain ⟨packet, hp⟩ := h.exists_of_ne_zero (p := p) (by simp)
  obtain ⟨hcount, -⟩ := h.counted p packet hp
  rw [List.count_singleton_self] at hcount
  have hother : ∀ q, q ≠ p → [p].count q + f q = f q := by
    intro q hq
    rw [List.count_singleton, beq_eq_false_iff_ne.mpr (Ne.symm hq)]
    simp
  have hsub : (packet.referenceCount - 1).toNat = f p := by
    rw [UInt32.toNat_sub_of_le _ _ (by rw [UInt32.le_iff_toNat_le, hcount]; simp), hcount]
    simp
  unfold State.destroyIfZero
  rw [deref_ok hp]
  by_cases hzero : packet.referenceCount - 1 = 0
  · refine ⟨s.delete p, by simp [hzero, bind, Except.bind, pure, Except.pure], ?_, ?_, rfl⟩
    · have hfp : f p = 0 := by
        rw [← hsub, hzero]
        rfl
      constructor
      · intro q packet' hq
        obtain ⟨hqp, hq⟩ := update_none_eq_some.mp hq
        rw [← hother q hqp]
        exact h.counted q packet' hq
      · intro q hq
        by_cases hqp : q = p
        · rw [hqp, hfp]
        · rw [← hother q hqp]
          exact h.freed q (by simpa [State.delete, hqp] using hq)
    · intro q
      have := hlog q
      by_cases hqp : q = p
      · subst hqp
        rw [hp] at this
        simpa [State.delete] using this
      · simpa [State.delete, hqp, List.count_singleton, Ne.symm hqp] using this
  · refine ⟨s.write p { packet with referenceCount := packet.referenceCount - 1 },
      by simp [hzero, bind, Except.bind, pure, Except.pure], ?_, ?_, rfl⟩
    · constructor
      · intro q packet' hq
        rcases update_some_eq_some.mp hq with ⟨rfl, rfl⟩ | ⟨hqp, hq⟩
        · refine ⟨hsub, fun hfp => hzero ?_⟩
          rw [← UInt32.toNat_inj, hsub, hfp]
          rfl
        · rw [← hother q hqp]
          exact h.counted q packet' hq
      · intro q hq
        by_cases hqp : q = p
        · simp [State.write, hqp] at hq
        · rw [← hother q hqp]
          exact h.freed q (by simpa [State.write, hqp] using hq)
    · intro q
      have := hlog q
      by_cases hqp : q = p
      · subst hqp
        rw [hp] at this
        simpa [State.write] using this
      · simpa [State.write, hqp] using this

/-- A loop of `DESTROY_IF_ZERO`s. -/
theorem foldlM_destroyIfZero (h : Counts s.heap fun q => ps.count q + f q) (hlog : Logged s) :
    ∃ t, ps.foldlM State.destroyIfZero s = .ok t ∧ Counts t.heap f ∧ Logged t ∧ SameBut s t := by
  induction ps generalizing s with
  | nil =>
    refine ⟨s, rfl, ?_, hlog, rfl⟩
    simpa using h
  | cons p ps ih =>
    have hcons : (fun q => (p :: ps).count q + f q) =
        fun q => [p].count q + (ps.count q + f q) := by
      funext q
      rw [← List.singleton_append, List.count_append, Nat.add_assoc]
    rw [hcons] at h
    obtain ⟨t, ht, hcounts, hlogt, hsame⟩ := destroyIfZero_spec h hlog
    obtain ⟨u, hu, hcounts', hlogu, hsame'⟩ := ih hcounts hlogt
    refine ⟨u, ?_, hcounts', hlogu, hsame.trans hsame'⟩
    rw [List.foldlM_cons, ht]
    exact hu

/-- **The completion gives up the references it takes out of the context.** -/
theorem dropTransferred_spec {cbTransferred : UInt32} (transfer : UInt32)
    (h : Counts s.heap fun q => ps.count q + f q) (hlog : Logged s) :
    ∃ rest t, dropTransferred cbTransferred ps transfer s = .ok (rest, t) ∧
      Counts t.heap (fun q => rest.count q + f q) ∧ Logged t ∧ SameBut s t := by
  induction ps generalizing s transfer with
  | nil => exact ⟨[], s, rfl, h, hlog, rfl⟩
  | cons p ps ih =>
    obtain ⟨packet, hp⟩ := h.exists_of_ne_zero (p := p) (by simp)
    unfold dropTransferred
    rw [deref_ok hp]
    by_cases hstop : transfer + UInt32.ofNat packet.getUsedSize > cbTransferred
    · exact ⟨p :: ps, s, by simp [hstop, bind, Except.bind, pure, Except.pure], h, hlog, rfl⟩
    · have hcons : (fun q => (p :: ps).count q + f q) =
          fun q => [p].count q + (ps.count q + f q) := by
        funext q
        rw [← List.singleton_append, List.count_append, Nat.add_assoc]
      rw [hcons] at h
      obtain ⟨t, ht, hcounts, hlogt, hsame⟩ := destroyIfZero_spec h hlog
      obtain ⟨rest, u, hu, hcounts', hlogu, hsame'⟩ :=
        ih (transfer + UInt32.ofNat packet.getUsedSize) hcounts hlogt
      refine ⟨rest, u, ?_, hcounts', hlogu, hsame.trans hsame'⟩
      simp only [bind, Except.bind, hstop, if_false, ht]
      exact hu

/-- `SendPost` moves references from the queue into the context. -/
theorem fillContext_spec (h : ∀ q ∈ session.sendQueue, ∃ packet, s.heap q = some packet) (n : Nat) :
    ∃ session', fillContext s n session = .ok session' ∧
      session'.sessionId = session.sessionId ∧
      ∀ q, occurrences q (some session') = occurrences q (some session) := by
  induction n generalizing session with
  | zero => exact ⟨session, rfl, rfl, fun _ => rfl⟩
  | succ n ih =>
    unfold fillContext
    split
    · exact ⟨session, rfl, rfl, fun _ => rfl⟩
    · rename_i p sendQueue hqueue
      rw [hqueue] at h
      obtain ⟨packet, hp⟩ := h p List.mem_cons_self
      have left : ∀ q ∈ ({ session with
          sendQueue := sendQueue, ptr := session.ptr ++ [p] } : Session).sendQueue,
          ∃ packet, s.heap q = some packet := fun q hq => h q (List.mem_cons_of_mem _ hq)
      obtain ⟨session', hfill, hid, hocc⟩ := ih left
      refine ⟨session', ?_, hid, fun q => ?_⟩
      · rw [deref_ok hp]
        exact hfill
      · rw [hocc q]
        simp only [occurrences, hqueue, List.count_append, List.count_cons, List.count_nil]
        omega

/-! ## The invariant -/

structure Inv (s : State) : Prop where
  held_nodup : s.held.Nodup
  counts : Counts s.heap (refs s)
  logged : Logged s
  /-- `sessionMap` points to allocated sessions of the right index. -/
  mapped : ∀ i a, s.sessionMap i = some a →
    ∃ session, s.sessions[a]? = some (some session) ∧ session.sessionId.index = i

theorem init_inv : Inv init where
  held_nodup := List.nodup_nil
  counts := ⟨fun _ _ h => (by cases h), fun _ _ => rfl⟩
  logged := fun _ => rfl
  mapped := fun _ _ h => (by cases h)

theorem sessionAt_of_some {e : Fault} (h : s.sessions[a]? = some (some session)) :
    s.sessionAt a e = .ok session := by
  simp only [State.sessionAt, h]

theorem sessionAt_spec {P : State → Prop} {g : Session → Except Fault State}
    (h : ∀ session, s.sessions[a]? = some (some session) → Outcome P (· = .notEnabled) (g session)) :
    Outcome P (· = .notEnabled) (s.sessionAt a .notEnabled >>= g) := by
  unfold State.sessionAt
  split
  · rename_i session hsession
    exact h session hsession
  · rfl

/-- The counting rule for a session that changes. -/
theorem refs_setSession (h : s.sessions[a]? = some (some session)) (session' : Option Session)
    (q : Nat) : refs (s.setSession a session') q + occurrences q (some session) =
      refs s q + occurrences q session' := by
  have := total_set (f := occurrences q) (b := session') h
  simp only [refs, State.setSession]
  omega

theorem mapped_setSession {session' : Session} {s : State}
    (hmapped : ∀ i b, s.sessionMap i = some b →
      ∃ session, s.sessions[b]? = some (some session) ∧ session.sessionId.index = i)
    (h : s.sessions[a]? = some (some session)) (hid : session'.sessionId = session.sessionId) :
    ∀ i b, s.sessionMap i = some b →
      ∃ session, (s.sessions.set a (some session'))[b]? = some (some session) ∧
        session.sessionId.index = i := by
  intro i b hb
  obtain ⟨old, hold, hindex⟩ := hmapped i b hb
  by_cases hab : a = b
  · subst hab
    rw [h] at hold
    cases hold
    exact ⟨session', getElem?_set_of_some h, by rw [hid, hindex]⟩
  · exact ⟨old, by rw [List.getElem?_set_ne hab, hold], hindex⟩

/-- A session whose references change with the counts. -/
theorem Inv.setSession {session' : Session} (I : Inv s) (hsame : SameBut s t) (hlog : Logged t)
    (h : s.sessions[a]? = some (some session)) (hid : session'.sessionId = session.sessionId)
    (hcounts : Counts t.heap (refs (t.setSession a (some session')))) :
    Inv (t.setSession a (some session')) := by
  unfold SameBut at hsame
  refine ⟨?_, hcounts, hlog, ?_⟩
  · rw [hsame]
    exact I.held_nodup
  · rw [hsame]
    exact mapped_setSession I.mapped h hid

/-- What the ledger says when session `a` holds `mine` of the references. -/
theorem refs_split (h : s.sessions[a]? = some (some session)) (q : Nat) :
    refs s q = occurrences q (some session) + refs (s.setSession a none) q := by
  have := refs_setSession h none q
  simp only [occurrences] at this ⊢
  omega

theorem refs_setSession_some {session' : Session} (h : s.sessions[a]? = some (some session))
    (q : Nat) : refs (s.setSession a (some session')) q =
      occurrences q (some session') + refs (s.setSession a none) q := by
  have := refs_setSession h (some session') q
  have := refs_split h q
  omega

theorem refs_sameBut (h : SameBut s t) : refs t = refs s := by
  unfold SameBut at h
  funext q
  rw [h]
  rfl

theorem SameBut.setSession {session' : Option Session} (h : SameBut s t) :
    SameBut (s.setSession a session') (t.setSession a session') := by
  unfold SameBut State.setSession at *
  rw [h]

/-! ## Steps -/

theorem Inv.allocated (I : Inv s) {q : Nat} (h : s.sessions[a]? = some (some session))
    (hq : q ∈ session.sendQueue) : ∃ packet, s.heap q = some packet := by
  apply I.counts.exists_of_ne_zero
  have hle := holds_le_total (f := occurrences q) h
  have hpos := List.count_pos_iff.mpr hq
  simp only [occurrences] at hle
  simp only [refs]
  omega

theorem Inv.onAccept (I : Inv s) (id : SessionId) : Inv { s with
    sessions := s.sessions ++ [some ⟨id, false, [], []⟩]
    sessionMap := Function.update s.sessionMap id.index (some s.sessions.length) } := by
  have hrefs : ∀ q, total (occurrences q) (s.sessions ++ [some ⟨id, false, [], []⟩]) =
      total (occurrences q) s.sessions := by
    intro q
    simp [total_append, total, occurrences]
  refine ⟨I.held_nodup, ?_, I.logged, ?_⟩
  · have hsame : refs { s with
        sessions := s.sessions ++ [some ⟨id, false, [], []⟩]
        sessionMap := Function.update s.sessionMap id.index (some s.sessions.length) } = refs s := by
      funext q
      simp only [refs, hrefs]
    rw [hsame]
    exact I.counts
  · intro i b hb
    rcases update_some_eq_some.mp hb with ⟨rfl, rfl⟩ | ⟨-, hb⟩
    · exact ⟨⟨id, false, [], []⟩, by simp, rfl⟩
    · obtain ⟨session, hsession, hindex⟩ := I.mapped i b hb
      refine ⟨session, ?_, hindex⟩
      rw [List.getElem?_append_left (List.getElem?_eq_some_iff.mp hsession).1, hsession]

theorem Inv.create (I : Inv s) (hp : s.heap p = none) :
    Inv { s.write p { packet with referenceCount := 1 } with
      held := p :: s.held
      created := s.created ++ [p] } := by
  have hzero := I.counts.freed p hp
  have hheld : p ∉ s.held := by
    intro hmem
    have := List.count_pos_iff.mpr hmem
    simp only [refs] at hzero
    omega
  have hrefs : ∀ q, refs { s.write p { packet with referenceCount := 1 } with
      held := p :: s.held
      created := s.created ++ [p] } q = refs s q + if p = q then 1 else 0 := by
    intro q
    simp only [refs, State.write, List.count_cons, beq_iff_eq]
    omega
  refine ⟨List.nodup_cons.mpr ⟨hheld, I.held_nodup⟩, ?_, ?_, I.mapped⟩
  · constructor
    · intro q packet' hq
      rw [hrefs q]
      rcases update_some_eq_some.mp hq with ⟨rfl, rfl⟩ | ⟨hqp, hq⟩
      · simp [hzero]
      · simpa [Ne.symm hqp] using I.counts.counted q packet' hq
    · intro q hq
      rw [hrefs q]
      have hqp : q ≠ p := by
        rintro rfl
        simp [State.write] at hq
      simpa [Ne.symm hqp] using I.counts.freed q (by simpa [State.write, hqp] using hq)
  · intro q
    have := I.logged q
    by_cases hqp : q = p
    · subst hqp
      rw [hp] at this
      simpa [State.write] using this
    · simpa [State.write, hqp, List.count_singleton, Ne.symm hqp] using this

theorem Inv.sendPacket (I : Inv s) {id : SessionId} {acquired : Bool} (hfit : refs s p + 1 < 2 ^ 32)
    (hheld : p ∈ s.held) : Outcome Inv (· = .notEnabled) (sendPacket s id p acquired) := by
  unfold OutgoingRefs.sendPacket
  split
  · exact I
  · rename_i a ha
    obtain ⟨session, hsession, -⟩ := I.mapped _ a ha
    rw [sessionAt_of_some hsession]
    apply Outcome.ite
    · intro _
      exact I
    · intro _
      have hpos := List.count_pos_iff.mpr hheld
      obtain ⟨packet, hp⟩ := I.counts.exists_of_ne_zero (p := p) (by simp only [refs]; omega)
      rw [deref_ok hp]
      obtain ⟨hcount, hne⟩ := I.counts.counted p packet hp
      have hadd : (packet.referenceCount + 1).toNat = refs s p + 1 := by
        rw [UInt32.toNat_add, hcount]
        exact Nat.mod_eq_of_lt hfit
      have hrefs : ∀ q, refs ((s.write p
          { packet with referenceCount := packet.referenceCount + 1 }).setSession a
            (some { session with sendQueue := session.sendQueue ++ [p] })) q =
          refs s q + [p].count q := by
        intro q
        have hmoved := refs_setSession hsession
          (some { session with sendQueue := session.sendQueue ++ [p] }) q
        simp only [occurrences, List.count_append] at hmoved
        simp only [refs, State.write, State.setSession] at hmoved ⊢
        omega
      refine ⟨I.held_nodup, ?_, ?_, mapped_setSession I.mapped hsession rfl⟩
      · constructor
        · intro q packet' hq
          rw [hrefs q]
          rcases update_some_eq_some.mp hq with ⟨rfl, rfl⟩ | ⟨hqp, hq⟩
          · rw [List.count_singleton_self]
            exact ⟨hadd, Nat.succ_ne_zero _⟩
          · simpa [List.count_singleton, Ne.symm hqp] using I.counts.counted q packet' hq
        · intro q hq
          rw [hrefs q]
          have hqp : q ≠ p := by
            rintro rfl
            simp [State.write, State.setSession] at hq
          simpa [List.count_singleton, Ne.symm hqp] using
            I.counts.freed q (by simpa [State.write, State.setSession, hqp] using hq)
      · intro q
        have := I.logged q
        by_cases hqp : q = p
        · subst hqp
          rw [hp] at this
          simpa [State.write, State.setSession] using this
        · simpa [State.write, State.setSession, hqp] using this

/-- The creator's. -/
theorem Inv.destroyIfZero (I : Inv s) (hheld : p ∈ s.held) :
    Outcome Inv (· = .notEnabled) (State.destroyIfZero { s with held := s.held.erase p } p) := by
  have hsplit : refs s = fun q => [p].count q + refs { s with held := s.held.erase p } q := by
    funext q
    have hpos := List.count_pos_iff.mpr hheld
    by_cases hqp : q = p
    · subst hqp
      simp only [refs, List.count_erase_self, List.count_singleton_self]
      omega
    · simp [refs, List.count_erase_of_ne hqp, Ne.symm hqp]
  have hcounts := I.counts
  rw [hsplit] at hcounts
  obtain ⟨t, ht, hcounts', hlog, hsame⟩ :=
    destroyIfZero_spec (s := { s with held := s.held.erase p }) hcounts I.logged
  rw [ht]
  rw [← refs_sameBut hsame] at hcounts'
  unfold SameBut at hsame
  refine ⟨?_, hcounts', hlog, ?_⟩
  · rw [hsame]
    exact I.held_nodup.erase p
  · rw [hsame]
    exact I.mapped

theorem Inv.sendPost (I : Inv s) : Outcome Inv (· = .notEnabled) (sendPost s a) := by
  unfold OutgoingRefs.sendPost
  apply sessionAt_spec
  intro session hsession
  dsimp only
  apply Outcome.ite
  · intro _
    exact I
  · intro _
    have queued : ∀ q ∈ session.sendQueue, ∃ packet, s.heap q = some packet :=
      fun q hq => I.allocated hsession hq
    obtain ⟨session', hfill, hid, hocc⟩ := fillContext_spec queued
      ((if session.sendQueue.length + session.ptr.length > 1000 then 1000
        else session.sendQueue.length + session.ptr.length) - session.ptr.length)
    rw [hfill]
    refine I.setSession rfl I.logged hsession hid ?_
    have hsame : refs (s.setSession a (some session')) = refs s := by
      funext q
      have := refs_setSession hsession (some session') q
      rw [hocc q] at this
      omega
    rw [hsame]
    exact I.counts

theorem Inv.completion (I : Inv s) {cbTransferred : UInt32} :
    Outcome Inv (· = .notEnabled) (completion s a cbTransferred) := by
  unfold OutgoingRefs.completion
  apply sessionAt_spec
  intro session hsession
  apply Outcome.ite
  · intro _
    exact I
  intro _
  apply Outcome.ite
  · intro _
    exact I
  intro _
  split
  · exact I
  · rename_i b hb
    obtain ⟨ses, hses, -⟩ := I.mapped _ b hb
    rw [sessionAt_of_some hses]
    apply Outcome.ite
    · intro _
      exact I
    · intro _
      have hsplit : refs s = fun q => session.ptr.count q +
          (session.sendQueue.count q + refs (s.setSession a none) q) := by
        funext q
        rw [refs_split hsession q]
        simp only [occurrences]
        omega
      have hcounts := I.counts
      rw [hsplit] at hcounts
      obtain ⟨rest, t, ht, hcounts', hlog, hsame⟩ :=
        @dropTransferred_spec _ _ _ cbTransferred 0 hcounts I.logged
      rw [ht]
      refine I.setSession hsame hlog hsession rfl ?_
      have hrefs : refs (t.setSession a (some { session with ptr := rest })) = fun q =>
          rest.count q + (session.sendQueue.count q + refs (s.setSession a none) q) := by
        rw [refs_sameBut hsame.setSession]
        funext q
        rw [refs_setSession_some hsession q]
        simp only [occurrences]
        omega
      rw [hrefs]
      exact hcounts'

theorem Inv.onRelease (I : Inv s) : Outcome Inv (· = .notEnabled) (onRelease s a) := by
  unfold OutgoingRefs.onRelease
  apply sessionAt_spec
  intro session hsession
  have hsplit : refs s = fun q => session.sendQueue.count q +
      (session.ptr.count q + refs (s.setSession a none) q) := by
    funext q
    rw [refs_split hsession q]
    simp only [occurrences]
    omega
  have hcounts := I.counts
  rw [hsplit] at hcounts
  obtain ⟨t, ht, hcounts₁, hlog₁, hsame₁⟩ := foldlM_destroyIfZero (s := { s with
    sessionMap := Function.update s.sessionMap session.sessionId.index none }) hcounts I.logged
  obtain ⟨u, hu, hcounts₂, hlog₂, hsame₂⟩ := foldlM_destroyIfZero hcounts₁ hlog₁
  have hflush : flushSendPacket { s with
      sessionMap := Function.update s.sessionMap session.sessionId.index none } session = .ok u := by
    unfold flushSendPacket
    rw [ht]
    exact hu
  dsimp only
  rw [hflush]
  have hsame := hsame₁.trans hsame₂
  have hrefs : refs (u.setSession a none) = refs (s.setSession a none) := by
    rw [refs_sameBut hsame.setSession]
    rfl
  unfold SameBut at hsame
  refine ⟨?_, ?_, hlog₂, ?_⟩
  · show (u.setSession a none).held.Nodup
    rw [hsame]
    exact I.held_nodup
  · show Counts u.heap _
    rw [hrefs]
    exact hcounts₂
  · -- the freed session is the only one its entry could name
    show ∀ i b, u.sessionMap i = some b → ∃ session, (u.sessions.set a none)[b]? = _ ∧ _
    rw [hsame]
    intro i b hb
    obtain ⟨hi, hb⟩ := update_none_eq_some.mp hb
    obtain ⟨session', hsession', hindex⟩ := I.mapped i b hb
    have hab : a ≠ b := by
      rintro rfl
      rw [hsession] at hsession'
      cases hsession'
      exact hi hindex.symm
    exact ⟨session', by rw [List.getElem?_set_ne hab, hsession'], hindex⟩

/-- **A step moves references and changes each count by what it moves.** -/
theorem outcome_step (I : Inv s) {a : Action} (hfit : RefsFit s a) :
    Outcome Inv (· = .notEnabled) (step s a) := by
  cases a with
  | onAccept id => exact I.onAccept id
  | create p packet =>
    show Outcome Inv _ (OutgoingRefs.create s p packet)
    unfold OutgoingRefs.create
    split
    · rfl
    · rename_i hp
      exact I.create hp
  | sendPacket id p acquired =>
    apply Outcome.ite
    · intro hheld
      exact I.sendPacket hfit hheld
    · intro _
      rfl
  | destroyIfZero p =>
    apply Outcome.ite
    · intro hheld
      exact I.destroyIfZero hheld
    · intro _
      rfl
  | sendPost a => exact I.sendPost
  | completion a cbTransferred => exact I.completion
  | deleteRequest a =>
    apply sessionAt_spec
    intro session hsession
    refine I.setSession rfl I.logged hsession rfl ?_
    have hsame : refs (s.setSession a (some { session with isDeleteRequest := true })) = refs s := by
      funext q
      have := refs_setSession hsession (some { session with isDeleteRequest := true }) q
      simp only [occurrences] at this
      omega
    rw [hsame]
    exact I.counts
  | onRelease a => exact I.onRelease

/-- Nobody reaches a deleted packet or a freed session. -/
theorem Inv.no_useAfterFree (I : Inv s) (a : Action) : step s a ≠ .error .useAfterFree := by
  have key : Outcome (fun _ => True) (· = .notEnabled) (step s a) := by
    by_cases hfit : RefsFit s a
    · exact (outcome_step I hfit).weaken (fun _ _ => trivial) fun _ he => he
    · cases a with
      | sendPacket id p acquired =>
        apply Outcome.ite
        · intro hheld
          unfold OutgoingRefs.sendPacket
          split
          · trivial
          · rename_i a ha
            obtain ⟨session, hsession, -⟩ := I.mapped _ a ha
            have hpos := List.count_pos_iff.mpr hheld
            obtain ⟨packet, hp⟩ := I.counts.exists_of_ne_zero (p := p) (by simp only [refs]; omega)
            rw [sessionAt_of_some hsession]
            apply Outcome.ite
            · intro _
              trivial
            · intro _
              rw [deref_ok hp]
              trivial
        · intro _
          rfl
      | _ => exact absurd trivial hfit
  intro he
  cases key.of_error he

theorem Inv.accounted (I : Inv s) : Accounted s where
  held_once := I.held_nodup
  count := fun p packet hp => (I.counts.counted p packet hp).1
  kept := fun p hne hp => hne (I.counts.freed p hp)
  collected := by
    intro p hzero
    cases hp : s.heap p with
    | none => rfl
    | some packet => exact absurd hzero (I.counts.counted p packet hp).2
  deleted_once := I.logged
  no_useAfterFree := I.no_useAfterFree

/-- **The counts are the numbers of references, in every run whose steps meet the condition.** -/
theorem run_accounted {as : List Action}
    (h : Run (fun s a t => step s a = .ok t) RefsFit init as s) : Accounted s := by
  have I : Inv s := h.invariant init_inv fun x a y I hfit hstep => (outcome_step I hfit).of_ok hstep
  exact I.accounted

/-- A packet for two sessions, one of which is released; the other one transfers it. -/
theorem run_accounted_two_sessions :
    ∃ t, Run (fun s a t => step s a = .ok t) RefsFit init
        [.onAccept ⟨0, 1⟩, .onAccept ⟨1, 2⟩, .create 1 (CPacket.ofBytes [5, 6, 7]),
          .sendPacket ⟨0, 1⟩ 1 true, .sendPacket ⟨1, 2⟩ 1 true, .destroyIfZero 1, .sendPost 1,
          .onRelease 0, .completion 1 3] t ∧
      t.deleted = [1] ∧ Accounted t := by
  obtain ⟨t, hrun, hdeleted⟩ : ∃ t, Run (fun s a t => step s a = .ok t) RefsFit init
      [.onAccept ⟨0, 1⟩, .onAccept ⟨1, 2⟩, .create 1 (CPacket.ofBytes [5, 6, 7]),
        .sendPacket ⟨0, 1⟩ 1 true, .sendPacket ⟨1, 2⟩ 1 true, .destroyIfZero 1, .sendPost 1,
        .onRelease 0, .completion 1 3] t ∧ t.deleted = [1] :=
    ⟨_, .cons rfl trivial <| .cons rfl trivial <| .cons rfl trivial <|
      .cons rfl (by simp [RefsFit, refs, State.write, init, total, occurrences]) <|
      .cons rfl (by simp [RefsFit, refs, State.write, State.setSession, init, total, occurrences]) <|
      .cons rfl trivial <| .cons rfl trivial <| .cons rfl trivial <| .cons rfl trivial .nil, rfl⟩
  exact ⟨t, hrun, hdeleted, run_accounted hrun⟩

/-! ## Without the condition -/

/-- `SendPacket` finds the session of this id. -/
def Registered (s : State) (id : SessionId) : Prop :=
  ∃ a session, s.sessionMap id.index = some a ∧ s.sessions[a]? = some (some session) ∧
    session.sessionId = id

/-- A packet that is sent again and again. -/
theorem send_many {ids : List SessionId} (hids : ∀ id ∈ ids, Registered s id) (hheld : p ∈ s.held)
    (hp : s.heap p = some packet) :
    ∃ t, runFn step s (ids.map fun id => .sendPacket id p true) = .ok t ∧ t.held = s.held ∧
      t.heap p = some { packet with
        referenceCount := packet.referenceCount + UInt32.ofNat ids.length } ∧
      refs t p = refs s p + ids.length := by
  induction ids generalizing s packet with
  | nil => exact ⟨s, rfl, rfl, by simpa using hp, rfl⟩
  | cons id ids ih =>
    obtain ⟨a, session, hmap, hsession, hid⟩ := hids id List.mem_cons_self
    let u := (s.write p { packet with referenceCount := packet.referenceCount + 1 }).setSession a
      (some { session with sendQueue := session.sendQueue ++ [p] })
    have hstep : step s (.sendPacket id p true) = .ok u := by
      simp [step, hheld, sendPacket, hmap, sessionAt_of_some hsession, hid, deref_ok hp, u,
        bind, Except.bind, pure, Except.pure]
    have hregistered : ∀ id' ∈ ids, Registered u id' := by
      intro id' hid'
      obtain ⟨b, session', hmap', hsession', hsame⟩ := hids id' (List.mem_cons_of_mem _ hid')
      by_cases hab : a = b
      · subst hab
        rw [hsession] at hsession'
        cases hsession'
        exact ⟨a, _, hmap', getElem?_set_of_some hsession, hsame⟩
      · refine ⟨b, session', hmap', ?_, hsame⟩
        show (s.sessions.set a _)[b]? = _
        rw [List.getElem?_set_ne hab, hsession']
    obtain ⟨t, ht, hheld', hp', hrefs⟩ := ih hregistered (s := u) hheld
      (Function.update_self p _ s.heap)
    refine ⟨t, ?_, hheld', ?_, ?_⟩
    · simp only [List.map_cons, runFn, hstep]
      exact ht
    · rw [hp', List.length_cons, UInt32.ofNat_add, UInt32.add_assoc,
        UInt32.add_comm (UInt32.ofNat ids.length)]
      rfl
    · rw [hrefs]
      have hmoved := refs_setSession hsession
        (some { session with sendQueue := session.sendQueue ++ [p] }) p
      simp only [occurrences, List.count_append, List.count_singleton_self] at hmoved
      simp only [refs, State.write, State.setSession, List.length_cons, u] at hmoved ⊢
      omega

/-- One session after the other. -/
theorem accept_many (n : Nat) : ∃ t,
    runFn step init ((List.range n).map fun i => .onAccept ⟨i, 0⟩) = .ok t ∧ t.held = [] ∧
      (∀ p, t.heap p = none ∧ refs t p = 0) ∧ ∀ i < n, Registered t ⟨i, 0⟩ := by
  induction n with
  | zero => exact ⟨init, rfl, rfl, fun _ => ⟨rfl, rfl⟩, by simp⟩
  | succ n ih =>
    obtain ⟨t, ht, hheld, hempty, hregistered⟩ := ih
    let u : State := { t with
      sessions := t.sessions ++ [some ⟨⟨n, 0⟩, false, [], []⟩]
      sessionMap := Function.update t.sessionMap n (some t.sessions.length) }
    refine ⟨u, ?_, hheld, fun p => ⟨(hempty p).1, ?_⟩, ?_⟩
    · rw [List.range_succ, List.map_append, List.map_singleton, runFn_snoc, ht]
      rfl
    · have := (hempty p).2
      simp only [refs] at this ⊢
      simpa [u, total_append, total, occurrences] using this
    · intro i hi
      by_cases hin : i = n
      · subst hin
        exact ⟨t.sessions.length, ⟨⟨i, 0⟩, false, [], []⟩, by simp [u], by simp [u], rfl⟩
      · obtain ⟨a, session, hmap, hsession, hid⟩ := hregistered i (by omega)
        refine ⟨a, session, by simpa [u, hin] using hmap, ?_, hid⟩
        show (t.sessions ++ _)[a]? = _
        rw [List.getElem?_append_left (List.getElem?_eq_some_iff.mp hsession).1, hsession]

/-- `m` sends to each of `n` sessions. -/
def everybody (n m : Nat) : List SessionId :=
  (List.range n).flatMap fun i => List.replicate m ⟨i, 0⟩

theorem length_everybody (n m : Nat) : (everybody n m).length = n * m := by
  simp [everybody, List.length_flatMap]

/-- `n` sessions, a packet that is sent `m` times to each, and its creator's `DESTROY_IF_ZERO`. -/
def overflow (n m : Nat) : List Action :=
  (List.range n).map (fun i => .onAccept ⟨i, 0⟩) ++
    (.create 1 (CPacket.ofBytes [7]) :: (everybody n m).map fun id => .sendPacket id 1 true) ++
      [.destroyIfZero 1]

theorem overflow_deletes {n m : Nat} (h : n * m = 2 ^ 32) : ∃ t,
    runFn step init (overflow n m) = .ok t ∧ refs t 1 = 2 ^ 32 ∧ t.heap 1 = none := by
  obtain ⟨s, hs, hheld, hempty, hregistered⟩ := accept_many n
  let packet : CPacket := { CPacket.ofBytes [7] with referenceCount := 1 }
  let u : State := { s.write 1 packet with held := 1 :: s.held, created := s.created ++ [1] }
  have hcreate : step s (.create 1 (CPacket.ofBytes [7])) = .ok u := by
    simp only [step, create, (hempty 1).1]
    rfl
  have hids : ∀ id ∈ everybody n m, Registered u id := by
    intro id hid
    simp only [everybody, List.mem_flatMap, List.mem_range, List.mem_replicate] at hid
    obtain ⟨i, hi, -, rfl⟩ := hid
    exact hregistered i hi
  have hone : refs u 1 = 1 := by
    have := (hempty 1).2
    simp only [refs, hheld] at this ⊢
    simpa [u, State.write, hheld] using this
  have hpacket : u.heap 1 = some packet := Function.update_self 1 _ s.heap
  obtain ⟨v, hv, hheld', hheap, hrefs⟩ := send_many hids List.mem_cons_self hpacket
  rw [length_everybody, h] at hheap hrefs
  have hdestroy : step v (.destroyIfZero 1) =
      .ok (State.delete { v with held := v.held.erase 1 } 1) := by
    have hmem : 1 ∈ v.held := by
      rw [hheld']
      exact List.mem_cons_self
    have hzero : packet.referenceCount + UInt32.ofNat (2 ^ 32) - 1 = 0 := by decide
    simp only [step, hmem, if_true, State.destroyIfZero, State.deref, hheap, bind, Except.bind, hzero]
    rfl
  refine ⟨State.delete { v with held := v.held.erase 1 } 1, ?_, ?_, ?_⟩
  · unfold overflow
    rw [runFn_snoc, runFn_append, hs]
    simp only [runFn, hcreate, hv]
    exact hdestroy
  · rw [hone] at hrefs
    simp only [refs, State.delete, hheld', u, hheld] at hrefs ⊢
    simp at hrefs ⊢
    omega
  · simp [State.delete]

/-- **With `2 ^ 32` references the count is back at the creator's 1**, and its `DESTROY_IF_ZERO`
deletes a packet that is in every queue. -/
theorem count_wraps : ∃ t, runFn step init (overflow 65536 65536) = .ok t ∧
    refs t 1 = 2 ^ 32 ∧ t.heap 1 = none ∧ ¬ Accounted t := by
  obtain ⟨t, ht, hrefs, hheap⟩ := overflow_deletes (n := 65536) (m := 65536) (by norm_num)
  refine ⟨t, ht, hrefs, hheap, fun h => ?_⟩
  exact h.kept 1 (by rw [hrefs]; norm_num) hheap

end OutgoingRefs

end IocpServer
