import IocpServer.GetSize
import IocpServer.Lib.Clock
import IocpServer.Lib.Rounds

/-!
# Threads that serve an `MPSCQueue` in rounds

`SendThread` and `SessionDestroyThread` run the same loop: `GetSize`, then so many turns of
`Dequeue`, a look at the session, and perhaps an `Enqueue` that puts the request back.  They differ
in how many turns they allow and in what the look leads to (`Worker`).  The queue is `Counted`: the
other threads' calls of `Enqueue`, and the thread's own, may stand between the link and the count at
any time.

`looks` and `rounds` are history; `rounds` counts the rounds whose `GetSize` finds no such call.

* `Inv` — where the thread stands in its loop and in the queue.
* `not_dequeueFailed` — **no `Dequeue` of the loop finds the queue empty.**
* `Since.step` — what a step does to the requests that waited at a certain moment.
* `Since.looked` — **a request with `n` others before it is looked at before `n / cap + 1` such
  rounds are over.**
-/

set_option autoImplicit false

namespace IocpServer

open Lib

namespace MPSCQueue

namespace Rounds

/-- Where the thread stands in its inner loop. -/
inductive LoopPc (T : Type) where
  | head
  /-- In `Dequeue`, behind its compare-exchange. -/
  | dequeuing (t : T)
  | look (t : T)
  | requeue (t : T)
  /-- In `Enqueue`, behind the link. -/
  | requeuing

structure State (T Seen : Type) where
  queue : Counted.State T
  /-- `queueSize - processCount`, the turns to come in this round. -/
  left : Nat
  loop : LoopPc T
  /-- The requests looked at, and what was seen. -/
  looks : List (T × Seen)
  rounds : Nat

inductive Action (T Seen : Type) where
  | link (p : Nat) (value : T)
  | increment (p : Nat)
  /-- `seen` matters where the thread looks. -/
  | worker (seen : Seen)

inductive Fault where
  /-- `Dequeue` returns -1. -/
  | dequeueFailed
  | notEnabled
  deriving DecidableEq

/-- A thread: the turns it takes for a result of `GetSize`, never more than that, and whether it
puts a request back. -/
structure Worker (T Seen : Type) where
  turns : Int32 → Nat
  putsBack : T → Seen → Bool
  turns_le : ∀ queueSize, turns queueSize ≤ queueSize.toInt.toNat

variable {T Seen : Type}

def init (producers : Nat) : State T Seen := ⟨Counted.init producers, 0, .head, [], 0⟩

/-- No `Enqueue` stands between its link and its count, and the number fits an `int`. -/
def AllCounted (queue : Counted.State T) : Prop :=
  queue.half = 0 ∧ queue.chain.length < 2147483648

instance (queue : Counted.State T) : Decidable (AllCounted queue) :=
  inferInstanceAs (Decidable (_ ∧ _))

/-- A step of the queue, and what the thread does along with it. -/
def onQueue (s : State T Seen) (a : Counted.Action T)
    (next : Counted.State T → State T Seen) : Except Fault (State T Seen) :=
  match Counted.step s.queue a with
  | none => .error .notEnabled
  | some queue => .ok (next queue)

def workerStep (W : Worker T Seen) (s : State T Seen) (seen : Seen) :
    Except Fault (State T Seen) :=
  match s.loop with
  | .head =>
    if s.left = 0 then
      onQueue s .getSize fun queue => { s with
        queue := queue
        left := W.turns s.queue.count.toInt32
        rounds := if AllCounted s.queue then s.rounds + 1 else s.rounds }
    else
      match s.queue.chain with
      | [] => .error .dequeueFailed
      | t :: _ =>
        onQueue s .unlink fun queue =>
          { s with queue := queue, left := s.left - 1, loop := .dequeuing t }
  | .dequeuing t => onQueue s .decrement fun queue => { s with queue := queue, loop := .look t }
  | .look t =>
    .ok { s with
      looks := s.looks ++ [(t, seen)]
      loop := if W.putsBack t seen then .requeue t else .head }
  | .requeue t => onQueue s (.ownLink t) fun queue => { s with queue := queue, loop := .requeuing }
  | .requeuing => onQueue s .ownIncrement fun queue => { s with queue := queue, loop := .head }

def step (W : Worker T Seen) (s : State T Seen) : Action T Seen → Except Fault (State T Seen)
  | .link p value => onQueue s (.link p value) fun queue => { s with queue := queue }
  | .increment p => onQueue s (.increment p) fun queue => { s with queue := queue }
  | .worker seen => workerStep W s seen

/-! ## The invariant -/

/-- The request the thread has taken and not looked at yet. -/
def LoopPc.held : LoopPc T → List T
  | dequeuing t | look t => [t]
  | _ => []

/-- All requests taken from the queue, in order. -/
def State.taken (s : State T Seen) : List T := s.looks.map Prod.fst ++ s.loop.held

/-- The request that is not dealt with yet. -/
def LoopPc.unfinished : LoopPc T → List T
  | dequeuing t | look t | requeue t => [t]
  | _ => []

/-- The requests that are not dealt with yet. -/
def State.pending (s : State T Seen) : List T := s.loop.unfinished ++ s.queue.chain

/-- Where the thread stands in the queue. -/
def LoopPc.Stands (consumer : Counted.Consumer T) : LoopPc T → Prop
  | head | look _ | requeue _ => ∃ allowed, consumer = .ready allowed
  | dequeuing t => ∃ allowed, consumer = .unlinked allowed t
  | requeuing => ∃ allowed, consumer = .linked allowed

structure Inv (s : State T Seen) : Prop where
  counted : ∃ delivered, Counted.Inv s.queue delivered
  stands : s.loop.Stands s.queue.consumer
  left_le : s.left ≤ s.queue.consumer.allowed

theorem Inv.init (producers : Nat) : Inv (init producers : State T Seen) :=
  ⟨⟨[], Counted.Inv.init producers⟩, ⟨0, rfl⟩, Nat.le_refl 0⟩

variable {W : Worker T Seen} {s t : State T Seen} {a : Action T Seen} {queue : Counted.State T}

theorem onQueue_eq_ok {b : Counted.Action T} {next : Counted.State T → State T Seen} :
    onQueue s b next = .ok t ↔ ∃ queue, Counted.step s.queue b = some queue ∧ next queue = t := by
  unfold onQueue
  cases Counted.step s.queue b <;> simp

theorem onQueue_ne_dequeueFailed {b : Counted.Action T} {next : Counted.State T → State T Seen} :
    onQueue s b next ≠ .error .dequeueFailed := by
  unfold onQueue
  cases Counted.step s.queue b <;> simp

/-- **No `Dequeue` of the loop finds the queue empty.** -/
theorem not_dequeueFailed (I : Inv s) : step W s a ≠ .error .dequeueFailed := by
  intro h
  cases a with
  | link => exact onQueue_ne_dequeueFailed h
  | increment => exact onQueue_ne_dequeueFailed h
  | worker seen =>
    simp only [step, workerStep] at h
    split at h
    · split at h
      · exact onQueue_ne_dequeueFailed h
      · rename_i hleft
        split at h
        · rename_i hempty
          obtain ⟨delivered, J⟩ := I.counted
          have := I.left_le
          exact J.chain_ne_nil (by omega) hempty
        · exact onQueue_ne_dequeueFailed h
    · exact onQueue_ne_dequeueFailed h
    · cases h
    · exact onQueue_ne_dequeueFailed h
    · exact onQueue_ne_dequeueFailed h

/-! ## Steps -/

theorem toNat_toInt32_le (n : UInt32) : n.toInt32.toInt.toNat ≤ n.toNat := by
  have shows : (signed n.toNat).toInt = n.toInt32.toInt := by rw [signed, shown, UInt32.ofNat_toNat]
  have bound := n.toNat_lt
  rw [← shows, toInt_signed]
  omega

/-- When every `Enqueue` is counted, `GetSize` returns the number of the values linked. -/
theorem getSize_eq {delivered : List T} (J : Counted.Inv queue delivered)
    (hready : ∃ allowed, queue.consumer = .ready allowed) (hcounted : AllCounted queue) :
    queue.count.toInt32.toInt.toNat = queue.chain.length := by
  obtain ⟨allowed, hready⟩ := hready
  obtain ⟨hhalf, hsmall⟩ := hcounted
  have linked := congrArg List.length J.linked
  simp only [hready, Counted.Consumer.taken, List.nil_append, List.length_append, J.raised, hhalf,
    J.lowered] at linked
  have size : queue.increments - queue.decrements = queue.chain.length := by omega
  have count : queue.count.toInt32 = signed queue.chain.length := by
    rw [J.count, size]
    rfl
  rw [count, toInt_signed]
  omega

/-- A step that is not a look loses no request. -/
structure Keeps (s t : State T Seen) : Prop where
  looks : t.looks = s.looks
  pending : ∀ value ∈ s.pending, value ∈ t.pending

/-- What a step does to the requests: one is looked at, or nothing happens to them, or one joins, or
a round begins, or one is taken. -/
inductive Moves (W : Worker T Seen) (s : State T Seen) (a : Action T Seen) (t : State T Seen) : Prop
  | looks (value : T) (seen : Seen) (loop : s.loop = .look value) (action : a = .worker seen)
      (eq : t = { s with
        looks := s.looks ++ [(value, seen)]
        loop := if W.putsBack value seen then .requeue value else .head })
  | stays (keeps : Keeps s t) (taken : t.taken = s.taken) (chain : t.queue.chain = s.queue.chain)
      (left : t.left = s.left) (rounds : t.rounds = s.rounds)
  | joins (keeps : Keeps s t) (value : T) (taken : t.taken = s.taken)
      (chain : t.queue.chain = s.queue.chain ++ [value])
      (left : t.left = s.left) (rounds : t.rounds = s.rounds)
  | begins (keeps : Keeps s t) (ended : s.left = 0) (taken : t.taken = s.taken)
      (chain : t.queue.chain = s.queue.chain)
      (rounds : t.rounds = s.rounds ∨ t.rounds = s.rounds + 1 ∧ ∃ queueSize : Int32,
        queueSize.toInt.toNat = s.queue.chain.length ∧ t.left = W.turns queueSize)
  | takes (keeps : Keeps s t) (value : T) (taken : t.taken = s.taken ++ [value])
      (chain : s.queue.chain = value :: t.queue.chain)
      (left : s.left = t.left + 1) (rounds : t.rounds = s.rounds)

theorem taken_look {value : T} (h : s.loop = .look value) (seen : Seen) :
    State.taken { s with
      looks := s.looks ++ [(value, seen)]
      loop := if W.putsBack value seen then .requeue value else .head } = s.taken := by
  cases hback : W.putsBack value seen <;> simp [State.taken, LoopPc.held, h]

/-- Another thread's step in `Enqueue`. -/
theorem counted_producer {b : Counted.Action T} {p : Nat}
    (hb : (∃ value, b = .link p value) ∨ b = .increment p)
    (h : Counted.step s.queue b = some queue) :
    queue.consumer = s.queue.consumer ∧
      ((∃ value, queue.chain = s.queue.chain ++ [value]) ∨ queue.chain = s.queue.chain) := by
  rcases hb with ⟨value, rfl⟩ | rfl <;> simp only [Counted.step] at h <;> split at h <;> cases h
  · exact ⟨rfl, .inl ⟨value, rfl⟩⟩
  · exact ⟨rfl, .inr rfl⟩

/-- The steps of the other threads. -/
theorem Inv.producer (I : Inv s) {b : Counted.Action T} {p : Nat}
    (hb : (∃ value, b = .link p value) ∨ b = .increment p)
    (h : Counted.step s.queue b = some queue) :
    Inv { s with queue := queue } ∧ Moves W s a { s with queue := queue } := by
  obtain ⟨consumer, chain⟩ := counted_producer hb h
  obtain ⟨delivered, J⟩ := I.counted
  obtain ⟨more, J⟩ := J.step h
  refine ⟨⟨⟨_, J⟩, ?_, ?_⟩, ?_⟩
  · rw [consumer]
    exact I.stands
  · rw [consumer]
    exact I.left_le
  · rcases chain with ⟨value, chain⟩ | chain
    · refine .joins ⟨rfl, fun v hv => ?_⟩ value rfl chain rfl rfl
      rw [State.pending, chain, ← List.append_assoc]
      exact List.mem_append_left _ hv
    · refine .stays ⟨rfl, fun v hv => ?_⟩ rfl chain rfl rfl
      rw [State.pending, chain]
      exact hv

/-- A round begins. -/
theorem Inv.getSize (I : Inv s) (hloop : s.loop = .head) (hleft : s.left = 0)
    (h : Counted.step s.queue .getSize = some queue) :
    Inv { s with
      queue := queue
      left := W.turns s.queue.count.toInt32
      rounds := if AllCounted s.queue then s.rounds + 1 else s.rounds } ∧
    Moves W s a { s with
      queue := queue
      left := W.turns s.queue.count.toInt32
      rounds := if AllCounted s.queue then s.rounds + 1 else s.rounds } := by
  obtain ⟨delivered, J⟩ := I.counted
  obtain ⟨more, J'⟩ := J.step h
  have hready : ∃ allowed, s.queue.consumer = .ready allowed := by
    have stands := I.stands
    rwa [hloop] at stands
  have counted := getSize_eq J hready
  obtain ⟨allowed, hready⟩ := hready
  simp only [Counted.step, hready, Option.some.injEq] at h
  subst h
  refine ⟨⟨⟨_, J'⟩, ?_, ?_⟩, ?_⟩
  · rw [hloop]
    exact ⟨_, rfl⟩
  · exact (W.turns_le _).trans (toNat_toInt32_le _)
  · refine .begins ⟨rfl, fun _ hv => hv⟩ hleft rfl rfl ?_
    by_cases hcounted : AllCounted s.queue
    · exact .inr ⟨if_pos hcounted, _, counted hcounted, rfl⟩
    · exact .inl (if_neg hcounted)

/-- A request is taken. -/
theorem Inv.unlink (I : Inv s) (hloop : s.loop = .head) (hleft : s.left ≠ 0) {value : T}
    {chain : List T} (hchain : s.queue.chain = value :: chain)
    (h : Counted.step s.queue .unlink = some queue) :
    Inv { s with queue := queue, left := s.left - 1, loop := .dequeuing value } ∧
    Moves W s a { s with queue := queue, left := s.left - 1, loop := .dequeuing value } := by
  obtain ⟨delivered, J⟩ := I.counted
  obtain ⟨more, J'⟩ := J.step h
  have left_le := I.left_le
  have stands := I.stands
  rw [hloop] at stands
  obtain ⟨allowed, hready⟩ := stands
  cases allowed with
  | zero =>
    simp only [hready, Counted.Consumer.allowed] at left_le
    omega
  | succ allowed =>
    simp only [Counted.step, hready, hchain, Option.some.injEq] at h
    subst h
    simp only [hready, Counted.Consumer.allowed] at left_le
    refine ⟨⟨⟨_, J'⟩, ⟨allowed, rfl⟩, ?_⟩, ?_⟩
    · simp only [Counted.Consumer.allowed]
      omega
    · refine .takes ⟨rfl, fun v hv => ?_⟩ value ?_ hchain ?_ rfl
      · simpa [State.pending, LoopPc.unfinished, hloop, hchain] using hv
      · simp [State.taken, LoopPc.held, hloop]
      · show s.left = s.left - 1 + 1
        omega

/-- `Dequeue` returns. -/
theorem Inv.decrement (I : Inv s) {value : T} (hloop : s.loop = .dequeuing value)
    (h : Counted.step s.queue .decrement = some queue) :
    Inv { s with queue := queue, loop := .look value } ∧
    Moves W s a { s with queue := queue, loop := .look value } := by
  obtain ⟨delivered, J⟩ := I.counted
  obtain ⟨more, J'⟩ := J.step h
  have left_le := I.left_le
  have stands := I.stands
  rw [hloop] at stands
  obtain ⟨allowed, hunlinked⟩ := stands
  simp only [Counted.step, hunlinked, Option.some.injEq] at h
  subst h
  simp only [hunlinked, Counted.Consumer.allowed] at left_le
  refine ⟨⟨⟨_, J'⟩, ⟨allowed, rfl⟩, left_le⟩, .stays ⟨rfl, fun v hv => ?_⟩ ?_ rfl rfl rfl⟩
  · simpa [State.pending, LoopPc.unfinished, hloop] using hv
  · simp [State.taken, LoopPc.held, hloop]

/-- A look at the session. -/
theorem Inv.look (I : Inv s) {value : T} (hloop : s.loop = .look value) (seen : Seen) :
    Inv { s with
      looks := s.looks ++ [(value, seen)]
      loop := if W.putsBack value seen then .requeue value else .head } := by
  have stands := I.stands
  rw [hloop] at stands
  refine ⟨I.counted, ?_, I.left_le⟩
  cases W.putsBack value seen <;> exact stands

/-- A request is put back. -/
theorem Inv.ownLink (I : Inv s) {value : T} (hloop : s.loop = .requeue value)
    (h : Counted.step s.queue (.ownLink value) = some queue) :
    Inv { s with queue := queue, loop := .requeuing } ∧
    Moves W s a { s with queue := queue, loop := .requeuing } := by
  obtain ⟨delivered, J⟩ := I.counted
  obtain ⟨more, J'⟩ := J.step h
  have left_le := I.left_le
  have stands := I.stands
  rw [hloop] at stands
  obtain ⟨allowed, hready⟩ := stands
  simp only [Counted.step, hready, Option.some.injEq] at h
  subst h
  simp only [hready, Counted.Consumer.allowed] at left_le
  refine ⟨⟨⟨_, J'⟩, ⟨allowed, rfl⟩, left_le⟩, .joins ⟨rfl, fun v hv => ?_⟩ value ?_ rfl rfl rfl⟩
  · simpa [State.pending, LoopPc.unfinished, hloop, Counted.State.link, or_comm] using hv
  · simp [State.taken, LoopPc.held, hloop]

/-- The thread's own `Enqueue` returns. -/
theorem Inv.ownIncrement (I : Inv s) (hloop : s.loop = .requeuing)
    (h : Counted.step s.queue .ownIncrement = some queue) :
    Inv { s with queue := queue, loop := .head } ∧
    Moves W s a { s with queue := queue, loop := .head } := by
  obtain ⟨delivered, J⟩ := I.counted
  obtain ⟨more, J'⟩ := J.step h
  have left_le := I.left_le
  have stands := I.stands
  rw [hloop] at stands
  obtain ⟨allowed, hlinked⟩ := stands
  simp only [Counted.step, hlinked, Option.some.injEq] at h
  subst h
  simp only [hlinked, Counted.Consumer.allowed] at left_le
  refine ⟨⟨⟨_, J'⟩, ⟨allowed, rfl⟩, left_le⟩, .stays ⟨rfl, fun v hv => ?_⟩ ?_ rfl rfl rfl⟩
  · simpa [State.pending, LoopPc.unfinished, hloop, Counted.State.increment] using hv
  · simp [State.taken, LoopPc.held, hloop]

/-- **Every step keeps the invariant, and moves the requests in one of these ways.** -/
theorem Inv.step (I : Inv s) (h : step W s a = .ok t) : Inv t ∧ Moves W s a t := by
  cases a with
  | link p value =>
    obtain ⟨queue, hqueue, rfl⟩ := onQueue_eq_ok.1 h
    exact I.producer (.inl ⟨value, rfl⟩) hqueue
  | increment p =>
    obtain ⟨queue, hqueue, rfl⟩ := onQueue_eq_ok.1 h
    exact I.producer (.inr rfl) hqueue
  | worker seen =>
    simp only [Rounds.step, workerStep] at h
    split at h
    · rename_i hloop
      split at h
      · rename_i hleft
        obtain ⟨queue, hqueue, rfl⟩ := onQueue_eq_ok.1 h
        exact I.getSize hloop hleft hqueue
      · rename_i hleft
        split at h
        · cases h
        · rename_i hchain
          obtain ⟨queue, hqueue, rfl⟩ := onQueue_eq_ok.1 h
          exact I.unlink hloop hleft hchain hqueue
    · rename_i hloop
      obtain ⟨queue, hqueue, rfl⟩ := onQueue_eq_ok.1 h
      exact I.decrement hloop hqueue
    · rename_i hloop
      cases h
      exact ⟨I.look hloop seen, .looks _ seen hloop rfl rfl⟩
    · rename_i hloop
      obtain ⟨queue, hqueue, rfl⟩ := onQueue_eq_ok.1 h
      exact I.ownLink hloop hqueue
    · rename_i hloop
      obtain ⟨queue, hqueue, rfl⟩ := onQueue_eq_ok.1 h
      exact I.ownIncrement hloop hqueue

theorem step_look {value : T} (h : s.loop = .look value) (seen : Seen) :
    step W s (.worker seen) = .ok { s with
      looks := s.looks ++ [(value, seen)]
      loop := if W.putsBack value seen then .requeue value else .head } := by
  simp only [step, workerStep, h]

/-- A look is a step of its own; any other step keeps the looks and the requests. -/
theorem looks_or_keeps (I : Inv s) (h : step W s a = .ok t) :
    (∃ value seen, s.loop = .look value ∧ a = .worker seen ∧ t = { s with
      looks := s.looks ++ [(value, seen)]
      loop := if W.putsBack value seen then .requeue value else .head }) ∨ Keeps s t := by
  cases (I.step h).2 with
  | looks value seen loop action eq => exact .inl ⟨value, seen, loop, action, eq⟩
  | stays keeps => exact .inr keeps
  | joins keeps => exact .inr keeps
  | begins keeps => exact .inr keeps
  | takes keeps => exact .inr keeps

/-! ## How long a request waits -/

/-- What has become, in `t`, of the requests `upTo` that waited in `s`. -/
structure Since (upTo : List T) (cap : Nat) (s t : State T Seen) : Prop where
  inv : Inv t
  rounds_le : s.rounds ≤ t.rounds
  ahead : ∃ more, t.taken = s.taken ++ more ∧
    Ahead upTo cap more t.queue.chain t.left (t.rounds - s.rounds)

variable {upTo : List T} {cap : Nat} {u : State T Seen}

theorem Since.now (I : Inv s) (h : upTo <+: s.queue.chain) : Since upTo cap s s := by
  refine ⟨I, Nat.le_refl _, [], (List.append_nil _).symm, ?_⟩
  rw [Nat.sub_self]
  exact .now h _

theorem Since.step (S : Since upTo cap s t)
    (hcap : ∀ queueSize, min cap queueSize.toInt.toNat ≤ W.turns queueSize)
    (h : step W t a = .ok u) : Since upTo cap s u := by
  obtain ⟨I, moves⟩ := S.inv.step h
  have rounds_le := S.rounds_le
  obtain ⟨more, taken, A⟩ := S.ahead
  cases moves with
  | looks value seen hloop _ eq =>
    subst eq
    exact ⟨I, rounds_le, more, (taken_look hloop seen).trans taken, A⟩
  | stays _ htaken hchain hleft hrounds =>
    refine ⟨I, hrounds ▸ rounds_le, more, htaken.trans taken, ?_⟩
    rw [hchain, hleft, hrounds]
    exact A
  | joins _ value htaken hchain hleft hrounds =>
    refine ⟨I, hrounds ▸ rounds_le, more, htaken.trans taken, ?_⟩
    rw [hchain, hleft, hrounds]
    exact A.join value
  | begins _ ended htaken hchain hrounds =>
    rw [ended] at A
    rcases hrounds with hrounds | ⟨hrounds, queueSize, size, hleft⟩
    · refine ⟨I, hrounds ▸ rounds_le, more, htaken.trans taken, ?_⟩
      rw [hchain, hrounds]
      exact A.beginShort _
    · refine ⟨I, by omega, more, htaken.trans taken, ?_⟩
      have count : u.rounds - s.rounds = t.rounds - s.rounds + 1 := by omega
      rw [hchain, hleft, count]
      exact A.begin (size ▸ hcap queueSize)
  | takes _ value htaken hchain hleft hrounds =>
    refine ⟨I, hrounds ▸ rounds_le, more ++ [value], ?_, ?_⟩
    · rw [htaken, taken, List.append_assoc]
    · rw [hchain, hleft] at A
      rw [hrounds]
      exact A.take

/-- **A request with `n` others before it is looked at before `n / cap + 1` rounds are over**, and
not only before `s`. -/
theorem Since.looked {front : List T} {value : T} (S : Since (front ++ [value]) cap s t)
    (between : t.loop = .head ∧ t.left = 0)
    (rounds : front.length < cap * (t.rounds - s.rounds)) :
    ∃ seen, t.looks[s.taken.length + front.length]? = some (value, seen) ∧
      ∀ new, t.looks = s.looks ++ new → (value, seen) ∈ new := by
  obtain ⟨more, taken, A⟩ := S.ahead
  obtain ⟨hloop, hleft⟩ := between
  rw [hleft] at A
  obtain ⟨rest, rfl⟩ := A.served (by rw [List.length_append, List.length_singleton]; exact rounds)
  have looked : (t.looks.map Prod.fst)[s.taken.length + front.length]? = some value := by
    have all : t.looks.map Prod.fst = t.taken := by simp [State.taken, LoopPc.held, hloop]
    rw [all, taken, List.append_assoc, List.getElem?_append_right (by omega), Nat.add_sub_cancel_left,
      List.getElem?_append_right (Nat.le_refl _), Nat.sub_self]
    rfl
  rw [List.getElem?_map, Option.map_eq_some_iff] at looked
  obtain ⟨⟨value', seen⟩, found, rfl⟩ := looked
  refine ⟨seen, found, fun new hnew => ?_⟩
  have long : s.looks.length ≤ s.taken.length := by simp [State.taken]
  rw [hnew, List.getElem?_append_right (by omega)] at found
  exact List.mem_of_getElem? found

end Rounds

end MPSCQueue

end IocpServer
