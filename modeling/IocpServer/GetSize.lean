import IocpServer.Lib.Counter
import IocpServer.Lib.Threads
import IocpServer.Lib.Run
import Mathlib.Data.Option.Basic

/-!
# `GetSize` before `Dequeue`

How the consumers of `MPSCQueue` use it: `Dequeue` is called only after `GetSize` has reported a
number other than zero, and at most that many times.  Linking a node and unlinking one are single
steps here; `Enqueue` raises `count` in a later step than it links, and `Dequeue` lowers it in a
later step than it unlinks.  Any number of `Enqueue` calls may stand between their two steps, one of
them the consumer's own.

`linked`, `returns`, `increments` and `decrements` are history.

* `Inv` — what is counted, linked and allowed, against each other.
* `Inv.step` — every step keeps it.
* `run_dequeue_returns` — **no `Dequeue` returns `-1`, the values come out in the order they were
  linked, and `count` is lowered no more often than raised.**
-/

set_option autoImplicit false

namespace IocpServer

open Lib

namespace MPSCQueue

namespace Counted

/-- Where the consumer stands; `allowed` is how many calls of `Dequeue` the last `GetSize` leaves. -/
inductive Consumer (T : Type) where
  | ready (allowed : Nat)
  /-- In `Dequeue`, behind the compare-exchange on `head`. -/
  | unlinked (allowed : Nat) (t : T)
  /-- In an `Enqueue` of its own, behind the link. -/
  | linked (allowed : Nat)

structure State (T : Type) where
  /-- The values of the nodes behind the dummy node. -/
  chain : List T
  count : UInt32
  /-- For each producer: it has linked and not raised `count` yet. -/
  producers : List Bool
  consumer : Consumer T
  linked : List T
  /-- What the calls of `Dequeue` returned: a value, or `none` for `-1`. -/
  returns : List (Option T)
  increments : Nat
  decrements : Nat

inductive Action (T : Type) where
  /-- Producer `p`, in `Enqueue(value)`, links its node. -/
  | link (p : Nat) (value : T)
  /-- `InterlockedIncrement(&count)` of producer `p`. -/
  | increment (p : Nat)
  /-- `GetSize`; callers that take its `int` for a signed number make fewer calls than `count` allows. -/
  | getSize
  /-- `Dequeue` up to its compare-exchange on `head`, or to `return -1`. -/
  | unlink
  /-- `InterlockedDecrement(&count)` and `return 0`. -/
  | decrement
  /-- The consumer's own `Enqueue(value)` links its node. -/
  | ownLink (value : T)
  | ownIncrement

variable {T : Type}

/-- An empty queue and `n` producers. -/
def init (n : Nat) : State T := ⟨[], 0, List.replicate n false, .ready 0, [], [], 0, 0⟩

def State.link (s : State T) (value : T) : State T :=
  { s with chain := s.chain ++ [value], linked := s.linked ++ [value] }

def State.increment (s : State T) : State T :=
  { s with count := s.count + 1, increments := s.increments + 1 }

def step (s : State T) : Action T → Option (State T)
  | .link p value =>
    match s.producers[p]? with
    | some false => some { s.link value with producers := s.producers.set p true }
    | _ => none
  | .increment p =>
    match s.producers[p]? with
    | some true => some { s.increment with producers := s.producers.set p false }
    | _ => none
  | .getSize =>
    match s.consumer with
    | .ready _ => some { s with consumer := .ready s.count.toNat }
    | _ => none
  | .unlink =>
    match s.consumer, s.chain with
    | .ready (allowed + 1), [] =>
      some { s with consumer := .ready allowed, returns := s.returns ++ [none] }
    | .ready (allowed + 1), t :: chain =>
      some { s with chain := chain, consumer := .unlinked allowed t }
    | _, _ => none
  | .decrement =>
    match s.consumer with
    | .unlinked allowed t =>
      some { s with
        count := s.count - 1
        consumer := .ready allowed
        returns := s.returns ++ [some t]
        decrements := s.decrements + 1 }
    | _ => none
  | .ownLink value =>
    match s.consumer with
    | .ready allowed => some { s.link value with consumer := .linked allowed }
    | _ => none
  | .ownIncrement =>
    match s.consumer with
    | .linked allowed => some { s.increment with consumer := .ready allowed }
    | _ => none

/-! ## The invariant -/

/-- The calls of `Dequeue` still allowed. -/
def Consumer.allowed : Consumer T → Nat
  | ready allowed | unlinked allowed _ | linked allowed => allowed

/-- The value between the two steps of a `Dequeue`. -/
def Consumer.taken : Consumer T → List T
  | unlinked _ t => [t]
  | _ => []

/-- Whether the consumer stands between the two steps of an `Enqueue`. -/
def Consumer.half : Consumer T → Nat
  | linked _ => 1
  | _ => 0

/-- The calls of `Enqueue` between their two steps. -/
def State.half (s : State T) : Nat := total Bool.toNat s.producers + s.consumer.half

/-- What was linked is what was returned, what is being returned and the chain; `count` was raised
for all of it but the half-finished calls; and what is being returned or may still be asked for is
counted. -/
structure Inv (s : State T) (delivered : List T) : Prop where
  returns : s.returns = delivered.map some
  linked : s.linked = delivered ++ (s.consumer.taken ++ s.chain)
  raised : s.linked.length = s.increments + s.half
  lowered : delivered.length = s.decrements
  counted : s.decrements + s.consumer.taken.length + s.consumer.allowed ≤ s.increments
  count : s.count = UInt32.ofNat (s.increments - s.decrements)

theorem Inv.init (n : Nat) : Inv (init n : State T) [] := by
  have idle : total Bool.toNat (List.replicate n false) = 0 :=
    total_eq_zero fun b hb => by rw [List.eq_of_mem_replicate hb]; rfl
  refine ⟨rfl, rfl, ?_, rfl, Nat.le_refl 0, rfl⟩
  simp [Counted.init, State.half, Consumer.half, idle]

variable {s t : State T} {delivered : List T} {value : T} {p : Nat}

/-- While a call of `Dequeue` is allowed, a node is there to be unlinked. -/
theorem Inv.chain_ne_nil (I : Inv s delivered) (h : 0 < s.consumer.allowed) : s.chain ≠ [] := by
  intro empty
  have length := congrArg List.length I.linked
  rw [empty, List.append_nil, List.length_append, I.raised, I.lowered] at length
  have := I.counted
  omega

/-- Linking a node, by whoever is then one more call between its two steps. -/
theorem Inv.link (I : Inv s delivered) {producers : List Bool} {consumer : Consumer T}
    (taken : consumer.taken = s.consumer.taken) (allowed : consumer.allowed = s.consumer.allowed)
    (half : total Bool.toNat producers + consumer.half = s.half + 1) :
    Inv { s.link value with producers := producers, consumer := consumer } delivered := by
  refine ⟨I.returns, ?_, ?_, I.lowered, ?_, I.count⟩
  · simp [State.link, I.linked, taken]
  · have raised := I.raised
    show (s.linked ++ [value]).length = s.increments + (total Bool.toNat producers + consumer.half)
    rw [List.length_append, List.length_singleton]
    omega
  · have counted := I.counted
    simp only [State.link, taken, allowed]
    exact counted

/-- Raising `count`, by whoever is then one call less between its two steps. -/
theorem Inv.increment (I : Inv s delivered) {producers : List Bool} {consumer : Consumer T}
    (taken : consumer.taken = s.consumer.taken) (allowed : consumer.allowed = s.consumer.allowed)
    (half : total Bool.toNat producers + consumer.half + 1 = s.half) :
    Inv { s.increment with producers := producers, consumer := consumer } delivered := by
  have counted := I.counted
  refine ⟨I.returns, ?_, ?_, I.lowered, ?_, ?_⟩
  · simp [State.increment, I.linked, taken]
  · have raised := I.raised
    show s.linked.length = s.increments + 1 + (total Bool.toNat producers + consumer.half)
    omega
  · simp only [State.increment, taken, allowed]
    omega
  · show s.count + 1 = UInt32.ofNat (s.increments + 1 - s.decrements)
    rw [I.count, ofNat_succ_sub (by omega)]

/-- **Every step keeps the counts together; what it returns is a value.** -/
theorem Inv.step {a : Action T} (I : Inv s delivered) (h : step s a = some t) :
    ∃ more, Inv t (delivered ++ more) := by
  cases a with
  | link p value =>
    simp only [Counted.step] at h
    split at h
    · rename_i hp
      cases h
      have half := @total_set _ Bool.toNat _ _ _ true hp
      simp only [Bool.toNat_true, Bool.toNat_false] at half
      refine ⟨[], ?_⟩
      rw [List.append_nil]
      exact I.link rfl rfl (by simp only [State.half, State.link]; omega)
    · cases h
  | increment p =>
    simp only [Counted.step] at h
    split at h
    · rename_i hp
      cases h
      have half := @total_set _ Bool.toNat _ _ _ false hp
      simp only [Bool.toNat_true, Bool.toNat_false] at half
      refine ⟨[], ?_⟩
      rw [List.append_nil]
      exact I.increment rfl rfl (by simp only [State.half, State.increment]; omega)
    · cases h
  | getSize =>
    simp only [Counted.step] at h
    split at h
    · rename_i allowed hready
      cases h
      have lowered := I.counted
      have small : s.count.toNat ≤ s.increments - s.decrements := by
        rw [I.count, UInt32.toNat_ofNat']
        exact Nat.mod_le _ _
      simp only [hready, Consumer.taken, Consumer.allowed, List.length_nil] at lowered
      refine ⟨[], ?_⟩
      rw [List.append_nil]
      refine ⟨I.returns, ?_, ?_, I.lowered, ?_, I.count⟩
      · simpa [hready, Consumer.taken] using I.linked
      · simpa [hready, State.half, Consumer.half] using I.raised
      · simp only [Consumer.taken, Consumer.allowed, List.length_nil]
        omega
    · cases h
  | unlink =>
    simp only [Counted.step] at h
    split at h
    · rename_i allowed hready hchain
      exact absurd hchain (I.chain_ne_nil (by simp [hready, Consumer.allowed]))
    · rename_i allowed value chain hready hchain
      cases h
      have counted := I.counted
      simp only [hready, Consumer.taken, Consumer.allowed, List.length_nil] at counted
      refine ⟨[], ?_⟩
      rw [List.append_nil]
      refine ⟨I.returns, ?_, ?_, I.lowered, ?_, I.count⟩
      · simpa [hready, hchain, Consumer.taken] using I.linked
      · simpa [hready, State.half, Consumer.half] using I.raised
      · simp only [Consumer.taken, Consumer.allowed, List.length_singleton]
        omega
    · cases h
  | decrement =>
    simp only [Counted.step] at h
    split at h
    · rename_i allowed value hunlinked
      cases h
      have counted := I.counted
      simp only [hunlinked, Consumer.taken, Consumer.allowed, List.length_singleton] at counted
      refine ⟨[value], ?_, ?_, ?_, ?_, ?_, ?_⟩
      · simp [I.returns]
      · simpa [hunlinked, Consumer.taken] using I.linked
      · simpa [hunlinked, State.half, Consumer.half] using I.raised
      · simp [I.lowered]
      · simp only [Consumer.taken, Consumer.allowed, List.length_nil]
        omega
      · show s.count - 1 = UInt32.ofNat (s.increments - (s.decrements + 1))
        rw [I.count, ofNat_sub_succ (by omega)]
    · cases h
  | ownLink value =>
    simp only [Counted.step] at h
    split at h
    · rename_i allowed hready
      cases h
      refine ⟨[], ?_⟩
      rw [List.append_nil]
      exact I.link (by rw [hready]; rfl) (by rw [hready]; rfl)
        (by simp [State.half, hready, Consumer.half, State.link])
    · cases h
  | ownIncrement =>
    simp only [Counted.step] at h
    split at h
    · rename_i allowed hlinked
      cases h
      refine ⟨[], ?_⟩
      rw [List.append_nil]
      exact I.increment (by rw [hlinked]; rfl) (by rw [hlinked]; rfl)
        (by simp [State.half, hlinked, Consumer.half, State.increment])
    · cases h

/-- **In every interleaving of half-finished `Enqueue` calls with a consumer that asks `GetSize`
first, every `Dequeue` returns the next linked value and never `-1`, and `count`, which is what was
added less what was taken away, is never lowered below zero.** -/
theorem run_dequeue_returns {n : Nat} {as : List (Action T)}
    (hr : Run (fun s a t => step s a = some t) anyStep (Counted.init n) as t) :
    t.returns = (t.linked.take t.returns.length).map some ∧ t.decrements ≤ t.increments ∧
      t.count = UInt32.ofNat (t.increments - t.decrements) := by
  obtain ⟨delivered, I⟩ : ∃ delivered, Inv t delivered :=
    hr.invariant (I := fun t => ∃ delivered, Inv t delivered) ⟨[], Inv.init n⟩ fun _ _ _ I _ h => by
      obtain ⟨delivered, I⟩ := I
      obtain ⟨more, I⟩ := I.step h
      exact ⟨delivered ++ more, I⟩
  refine ⟨?_, ?_, I.count⟩
  · rw [I.linked, I.returns, List.length_map, List.take_left']
    rfl
  · have := I.counted
    omega

/-- A producer links, the consumer links, asks, and is answered with its own increment only; it
takes the producer's value all the same. -/
theorem run_dequeue_returns_half :
    ∃ t : State Nat, Run (fun s a t => step s a = some t) anyStep (Counted.init 1)
      [.link 0 7, .ownLink 8, .ownIncrement, .getSize, .unlink, .increment 0, .decrement] t ∧
      t.returns = [some 7] ∧ t.returns = (t.linked.take t.returns.length).map some := by
  obtain ⟨t, hr, returned⟩ : ∃ t : State Nat, Run (fun s a t => step s a = some t) anyStep
      (Counted.init 1)
      [.link 0 7, .ownLink 8, .ownIncrement, .getSize, .unlink, .increment 0, .decrement] t ∧
      t.returns = [some 7] :=
    ⟨_, .cons rfl trivial <| .cons rfl trivial <| .cons rfl trivial <| .cons rfl trivial <|
      .cons rfl trivial <| .cons rfl trivial <| .cons rfl trivial .nil, rfl⟩
  exact ⟨t, hr, returned, (run_dequeue_returns hr).1⟩

end Counted

end MPSCQueue

end IocpServer
