import IocpServer.LockFreeQueue

/-!
# Where the nodes of a `sendQueue` are

The nodes a session's `sendQueue` takes from the pool, from its constructor to its destructor.  A
node is in the pool, in the list, or in the hands of the one call that has allocated or removed it;
what the destructor finds in the list goes back to the pool.

* `InHands` — who is said to have a node is inside a call that will pass it on.
* `destroy` — the destructor.
* `destroy_chain` — it gives back the nodes of the list, one after the other.
* `InHands.step` — what each step keeps.
* `run_returned` — **when the destructor has run, every node is in the pool again: the nodes it has
  given back and those that were removed before are as many as the queue has taken.**
-/

set_option autoImplicit false

namespace IocpServer

open Lib Tagged

namespace LockFreeQueue

variable {T : Type}

/-- Whoever has a node is at the step that passes it on. -/
structure InHands (s : State T) : Prop where
  producer : ∀ a, (s.nodes.owner a).By none → a ∈ s.producer.newNode
  consumers : ∀ i a, (s.nodes.owner a).By (some i) → s.consumers[i]? = some (.taken a)

/-- The loop of the destructor, from `node` on: each node is freed when its `next` has been read.
`freed` is history. -/
def destroy : Nat → Nodes (Option Nat) T → Nat → List Nat → Option (Nodes (Option Nat) T × List Nat)
  | 0, _, _, _ => none
  | fuel + 1, n, node, freed =>
    if node = 0 then some (n, freed)
    else
      let next := (n.mem node).next.address
      destroy fuel (n.pass node .pool) next (freed ++ [node])

/-- Nobody is inside a call. -/
structure Unused (s : State T) : Prop where
  producer : s.producer = .idle
  consumers : ∀ pc ∈ s.consumers, pc = .idle

variable {s t : State T} {n n' : Nodes (Option Nat) T} {chain l : List Nat} {i a : Nat}
  {pc r : DequeuePc T} {action : Action T} {ptr : NodePtr} {o : Owner (Option Nat)}

/-! ## The steps -/

theorem InHands.init (k : Nat) (mem : Nat → Node T) (dummyNode : Nat) (zero : T) :
    InHands (init k mem dummyNode zero) := by
  have nobody : ∀ j a, ¬ ((LockFreeQueue.init k mem dummyNode zero).nodes.owner a).By j := by
    intro j a h
    by_cases ha : a = dummyNode
    · simp [LockFreeQueue.init, ha, Owner.By] at h
    · simp [LockFreeQueue.init, ha, Owner.By] at h
  exact ⟨fun a h => absurd h (nobody none a), fun i a h => absurd h (nobody (some i) a)⟩

/-- Whoever has a node after it has changed hands. -/
theorem by_pass {j : Option Nat} {b : Nat} (h : ((n.pass a o).owner b).By j) :
    (b = a ∧ o.By j) ∨ (b ≠ a ∧ (n.owner b).By j) := by
  by_cases hb : b = a
  · subst hb
    simp only [Nodes.pass, Function.update_self] at h
    exact .inl ⟨rfl, h⟩
  · simp only [Nodes.pass, Function.update_of_ne hb] at h
    exact .inr ⟨hb, h⟩

/-- A thread that does not get the node has what it had. -/
theorem by_elsewhere {j : Option Nat} {b : Nat} (ho : ¬ o.By j)
    (h : ((n.pass a o).owner b).By j) : b ≠ a ∧ (n.owner b).By j :=
  (by_pass h).resolve_left fun got => ho got.2

/-- A step of the producer: what is the producer's is the node it had or has. -/
theorem InHands.produced (H : InHands s) (hconsumers : t.consumers = s.consumers)
    (others : ∀ i a, (t.nodes.owner a).By (some i) → (s.nodes.owner a).By (some i))
    (own : ∀ a, (t.nodes.owner a).By none → a ∈ t.producer.newNode) : InHands t :=
  ⟨own, fun i a h => hconsumers ▸ H.consumers i a (others i a h)⟩

/-- A consumer that has no node moves. -/
theorem InHands.goto (H : InHands s) (hi : s.consumers[i]? = some pc) (hpc : ∀ a, pc ≠ .taken a)
    (hnodes : t.nodes = s.nodes) (hproducer : t.producer = s.producer)
    (hconsumers : t.consumers = s.consumers.set i r) : InHands t := by
  refine ⟨fun a h => ?_, fun j a h => ?_⟩
  · rw [hproducer]
    exact H.producer a (hnodes ▸ h)
  · have before := H.consumers j a (hnodes ▸ h)
    have hij : i ≠ j := by
      rintro rfl
      rw [hi] at before
      exact hpc a (Option.some.inj before)
    rw [hconsumers, List.getElem?_set_ne hij]
    exact before

theorem InHands.produce (H : InHands s) (h : produce s s.producer = some t) : InHands t := by
  have own := H.producer
  cases he : s.producer with
  | idle =>
    rw [he] at h
    cases h
  | allocated newNode =>
    rw [he] at h own
    cases h
    exact H.produced rfl (fun _ _ h => h) own
  | nextCleared newNode =>
    rw [he] at h own
    cases h
    refine H.produced rfl (fun j a h => (by_elsewhere (fun got => by cases got) h).2) fun a h => ?_
    rcases by_pass h with ⟨rfl, -⟩ | ⟨-, h⟩
    · exact List.mem_singleton_self _
    · exact own a h
  | drawn newNodePtr | tailRead newNodePtr oldTailNode =>
    rw [he] at h own
    cases h
    exact H.produced rfl (fun _ _ h => h) own
  | nextRead newNodePtr oldTailNode tailNextNode =>
    rw [he] at h own
    simp only [LockFreeQueue.produce] at h
    repeat' split at h
    -- the node is linked
    · cases h
      refine H.produced rfl (fun j a h => (by_elsewhere id h).2) fun a h => ?_
      obtain ⟨hne, h⟩ := by_elsewhere id h
      exact absurd (List.mem_singleton.mp (own a h)) hne
    all_goals
      cases h
      exact H.produced rfl (fun _ _ h => h) own
  | linked newNodePtr oldTailNode =>
    rw [he] at h own
    simp only [LockFreeQueue.produce] at h
    split at h
    all_goals
      cases h
      exact H.produced rfl (fun _ _ h => h) own
  | counting =>
    rw [he] at h own
    cases h
    exact H.produced rfl (fun _ _ h => h) own

theorem InHands.consume (H : InHands s) (hi : s.consumers[i]? = some pc)
    (h : consume s i pc = some t) : InHands t := by
  cases pc with
  | idle => cases h
  | counting | countRead oldCount | headRead ptr serial =>
    simp only [LockFreeQueue.consume] at h
    split at h
    all_goals
      cases h
      exact H.goto hi (fun _ h => by cases h) rfl rfl rfl
  | taking | nextRead ptr next serial =>
    cases h
    exact H.goto hi (fun _ h => by cases h) rfl rfl rfl
  | dataRead ptr next value serial =>
    simp only [LockFreeQueue.consume] at h
    split at h
    · -- the node at `head` is removed
      cases h
      have moved : InHands (s.goto i (.taken ptr.address)) :=
        H.goto hi (fun _ h => by cases h) rfl rfl rfl
      refine ⟨fun a h => moved.producer a (by_elsewhere (fun got => by cases got) h).2,
        fun j a h => ?_⟩
      rcases by_pass h with ⟨rfl, hj⟩ | ⟨-, h⟩
      · obtain rfl : i = j := Option.some.inj hj
        exact getElem?_set_of_some hi
      · exact moved.consumers j a h
    · cases h
      exact H.goto hi (fun _ h => by cases h) rfl rfl rfl
  | taken delNode =>
    cases h
    refine ⟨fun a h => H.producer a (by_elsewhere id h).2, fun j a h => ?_⟩
    obtain ⟨hne, h⟩ := by_elsewhere id h
    have before := H.consumers j a h
    have hij : i ≠ j := by
      rintro rfl
      rw [hi] at before
      cases before
      exact hne rfl
    exact (List.getElem?_set_ne hij).trans before

/-- **Every step passes a node on to whoever is said to have it.** -/
theorem InHands.step (H : InHands s) (h : step s action = some t) : InHands t := by
  cases action with
  | enqueue value newNode =>
    simp only [LockFreeQueue.step] at h
    split at h
    · rename_i idle pool
      split at h
      · cases h
      · cases h
        have own := H.producer
        rw [idle] at own
        refine H.produced rfl (fun j a h => ?_) fun a h => ?_
        · by_cases ha : a = newNode
          · simp [Nodes.alloc, ha, Owner.By] at h
          · simpa [Nodes.alloc, ha] using h
        · by_cases ha : a = newNode
          · exact ha ▸ List.mem_singleton_self _
          · exact absurd (own a (by simpa [Nodes.alloc, ha] using h)) (List.not_mem_nil)
    · cases h
  | dequeue i =>
    simp only [LockFreeQueue.step] at h
    split at h
    · rename_i hi
      cases h
      exact H.goto hi (fun _ h => by cases h) rfl rfl rfl
    · cases h
  | produce => exact H.produce h
  | consume i =>
    simp only [LockFreeQueue.step] at h
    split at h
    · rename_i pc hi
      exact H.consume hi h
    · cases h
  | reuse a node =>
    simp only [LockFreeQueue.step] at h
    split at h
    · cases h
      exact ⟨H.producer, H.consumers⟩
    · cases h

/-! ## The destructor -/

/-- **The destructor gives back the nodes of the list**, from the first to the last. -/
theorem destroy_chain (linked : Linked tags n ptr l) (nodup : l.Nodup) (extra : Nat)
    (freed : List Nat) :
    ∃ n', destroy (l.length + 1 + extra) n ptr.address freed = some (n', freed ++ l) ∧
      ∀ a, n'.owner a = if a ∈ l then .pool else n.owner a := by
  induction l generalizing n ptr freed with
  | nil =>
    refine ⟨n, ?_, fun a => rfl⟩
    rw [linked, List.length_nil, Nat.zero_add, Nat.add_comm, List.append_nil]
    rfl
  | cons a l ih =>
    obtain ⟨h0, hptr, rest⟩ := linked
    obtain ⟨fresh, nodup⟩ := List.nodup_cons.mp nodup
    have linked : Linked tags (n.pass a .pool) (n.mem a).next l :=
      rest.frame fun _ _ => ⟨rfl, rfl⟩
    obtain ⟨n', run, owner⟩ := ih linked nodup (freed ++ [a])
    refine ⟨n', ?_, fun b => ?_⟩
    · rw [hptr, List.length_cons, show l.length + 1 + 1 + extra = l.length + 1 + extra + 1 by omega]
      simp only [destroy, if_neg h0, run, List.append_assoc, List.singleton_append]
    · rw [owner]
      by_cases hb : b = a
      · simp [hb, fresh, Nodes.pass]
      · simp [hb, Nodes.pass]

/-- Nobody has a node of a queue that is not used. -/
theorem InHands.unused (H : InHands s) (hs : Unused s) (a : Nat) :
    s.nodes.owner a = .pool ∨ s.nodes.owner a = .linked := by
  have nobody : ∀ j, ¬ (s.nodes.owner a).By j := by
    intro j h
    cases j with
    | none =>
      have own := H.producer a h
      rw [hs.producer] at own
      cases own
    | some i =>
      have own := H.consumers i a h
      cases hs.consumers _ (List.mem_of_getElem? own)
  cases ho : s.nodes.owner a with
  | pool => exact .inl rfl
  | linked => exact .inr rfl
  | allocated i | drawn i | removed i => exact absurd (by rw [ho]; rfl) (nobody i)

/-- **No node is lost, and none is given back twice.**  In every run in which no tag comes round
under a `Dequeue`, once nobody is inside a call, the destructor ends; it gives back nodes that are
in the list, each once; with those that were removed before they are as many as the constructor and
the calls of `Enqueue` have taken; and every node is in the pool. -/
theorem run_returned {k : Nat} {mem : Nat → Node T} {dummyNode : Nat} {zero : T}
    {as : List (Action T)} (h0 : dummyNode ≠ 0)
    (hr : Run (fun s a t => step s a = some t) TagFresh (LockFreeQueue.init k mem dummyNode zero)
      as t) (unused : Unused t) :
    ∃ nodes freed,
      destroy (t.enqueued.length + 2) t.nodes t.head.address [] = some (nodes, freed) ∧
        freed.Nodup ∧ (∀ a ∈ freed, t.nodes.owner a = .linked) ∧
        freed.length + t.dequeued.length = 1 + t.enqueued.length ∧
        ∀ a, nodes.owner a = .pool := by
  obtain ⟨⟨chain, I⟩, H⟩ : (∃ chain, Inv t chain) ∧ InHands t :=
    hr.invariant (I := fun t => (∃ chain, Inv t chain) ∧ InHands t)
      ⟨⟨_, Inv.init k mem h0 zero⟩, .init k mem dummyNode zero⟩
      fun x a y hx fresh h => by
        obtain ⟨⟨chain, I⟩, H⟩ := hx
        exact ⟨I.step fresh h, H.step h⟩
  have back := I.back.length_le
  have length := congrArg List.length I.fifo
  rw [unused.producer] at back length
  simp only [EnqueuePc.back, EnqueuePc.newNode, values, List.append_nil, List.length_append,
    List.length_map, List.length_tail, List.length_singleton] at back length
  obtain ⟨nodes, run, owner⟩ := destroy_chain I.list.linked I.list.tracks.nodup t.dequeued.length []
  rw [show chain.length + 1 + t.dequeued.length = t.enqueued.length + 2 by omega] at run
  refine ⟨nodes, chain, run, I.list.tracks.nodup, fun a ha => (I.list.tracks.mem a).mp ha, by omega,
    fun a => ?_⟩
  rw [owner]
  split
  · rfl
  · rename_i out
    exact (H.unused unused a).resolve_right fun linked => out ((I.list.tracks.mem a).mpr linked)

/-- A value nobody has taken: the dummy node and the node of the value are given back. -/
theorem run_returned_untaken :
    ∃ (t : State Nat) (nodes : Nodes (Option Nat) Nat) (freed : List Nat),
    Run (fun s a t => step s a = some t) TagFresh (init 1 (fun _ => ⟨⟨0, 0⟩, 0⟩) 1 0)
      [.enqueue 7 2, .produce, .produce, .produce, .produce, .produce, .produce, .produce] t ∧
      destroy 3 t.nodes t.head.address [] = some (nodes, freed) ∧ freed.length = 2 ∧
      ∀ a, nodes.owner a = .pool := by
  obtain ⟨t, hr, unused, henqueued, hdequeued⟩ : ∃ t : State Nat,
      Run (fun s a t => step s a = some t) TagFresh (init 1 (fun _ => ⟨⟨0, 0⟩, 0⟩) 1 0)
        [.enqueue 7 2, .produce, .produce, .produce, .produce, .produce, .produce, .produce] t ∧
        Unused t ∧ t.enqueued = [7] ∧ t.dequeued = [] := by
    refine ⟨_, .cons rfl (.of_drawn (by decide)) <| .cons rfl (.of_drawn (by decide)) <|
      .cons rfl (.of_drawn (by decide)) <| .cons rfl (.of_drawn (by decide)) <|
      .cons rfl (.of_drawn (by decide)) <| .cons rfl (.of_drawn (by decide)) <|
      .cons rfl (.of_drawn (by decide)) <| .cons rfl (.of_drawn (by decide)) .nil,
      ⟨rfl, fun pc hpc => ?_⟩, rfl, rfl⟩
    exact List.mem_singleton.mp hpc
  obtain ⟨nodes, freed, run, -, -, length, pool⟩ := run_returned (by decide) hr unused
  rw [henqueued, hdequeued] at length
  rw [henqueued] at run
  exact ⟨t, nodes, freed, hr, run, length, pool⟩

end LockFreeQueue

end IocpServer
