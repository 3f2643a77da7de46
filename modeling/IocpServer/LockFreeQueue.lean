import IocpServer.Lib.Counter
import IocpServer.Lib.TaggedNodes
import IocpServer.Lib.Threads
import IocpServer.Lib.Run

/-!
# `LockFreeQueue`

Model of `LockFreeQueue.h` as a session's `sendQueue` uses it, at the granularity of its atomic
steps: one producer inside `Enqueue` and any number of consumers inside `Dequeue`.  Nodes come from
a pool that never gives memory back; one that is in the pool may be written by whoever else uses it.

`Dequeue` does not look at `tail`.  What keeps `head` from passing it is `count`, which `Enqueue`
raises last: a `Dequeue` that has lowered it has a node of its own behind `head`.

* `TagFresh` — the condition, on a `Dequeue` about to succeed.
* `Inv` — the nodes from `head` on hold the values linked and not taken, the last of them is at
  `tail` or about to be, and `count` lags behind their number.
* `run_fifo` — **under the condition every run takes the values in the order they were enqueued.**
-/

set_option autoImplicit false

namespace IocpServer

open Lib Tagged

namespace LockFreeQueue

/-- A 17-bit index and a 47-bit address. -/
abbrev NodePtr := Ptr

/-- The number of tags. -/
def tags : Nat := 0x1FFFF + 1

/-- Where the producer stands. -/
inductive EnqueuePc where
  | idle
  /-- Behind `Alloc` and the write of `data`. -/
  | allocated (newNode : Nat)
  | nextCleared (newNode : Nat)
  /-- At the head of the loop. -/
  | drawn (newNodePtr : NodePtr)
  | tailRead (newNodePtr oldTailNode : NodePtr)
  | nextRead (newNodePtr oldTailNode tailNextNode : NodePtr)
  /-- Behind the compare-exchange on `oldNode->next`. -/
  | linked (newNodePtr oldTailNode : NodePtr)
  /-- Behind the loop. -/
  | counting

/-- Where a consumer stands. -/
inductive DequeuePc (T : Type) where
  | idle
  /-- At the head of the first loop. -/
  | counting
  | countRead (oldCount : UInt32)
  /-- At the head of the second loop. -/
  | taking
  /-- `serial` (history) is that of the node at `toBeDeletedNode`. -/
  | headRead (toBeDeletedNode : NodePtr) (serial : Nat)
  | nextRead (toBeDeletedNode headDummyNode : NodePtr) (serial : Nat)
  | dataRead (toBeDeletedNode headDummyNode : NodePtr) (t : T) (serial : Nat)
  /-- Behind the compare-exchange on `head`. -/
  | taken (delNode : Nat)

structure State (T : Type) where
  /-- A node is in the hands of the producer (`none`) or of a consumer. -/
  nodes : Nodes (Option Nat) T
  head : NodePtr
  tail : NodePtr
  count : UInt32
  index : UInt64
  producer : EnqueuePc
  consumers : List (DequeuePc T)
  /-- History: the serials drawn when the consumer's call began. -/
  started : Nat → Nat
  increments : Nat
  decrements : Nat
  /-- The values of the calls of `Enqueue`. -/
  enqueued : List T
  /-- What the successful compare-exchanges on `head` took. -/
  dequeued : List T

inductive Action (T : Type) where
  /-- The producer calls `Enqueue(value)`, and `Alloc` returns `newNode`. -/
  | enqueue (value : T) (newNode : Nat)
  /-- Consumer `i` calls `Dequeue`. -/
  | dequeue (i : Nat)
  /-- The next atomic step of the producer. -/
  | produce
  /-- The next atomic step of consumer `i`. -/
  | consume (i : Nat)
  /-- Another user of the pool writes a node of the pool. -/
  | reuse (a : Nat) (node : Node T)

variable {T : Type}

/-- A new queue and `n` consumers; `mem` is what is in the nodes of the pool, `zero` the `0` that
the constructor writes into the dummy node. -/
def init (n : Nat) (mem : Nat → Node T) (dummyNode : Nat) (zero : T) : State T where
  nodes :=
    { mem := Function.update mem dummyNode ⟨⟨0, 0⟩, zero⟩
      owner := Function.update (fun _ => .pool) dummyNode .linked
      born := fun _ => 0
      drawn := 0 }
  head := ⟨0, dummyNode⟩
  tail := ⟨0, dummyNode⟩
  count := 0
  index := 0
  producer := .idle
  consumers := List.replicate n .idle
  started := fun _ => 0
  increments := 0
  decrements := 0
  enqueued := []
  dequeued := []

def State.goto (s : State T) (i : Nat) (pc : DequeuePc T) : State T :=
  { s with consumers := s.consumers.set i pc }

/-- The next atomic step of the producer. -/
def produce (s : State T) : EnqueuePc → Option (State T)
  | .idle => none
  | .allocated newNode =>
    some { s with
      nodes := s.nodes.write newNode { s.nodes.mem newNode with next := ⟨0, 0⟩ }
      producer := .nextCleared newNode }
  | .nextCleared newNode =>
    let idx := (s.index + 1) &&& 0x1FFFF
    some { s with
      index := s.index + 1
      nodes := s.nodes.draw none newNode
      producer := .drawn ⟨idx.toNat, newNode⟩ }
  | .drawn newNodePtr => some { s with producer := .tailRead newNodePtr s.tail }
  | .tailRead newNodePtr oldTailNode =>
    some { s with
      producer := .nextRead newNodePtr oldTailNode (s.nodes.mem oldTailNode.address).next }
  | .nextRead newNodePtr oldTailNode tailNextNode =>
    let oldNode := oldTailNode.address
    if tailNextNode.address = 0 then
      if (s.nodes.mem oldNode).next = tailNextNode then
        some { s with
          nodes := (s.nodes.write oldNode { s.nodes.mem oldNode with next := newNodePtr }).pass
            newNodePtr.address .linked
          producer := .linked newNodePtr oldTailNode }
      else some { s with producer := .drawn newNodePtr }
    else if s.tail = oldTailNode then
      some { s with tail := tailNextNode, producer := .drawn newNodePtr }
    else some { s with producer := .drawn newNodePtr }
  | .linked newNodePtr oldTailNode =>
    if s.tail = oldTailNode then some { s with tail := newNodePtr, producer := .counting }
    else some { s with producer := .counting }
  | .counting =>
    some { s with count := s.count + 1, increments := s.increments + 1, producer := .idle }

/-- The next atomic step of consumer `i`. -/
def consume (s : State T) (i : Nat) : DequeuePc T → Option (State T)
  | .idle => none
  | .counting =>
    -- `oldCount` is an `int`
    if s.count.toInt32 ≤ 0 then some (s.goto i .idle) else some (s.goto i (.countRead s.count))
  | .countRead oldCount =>
    if s.count = oldCount then
      some ({ s with count := oldCount - 1, decrements := s.decrements + 1 }.goto i .taking)
    else some (s.goto i .counting)
  | .taking => some (s.goto i (.headRead s.head (s.nodes.born s.head.address)))
  | .headRead toBeDeletedNode serial =>
    let headDummyNode := (s.nodes.mem toBeDeletedNode.address).next
    if headDummyNode.address = 0 then some (s.goto i .taking)
    else some (s.goto i (.nextRead toBeDeletedNode headDummyNode serial))
  | .nextRead toBeDeletedNode headDummyNode serial =>
    let t := (s.nodes.mem headDummyNode.address).data
    some (s.goto i (.dataRead toBeDeletedNode headDummyNode t serial))
  | .dataRead toBeDeletedNode headDummyNode t _ =>
    if s.head = toBeDeletedNode then
      some ({ s with
        head := headDummyNode
        nodes := s.nodes.pass toBeDeletedNode.address (.removed (some i))
        dequeued := s.dequeued ++ [t] }.goto i (.taken toBeDeletedNode.address))
    else some (s.goto i .taking)
  | .taken delNode => some ({ s with nodes := s.nodes.pass delNode .pool }.goto i .idle)

def step (s : State T) : Action T → Option (State T)
  | .enqueue value newNode =>
    match s.producer, s.nodes.owner newNode with
    | .idle, .pool =>
      if newNode = 0 then none
      else
        some { s with
          nodes := s.nodes.alloc none newNode { s.nodes.mem newNode with data := value }
          producer := .allocated newNode
          enqueued := s.enqueued ++ [value] }
    | _, _ => none
  | .dequeue i =>
    match s.consumers[i]? with
    | some .idle =>
      some ({ s with started := Function.update s.started i s.nodes.drawn }.goto i .counting)
    | _ => none
  | .produce => produce s s.producer
  | .consume i =>
    match s.consumers[i]? with
    | some pc => consume s i pc
    | none => none
  | .reuse a node =>
    match s.nodes.owner a with
    | .pool => some { s with nodes := s.nodes.write a node }
    | _ => none

/-- When the compare-exchange of a `Dequeue` is about to succeed, the tag of the node it has read is
one of the last `2 ^ 17` that were drawn, or the last that was drawn for that node. -/
def TagFresh (s : State T) : Action T → Prop
  | .consume i => ∀ headDummyNode t serial,
    s.consumers[i]? = some (.dataRead s.head headDummyNode t serial) →
    Fresh tags s.nodes s.head serial
  | _ => True

/-! ## The invariant -/

/-- The producer's node, until it is linked. -/
def EnqueuePc.newNode : EnqueuePc → List Nat
  | allocated newNode | nextCleared newNode => [newNode]
  | drawn newNodePtr | tailRead newNodePtr _ | nextRead newNodePtr _ _ => [newNodePtr.address]
  | idle | linked _ _ | counting => []

/-- An `Enqueue` that has linked its node and not counted it. -/
def EnqueuePc.raising : EnqueuePc → Nat
  | linked _ _ | counting => 1
  | _ => 0

/-- The end of the list: the node at `tail`, and the one that is to be there next. -/
def EnqueuePc.back (tail : NodePtr) : EnqueuePc → List Nat
  | linked newNodePtr _ => [tail.address, newNodePtr.address]
  | _ => [tail.address]

def EnqueuePc.Ok (n : Nodes (Option Nat) T) (tail : NodePtr) : EnqueuePc → Prop
  | idle | counting => True
  | allocated newNode => newNode ≠ 0 ∧ n.owner newNode = .allocated none
  | nextCleared newNode =>
    newNode ≠ 0 ∧ n.owner newNode = .allocated none ∧ (n.mem newNode).next = ⟨0, 0⟩
  | drawn newNodePtr =>
    Held tags n none newNodePtr ∧ (n.mem newNodePtr.address).next = ⟨0, 0⟩
  | tailRead newNodePtr oldTailNode =>
    Held tags n none newNodePtr ∧ (n.mem newNodePtr.address).next = ⟨0, 0⟩ ∧ oldTailNode = tail
  | nextRead newNodePtr oldTailNode tailNextNode =>
    Held tags n none newNodePtr ∧ (n.mem newNodePtr.address).next = ⟨0, 0⟩ ∧
      oldTailNode = tail ∧ tailNextNode = ⟨0, 0⟩
  | linked _ oldTailNode => oldTailNode = tail

/-- A `Dequeue` that has lowered `count` and not moved `head`. -/
def DequeuePc.lowered : DequeuePc T → Nat
  | taking | headRead _ _ | nextRead _ _ _ | dataRead _ _ _ _ => 1
  | _ => 0

/-- What a consumer has read behind `head` is so while the node it read there is still there. -/
def DequeuePc.Ok (n : Nodes (Option Nat) T) (i : Nat) : DequeuePc T → Prop
  | idle | counting | taking => True
  | countRead oldCount => oldCount ≠ 0
  | headRead ptr serial => Seen tags n ptr serial
  | nextRead ptr next serial =>
    Seen tags n ptr serial ∧ next.address ≠ 0 ∧
      (Current n ptr serial → (n.mem ptr.address).next = next)
  | dataRead ptr next t serial =>
    Seen tags n ptr serial ∧ next.address ≠ 0 ∧
      (Current n ptr serial → (n.mem ptr.address).next = next ∧ (n.mem next.address).data = t)
  | taken delNode => n.owner delNode = .removed (some i)

def values (n : Nodes (Option Nat) T) (l : List Nat) : List T := l.map fun a => (n.mem a).data

structure Inv (s : State T) (chain : List Nat) : Prop where
  list : Chain tags s.nodes s.head chain
  counted : Counted s.nodes
  producer : s.producer.Ok s.nodes s.tail
  consumers : ∀ i pc, s.consumers[i]? = some pc → DequeuePc.Ok s.nodes i pc
  back : s.producer.back s.tail <:+ chain
  index : s.index = UInt64.ofNat s.nodes.drawn
  length : chain.length + s.decrements =
    1 + s.increments + s.producer.raising + total DequeuePc.lowered s.consumers
  lowered : s.decrements ≤ s.increments
  count : s.count = UInt32.ofNat (s.increments - s.decrements)
  fifo : s.enqueued = s.dequeued ++ values s.nodes (chain.tail ++ s.producer.newNode)

theorem Inv.init (n : Nat) (mem : Nat → Node T) {dummyNode : Nat} (h0 : dummyNode ≠ 0) (zero : T) :
    Inv (init n mem dummyNode zero) [dummyNode] := by
  have idle : total DequeuePc.lowered (List.replicate n (.idle : DequeuePc T)) = 0 :=
    total_eq_zero fun pc hpc => by rw [List.eq_of_mem_replicate hpc]; rfl
  refine ⟨⟨⟨h0, ?_, ?_⟩, ?_, ?_⟩, fun _ => Nat.le_refl 0, trivial, ?_, List.suffix_refl _, rfl, ?_,
    Nat.le_refl 0, rfl, rfl⟩
  · simp [LockFreeQueue.init]
  · simp [LockFreeQueue.init, Linked]
  · simp
  · intro a
    by_cases ha : a = dummyNode <;> simp [LockFreeQueue.init, ha]
  · intro i pc h
    rw [List.eq_of_mem_replicate (List.mem_of_getElem? h)]
    trivial
  · simp [LockFreeQueue.init, idle, EnqueuePc.raising]

variable {s t : State T} {chain l : List Nat} {n n' : Nodes (Option Nat) T} {i j a b : Nat}
  {pc pc' : DequeuePc T} {e : EnqueuePc} {tail : NodePtr}

/-! ## What a step leaves alone -/

theorem values_congr (same : ∀ a ∈ l, (n'.mem a).data = (n.mem a).data) :
    values n' l = values n l :=
  List.map_congr_left same

/-- The producer is not concerned by a change of a node that is not its own. -/
theorem EnqueuePc.Ok.foreign (h : e.Ok n tail) (L : Local n n' a) (ha : ¬ (n.owner a).By none) :
    e.Ok n' tail ∧ ∀ b ∈ e.newNode, n'.mem b = n.mem b := by
  have held : ∀ {newNodePtr : NodePtr}, Held tags n none newNodePtr →
      ∀ b ∈ [newNodePtr.address], n'.mem b = n.mem b := by
    intro newNodePtr H b hb
    rw [List.mem_singleton.mp hb]
    exact (H.frame L ha).2
  cases e with
  | idle | counting => exact ⟨trivial, by simp [EnqueuePc.newNode]⟩
  | linked newNodePtr oldTailNode => exact ⟨h, by simp [EnqueuePc.newNode]⟩
  | allocated newNode =>
    obtain ⟨mem, owner, -⟩ := L.held ha (b := newNode) (by rw [h.2]; rfl)
    exact ⟨⟨h.1, owner.trans h.2⟩, by simpa [EnqueuePc.newNode] using mem⟩
  | nextCleared newNode =>
    obtain ⟨mem, owner, -⟩ := L.held ha (b := newNode) (by rw [h.2.1]; rfl)
    exact ⟨⟨h.1, owner.trans h.2.1, by rw [mem]; exact h.2.2⟩, by simpa [EnqueuePc.newNode] using mem⟩
  | drawn newNodePtr =>
    obtain ⟨H, mem⟩ := h.1.frame L ha
    exact ⟨⟨H, by rw [mem]; exact h.2⟩, held h.1⟩
  | tailRead newNodePtr oldTailNode =>
    obtain ⟨H, mem⟩ := h.1.frame L ha
    exact ⟨⟨H, by rw [mem]; exact h.2.1, h.2.2⟩, held h.1⟩
  | nextRead newNodePtr oldTailNode tailNextNode =>
    obtain ⟨H, mem⟩ := h.1.frame L ha
    exact ⟨⟨H, by rw [mem]; exact h.2.1, h.2.2⟩, held h.1⟩

/-- A consumer is not concerned by a change of a node that is not in its hands. -/
theorem DequeuePc.Ok.foreign (h : pc.Ok n i) (list : Chain tags n tail chain) (counted : Counted n)
    (L : Local n n' a) (ha : ¬ (n.owner a).By (some i)) : pc.Ok n' i := by
  cases pc with
  | idle | counting | taking => trivial
  | countRead oldCount => exact h
  | headRead ptr serial => exact Seen.harmless h counted L.harmless
  | nextRead ptr next serial =>
    obtain ⟨seen, h0, known⟩ := h
    refine ⟨seen.harmless counted L.harmless, h0, fun hc => ?_⟩
    have before := Current.harmless seen L.harmless hc
    rw [L.linked_mem before.1]
    exact known before
  | dataRead ptr next t serial =>
    obtain ⟨seen, h0, known⟩ := h
    refine ⟨seen.harmless counted L.harmless, h0, fun hc => ?_⟩
    have before := Current.harmless seen L.harmless hc
    obtain ⟨hnext, data⟩ := known before
    have behind : n.owner next.address = .linked := by
      have := list.linked.next_mem ((list.tracks.mem _).mpr before.1) (by rw [hnext]; exact h0)
      rw [hnext] at this
      exact (list.tracks.mem _).mp this
    rw [L.linked_mem before.1, L.linked_mem behind]
    exact ⟨hnext, data⟩
  | taken delNode =>
    obtain ⟨-, owner, -⟩ := L.held ha (b := delNode) (by rw [show n.owner delNode = _ from h]; rfl)
    exact owner.trans h

/-- Nor by a node that is linked behind the last: what it has read behind `head` is not null. -/
theorem DequeuePc.Ok.append (h : pc.Ok n i) (counted : Counted n)
    (drawn : n.owner b = .drawn none) (last : (n.mem a).next = ⟨0, 0⟩) (newNodePtr : NodePtr) :
    pc.Ok ((n.write a { n.mem a with next := newNodePtr }).pass b .linked) i := by
  have H : Harmless n ((n.write a { n.mem a with next := newNodePtr }).pass b .linked) :=
    Harmless.append ⟨none, drawn⟩ _
  have same : ∀ c, (n.mem c).next ≠ ⟨0, 0⟩ →
      ((n.write a { n.mem a with next := newNodePtr }).pass b .linked).mem c = n.mem c := by
    intro c hc
    have hne : c ≠ a := fun he => hc (he ▸ last)
    simp [Nodes.write, Nodes.pass, hne]
  have data : ∀ c, (((n.write a { n.mem a with next := newNodePtr }).pass b .linked).mem c).data =
      (n.mem c).data := by
    intro c
    by_cases hc : c = a <;> simp [Nodes.write, Nodes.pass, hc]
  have ne_null : ∀ {c : Nat} {next : NodePtr}, next.address ≠ 0 → (n.mem c).next = next →
      (n.mem c).next ≠ ⟨0, 0⟩ := by
    intro c next h0 hnext hnull
    rw [hnext] at hnull
    exact h0 (congrArg Ptr.address hnull)
  cases pc with
  | idle | counting | taking => trivial
  | countRead oldCount => exact h
  | headRead ptr serial => exact Seen.harmless h counted H
  | nextRead ptr next serial =>
    obtain ⟨seen, h0, known⟩ := h
    refine ⟨seen.harmless counted H, h0, fun hc => ?_⟩
    have hnext := known (Current.harmless seen H hc)
    rw [same _ (ne_null h0 hnext)]
    exact hnext
  | dataRead ptr next t serial =>
    obtain ⟨seen, h0, known⟩ := h
    refine ⟨seen.harmless counted H, h0, fun hc => ?_⟩
    obtain ⟨hnext, hdata⟩ := known (Current.harmless seen H hc)
    rw [same _ (ne_null h0 hnext), data]
    exact ⟨hnext, hdata⟩
  | taken delNode =>
    have owner : n.owner delNode = .removed (some i) := h
    have hne : delNode ≠ b := by
      rintro rfl
      rw [drawn] at owner
      cases owner
    show Function.update n.owner b .linked delNode = _
    rw [Function.update_of_ne hne]
    exact owner

/-- The consumers, when one of them has moved and a node not in the hands of another has changed. -/
theorem Inv.move (I : Inv s chain) (L : Local s.nodes n' a)
    (ha : ∀ j, j ≠ i → ¬ (s.nodes.owner a).By (some j)) (own : pc'.Ok n' i) :
    ∀ j q, (s.consumers.set i pc')[j]? = some q → DequeuePc.Ok n' j q := by
  intro j q hq
  rcases getElem?_set_cases hq with ⟨rfl, rfl⟩ | ⟨hij, hq⟩
  · exact own
  · exact (I.consumers j q hq).foreign I.list I.counted L (ha j (Ne.symm hij))

/-- A step that changes nothing but where the consumer stands. -/
theorem Inv.goto (I : Inv s chain) (hi : s.consumers[i]? = some pc) (own : pc'.Ok s.nodes i)
    (lowered : pc'.lowered = pc.lowered) : Inv (s.goto i pc') chain := by
  refine ⟨I.list, I.counted, I.producer, ?_, I.back, I.index, ?_, I.lowered, I.count, I.fifo⟩
  · intro j q hq
    rcases getElem?_set_cases hq with ⟨rfl, rfl⟩ | ⟨-, hq⟩
    · exact own
    · exact I.consumers j q hq
  · show chain.length + s.decrements = 1 + s.increments + s.producer.raising
      + total DequeuePc.lowered (s.consumers.set i pc')
    rw [total_set_of_eq hi lowered]
    exact I.length

/-- A step of the producer that changes nothing but where it stands. -/
theorem Inv.advance (I : Inv s chain) (e : EnqueuePc) (own : e.Ok s.nodes s.tail)
    (back : e.back s.tail = s.producer.back s.tail) (raising : e.raising = s.producer.raising)
    (newNode : e.newNode = s.producer.newNode) : Inv { s with producer := e } chain := by
  refine ⟨I.list, I.counted, own, I.consumers, ?_, I.index, ?_, I.lowered, I.count, ?_⟩
  · show e.back s.tail <:+ chain
    rw [back]
    exact I.back
  · show chain.length + s.decrements = 1 + s.increments + e.raising + _
    rw [raising]
    exact I.length
  · show s.enqueued = s.dequeued ++ values s.nodes (chain.tail ++ e.newNode)
    rw [newNode]
    exact I.fifo

/-- A step of the producer on its own node. -/
theorem Inv.prepare (I : Inv s chain) (e : EnqueuePc) (L : Local s.nodes n' a) (counted : Counted n')
    (ha : s.nodes.owner a ≠ .linked) (ha' : n'.owner a ≠ .linked)
    (others : ∀ j, ¬ (s.nodes.owner a).By (some j)) (own : e.Ok n' s.tail)
    (back : e.back s.tail = s.producer.back s.tail) (raising : e.raising = s.producer.raising)
    {index : UInt64} (drawn : index = UInt64.ofNat n'.drawn) {enqueued : List T}
    (fifo : enqueued = s.dequeued ++ (values s.nodes chain.tail ++ values n' e.newNode)) :
    Inv { s with nodes := n', producer := e, index := index, enqueued := enqueued } chain := by
  have linked : ∀ c ∈ chain, n'.mem c = s.nodes.mem c := fun c hc =>
    L.linked_mem ((I.list.tracks.mem c).mp hc)
  refine ⟨I.list.frame L ha ha', counted, own, fun j q hq => ?_, ?_, drawn, ?_, I.lowered, I.count, ?_⟩
  · exact (I.consumers j q hq).foreign I.list I.counted L (others j)
  · show e.back s.tail <:+ chain
    rw [back]
    exact I.back
  · show chain.length + s.decrements = 1 + s.increments + e.raising + _
    rw [raising]
    exact I.length
  · show enqueued = s.dequeued ++ values n' (chain.tail ++ e.newNode)
    have same : values n' chain.tail = values s.nodes chain.tail :=
      values_congr fun c hc => by rw [linked c (List.mem_of_mem_tail hc)]
    rw [fifo, ← same, values, values, values, ← List.map_append]

/-! ## The producer -/

/-- The drawn serial is the tag, modulo `tags`. -/
theorem tag_eq (drawn : Nat) :
    ((UInt64.ofNat drawn + 1) &&& 0x1FFFF).toNat = (drawn + 1) % tags := by
  have mask : (0x1FFFF : UInt64).toNat = 2 ^ 17 - 1 := rfl
  rw [UInt64.toNat_and, mask, Nat.and_two_pow_sub_one_eq_mod, UInt64.toNat_add,
    UInt64.toNat_ofNat', tags]
  simp

/-- While no node is between it and being at `tail`, the last node is at `tail`, and has none behind
it. -/
theorem Inv.last (I : Inv s chain) (h : s.producer.back s.tail = [s.tail.address]) :
    ∃ l, chain = l ++ [s.tail.address] ∧ (s.nodes.mem s.tail.address).next = ⟨0, 0⟩ := by
  obtain ⟨l, hl⟩ := I.back
  rw [h] at hl
  refine ⟨l, hl.symm, ?_⟩
  have linked := I.list.linked
  rw [← hl] at linked
  exact linked.next_last

theorem Inv.alloc (I : Inv s chain) (he : s.producer = .idle) {newNode : Nat} (h0 : newNode ≠ 0)
    (pool : s.nodes.owner newNode = .pool) (value : T) : Inv { s with
      nodes := s.nodes.alloc none newNode { s.nodes.mem newNode with data := value }
      producer := .allocated newNode
      enqueued := s.enqueued ++ [value] } chain := by
  have L := Local.alloc (a := newNode) (by rw [pool]; nofun) none
    { s.nodes.mem newNode with data := value }
  refine I.prepare (.allocated newNode) L I.counted (by rw [pool]; nofun) (by simp [Nodes.alloc])
    (by simp [pool, Owner.By]) ⟨h0, by simp [Nodes.alloc]⟩ (by rw [he]; rfl) (by rw [he]; rfl)
    I.index ?_
  rw [I.fifo, he]
  simp [EnqueuePc.newNode, values, Nodes.alloc]

theorem Inv.clear (I : Inv s chain) {newNode : Nat} (he : s.producer = .allocated newNode) :
    Inv { s with
      nodes := s.nodes.write newNode { s.nodes.mem newNode with next := ⟨0, 0⟩ }
      producer := .nextCleared newNode } chain := by
  have own := I.producer
  rw [he] at own
  obtain ⟨h0, owner⟩ := own
  have outside : s.nodes.owner newNode ≠ .linked := by rw [owner]; nofun
  refine I.prepare (.nextCleared newNode)
    (Local.write outside { s.nodes.mem newNode with next := ⟨0, 0⟩ }) I.counted outside outside
    (by simp [owner, Owner.By]) ⟨h0, owner, by simp [Nodes.write]⟩ (by rw [he]; rfl)
    (by rw [he]; rfl) I.index ?_
  rw [I.fifo, he]
  simp [EnqueuePc.newNode, values, Nodes.write]

theorem Inv.draw (I : Inv s chain) {newNode : Nat} (he : s.producer = .nextCleared newNode) :
    Inv { s with
      index := s.index + 1
      nodes := s.nodes.draw none newNode
      producer := .drawn ⟨((s.index + 1) &&& 0x1FFFF).toNat, newNode⟩ } chain := by
  have own := I.producer
  rw [he] at own
  obtain ⟨h0, owner, null⟩ := own
  have tag : ((s.index + 1) &&& 0x1FFFF).toNat = (s.nodes.drawn + 1) % tags := by
    rw [I.index, tag_eq]
  refine I.prepare (.drawn ⟨_, newNode⟩) (Local.draw I.counted none newNode) (I.counted.draw none newNode)
    (by rw [owner]; nofun) (by simp [Nodes.draw]) (by simp [owner, Owner.By])
    ⟨⟨h0, by simp [Nodes.draw], ?_⟩, null⟩ (by rw [he]; rfl) (by rw [he]; rfl) ?_ ?_
  · rw [tag]
    simp [Nodes.draw]
  · rw [I.index]
    exact (UInt64.ofNat_add _ _).symm
  · rw [I.fifo, he]
    simp [EnqueuePc.newNode, values, Nodes.draw]

/-- **The compare-exchange on `oldNode->next`.** -/
theorem Inv.link (I : Inv s chain) {newNodePtr oldTailNode tailNextNode : NodePtr}
    (he : s.producer = .nextRead newNodePtr oldTailNode tailNextNode) : ∃ chain', Inv { s with
      nodes := (s.nodes.write oldTailNode.address
        { s.nodes.mem oldTailNode.address with next := newNodePtr }).pass newNodePtr.address .linked
      producer := .linked newNodePtr oldTailNode } chain' := by
  have own := I.producer
  rw [he] at own
  obtain ⟨H, null, rfl, -⟩ := own
  obtain ⟨l, rfl, last⟩ := I.last (by rw [he]; rfl)
  have index : newNodePtr = ⟨s.nodes.born newNodePtr.address % tags, newNodePtr.address⟩ := by
    rw [← H.index]
  have outside : s.nodes.owner newNodePtr.address ≠ .linked := by rw [H.owner]; nofun
  have linked := I.list.append H.address outside null (s.nodes.mem s.tail.address).data
  rw [← index] at linked
  have length := I.length
  have fifo := I.fifo
  rw [he] at length fifo
  refine ⟨_, linked, I.counted, rfl, fun j q hq => ?_, ?_, I.index, ?_, I.lowered, I.count, ?_⟩
  · exact (I.consumers j q hq).append I.counted H.owner last newNodePtr
  · exact ⟨l, rfl⟩
  · simp only [EnqueuePc.raising, List.length_append, List.length_cons, List.length_nil] at length ⊢
    omega
  · have data : ∀ c, (((s.nodes.write s.tail.address
        { s.nodes.mem s.tail.address with next := newNodePtr }).pass
          newNodePtr.address .linked).mem c).data = (s.nodes.mem c).data := by
      intro c
      by_cases hc : c = s.tail.address <;> simp [Nodes.write, Nodes.pass, hc]
    show s.enqueued = s.dequeued ++ _
    rw [fifo, values_congr fun c _ => data c]
    cases l <;> simp [EnqueuePc.newNode]

/-- The compare-exchange on `tail`. -/
theorem Inv.swing (I : Inv s chain) {newNodePtr oldTailNode : NodePtr}
    (he : s.producer = .linked newNodePtr oldTailNode) :
    Inv { s with tail := newNodePtr, producer := .counting } chain := by
  have back := I.back
  have length := I.length
  have fifo := I.fifo
  rw [he] at back length fifo
  refine ⟨I.list, I.counted, trivial, I.consumers, ?_, I.index, length, I.lowered, I.count, fifo⟩
  exact (List.suffix_cons _ _).trans back

/-- An `Enqueue` counts the node it has linked. -/
theorem Inv.raise (I : Inv s chain) (he : s.producer = .counting) :
    Inv { s with count := s.count + 1, increments := s.increments + 1, producer := .idle } chain := by
  have length := I.length
  have lowered := I.lowered
  have back := I.back
  have fifo := I.fifo
  rw [he] at length back fifo
  refine ⟨I.list, I.counted, trivial, I.consumers, back, I.index, ?_, ?_, ?_, fifo⟩
  · simp only [EnqueuePc.raising] at length ⊢
    omega
  · show s.decrements ≤ s.increments + 1
    omega
  · show s.count + 1 = UInt32.ofNat (s.increments + 1 - s.decrements)
    rw [I.count, ofNat_succ_sub lowered]

/-- **A step of the producer.** -/
theorem Inv.produce (I : Inv s chain) (h : produce s s.producer = some t) :
    ∃ chain', Inv t chain' := by
  have own := I.producer
  cases he : s.producer with
  | idle =>
    rw [he] at h
    cases h
  | allocated newNode =>
    rw [he] at h
    cases h
    exact ⟨chain, I.clear he⟩
  | nextCleared newNode =>
    rw [he] at h
    cases h
    exact ⟨chain, I.draw he⟩
  | drawn newNodePtr =>
    rw [he] at h own
    cases h
    exact ⟨chain, I.advance (.tailRead _ _) ⟨own.1, own.2, rfl⟩ (by rw [he]; rfl) (by rw [he]; rfl)
      (by rw [he]; rfl)⟩
  | tailRead newNodePtr oldTailNode =>
    rw [he] at h own
    obtain ⟨H, null, rfl⟩ := own
    obtain ⟨-, -, last⟩ := I.last (by rw [he]; rfl)
    cases h
    exact ⟨chain, I.advance (.nextRead _ _ _) ⟨H, null, rfl, last⟩ (by rw [he]; rfl) (by rw [he]; rfl)
      (by rw [he]; rfl)⟩
  | nextRead newNodePtr oldTailNode tailNextNode =>
    rw [he] at h own
    obtain ⟨H, null, -, rfl⟩ := own
    simp only [LockFreeQueue.produce, if_true] at h
    split at h
    · cases h
      exact I.link he
    · cases h
      exact ⟨chain, I.advance (.drawn _) ⟨H, null⟩ (by rw [he]; rfl) (by rw [he]; rfl) (by rw [he]; rfl)⟩
  | linked newNodePtr oldTailNode =>
    rw [he] at h own
    have same : s.tail = oldTailNode := Eq.symm own
    simp only [LockFreeQueue.produce, if_pos same] at h
    cases h
    exact ⟨chain, I.swing he⟩
  | counting =>
    rw [he] at h
    cases h
    exact ⟨chain, I.raise he⟩

/-! ## The consumers -/

/-- A `Dequeue` that has lowered `count` has a node of its own behind those the producer needs. -/
theorem Inv.room (I : Inv s chain) (hi : s.consumers[i]? = some pc) (h : pc.lowered = 1) :
    (s.producer.back s.tail).length < chain.length := by
  have held := @holds_le_total _ DequeuePc.lowered _ _ _ hi
  have length := I.length
  have lowered := I.lowered
  have ends : (s.producer.back s.tail).length ≤ 1 + s.producer.raising := by
    cases s.producer <;> simp [EnqueuePc.back, EnqueuePc.raising]
  omega

/-- It finds a node behind `head`. -/
theorem Inv.next_ne_null (I : Inv s chain) (hi : s.consumers[i]? = some pc) (h : pc.lowered = 1) :
    (s.nodes.mem s.head.address).next.address ≠ 0 := by
  have room := I.room hi h
  have nonempty : 1 ≤ (s.producer.back s.tail).length := by
    cases s.producer <;> simp [EnqueuePc.back]
  cases chain with
  | nil => simp at room
  | cons a rest =>
    cases rest with
    | nil =>
      simp only [List.length_singleton] at room
      omega
    | cons b rest =>
      obtain ⟨-, hhead, hb, hnext, -⟩ := I.list.linked
      rw [hhead, hnext]
      exact hb

/-- A consumer gives a node back. -/
theorem Inv.free (I : Inv s chain) {delNode : Nat} (hi : s.consumers[i]? = some (.taken delNode)) :
    Inv ({ s with nodes := s.nodes.pass delNode .pool }.goto i .idle) chain := by
  have owner : s.nodes.owner delNode = .removed (some i) := I.consumers i _ hi
  have L := Local.pass s.nodes delNode (o := .pool) (Or.inr (Or.inl rfl))
  obtain ⟨own, -⟩ := I.producer.foreign L (by rw [owner]; nofun)
  refine ⟨I.list.frame L (by rw [owner]; nofun) (by simp [State.goto, Nodes.pass]), I.counted, own,
    I.move L (fun j hj => ?_) trivial, I.back, I.index, ?_, I.lowered, I.count, I.fifo⟩
  · rw [owner]
    exact fun he => hj (Option.some.inj he).symm
  · have same : total DequeuePc.lowered (s.consumers.set i .idle) =
        total DequeuePc.lowered s.consumers := total_set_of_eq hi rfl
    simp only [State.goto, same]
    exact I.length

theorem Inv.reuse (I : Inv s chain) (pool : s.nodes.owner a = .pool) (node : Node T) :
    Inv { s with nodes := s.nodes.write a node } chain := by
  have outside : s.nodes.owner a ≠ .linked := by rw [pool]; nofun
  have L := Local.write outside node
  obtain ⟨own, mem⟩ := I.producer.foreign L (by rw [pool]; exact id)
  refine ⟨I.list.frame L outside outside, I.counted, own, fun j q hq => ?_, I.back, I.index,
    I.length, I.lowered, I.count, ?_⟩
  · exact (I.consumers j q hq).foreign I.list I.counted L (by rw [pool]; exact id)
  · have same : ∀ c ∈ chain.tail ++ s.producer.newNode,
        ((s.nodes.write a node).mem c).data = (s.nodes.mem c).data := by
      intro c hc
      rcases List.mem_append.mp hc with hc | hc
      · rw [L.linked_mem ((I.list.tracks.mem c).mp (List.mem_of_mem_tail hc))]
      · rw [mem c hc]
    show s.enqueued = s.dequeued ++ values (s.nodes.write a node) _
    rw [values_congr same]
    exact I.fifo

/-- A consumer lowers `count`, which it has read and found positive. -/
theorem Inv.lower (I : Inv s chain) (hi : s.consumers[i]? = some (.countRead s.count)) :
    Inv ({ s with count := s.count - 1, decrements := s.decrements + 1 }.goto i .taking) chain := by
  have positive : s.count ≠ 0 := I.consumers i _ hi
  have counted : s.decrements < s.increments := lt_of_ofNat_sub_ne_zero (I.count ▸ positive)
  have h := @total_set _ DequeuePc.lowered _ _ _ .taking hi
  have length := I.length
  refine ⟨I.list, I.counted, I.producer, fun j q hq => ?_, I.back, I.index, ?_, counted, ?_, I.fifo⟩
  · rcases getElem?_set_cases hq with ⟨rfl, rfl⟩ | ⟨-, hq⟩
    · trivial
    · exact I.consumers j q hq
  · simp only [State.goto, DequeuePc.lowered] at h ⊢
    omega
  · show s.count - 1 = UInt32.ofNat (s.increments - (s.decrements + 1))
    rw [I.count, ofNat_sub_succ counted]

/-- **The compare-exchange on `head`**: what was read is still so. -/
theorem Inv.take (I : Inv s chain) {headDummyNode : NodePtr} {value : T} {serial : Nat}
    (hi : s.consumers[i]? = some (.dataRead s.head headDummyNode value serial))
    (fresh : Fresh tags s.nodes s.head serial) : ∃ chain', Inv ({ s with
      head := headDummyNode
      nodes := s.nodes.pass s.head.address (.removed (some i))
      dequeued := s.dequeued ++ [value] }.goto i (.taken s.head.address)) chain' := by
  obtain ⟨seen, -, known⟩ := I.consumers i _ hi
  have current := I.list.current I.counted seen fresh
  obtain ⟨hnext, data⟩ := known current
  have room := I.room hi rfl
  have found := I.next_ne_null hi rfl
  cases chain with
  | nil => simp at room
  | cons a chain =>
    have first : s.head.address = a := congrArg Ptr.address I.list.linked.2.1
    rw [first] at hnext found ⊢
    have taken := I.list.pop (o := .removed (some i)) (by nofun)
    have L := Local.pass s.nodes a (o := .removed (some i)) (Or.inr (Or.inr ⟨some i, rfl⟩))
    have linked : s.nodes.owner a = .linked := first ▸ current.1
    obtain ⟨own, -⟩ := I.producer.foreign L (by rw [linked]; exact id)
    have h := @total_set _ DequeuePc.lowered _ _ _ (.taken a) hi
    have length := I.length
    have back : s.producer.back s.tail <:+ chain := by
      rcases List.suffix_cons_iff.mp I.back with whole | back
      · rw [whole] at room
        exact absurd room (Nat.lt_irrefl _)
      · exact back
    have second : ∃ rest, chain = headDummyNode.address :: rest := by
      cases chain with
      | nil => exact absurd (congrArg Ptr.address I.list.linked.2.2) found
      | cons b rest =>
        rw [← hnext, I.list.linked.2.2.2.1]
        exact ⟨rest, rfl⟩
    rw [hnext] at taken
    refine ⟨chain, taken, I.counted, own, I.move L (fun j _ => by rw [linked]; exact id)
      (Function.update_self _ _ _), back, I.index, ?_, I.lowered, I.count, ?_⟩
    · simp only [State.goto, DequeuePc.lowered, List.length_cons] at h length ⊢
      omega
    · obtain ⟨rest, rfl⟩ := second
      have fifo := I.fifo
      simpa [values, data, State.goto, Nodes.pass] using fifo

/-- **A step of a consumer.** -/
theorem Inv.consume (I : Inv s chain) (hi : s.consumers[i]? = some pc)
    (fresh : ∀ headDummyNode value serial, pc = .dataRead s.head headDummyNode value serial →
      Fresh tags s.nodes s.head serial)
    (h : consume s i pc = some t) : ∃ chain', Inv t chain' := by
  have own := I.consumers i _ hi
  cases pc with
  | idle => cases h
  | counting =>
    simp only [LockFreeQueue.consume] at h
    split at h
    · cases h
      exact ⟨chain, I.goto hi trivial rfl⟩
    · rename_i positive
      cases h
      exact ⟨chain, I.goto hi (ne_zero_of_positive positive) rfl⟩
  | countRead oldCount =>
    simp only [LockFreeQueue.consume] at h
    split at h
    · rename_i same
      subst same
      cases h
      exact ⟨chain, I.lower hi⟩
    · cases h
      exact ⟨chain, I.goto hi trivial rfl⟩
  | taking =>
    have first : s.head.address ≠ 0 := by
      have room := I.room hi rfl
      cases chain with
      | nil => simp at room
      | cons a chain =>
        rw [I.list.linked.2.1]
        exact I.list.linked.1
    cases h
    exact ⟨chain, I.goto hi (I.list.seen first).1 rfl⟩
  | headRead ptr serial =>
    simp only [LockFreeQueue.consume] at h
    split at h
    · cases h
      exact ⟨chain, I.goto hi trivial rfl⟩
    · rename_i found
      cases h
      exact ⟨chain, I.goto hi ⟨own, found, fun _ => rfl⟩ rfl⟩
  | nextRead ptr next serial =>
    obtain ⟨seen, found, known⟩ := own
    cases h
    exact ⟨chain, I.goto hi ⟨seen, found, fun hc => ⟨known hc, rfl⟩⟩ rfl⟩
  | dataRead ptr next value serial =>
    simp only [LockFreeQueue.consume] at h
    split at h
    · rename_i same
      subst same
      cases h
      exact I.take hi (fresh next value serial rfl)
    · cases h
      exact ⟨chain, I.goto hi trivial rfl⟩
  | taken delNode =>
    cases h
    exact ⟨chain, I.free hi⟩

/-- **Every step keeps the list, the counts and the order of the values together.** -/
theorem Inv.step {action : Action T} (I : Inv s chain) (fresh : TagFresh s action)
    (h : step s action = some t) : ∃ chain', Inv t chain' := by
  cases action with
  | enqueue value newNode =>
    simp only [LockFreeQueue.step] at h
    split at h
    · rename_i idle pool
      split at h
      · cases h
      · rename_i h0
        cases h
        exact ⟨chain, I.alloc idle h0 pool value⟩
    · cases h
  | dequeue i =>
    simp only [LockFreeQueue.step] at h
    split at h
    · rename_i hi
      cases h
      have moved : Inv (s.goto i .counting) chain := I.goto hi trivial rfl
      exact ⟨chain, { moved with }⟩
    · cases h
  | produce => exact I.produce h
  | consume i =>
    simp only [LockFreeQueue.step] at h
    split at h
    · rename_i pc hi
      exact I.consume hi (fun next value serial he => fresh next value serial (he ▸ hi)) h
    · cases h
  | reuse a node =>
    simp only [LockFreeQueue.step] at h
    split at h
    · rename_i pool
      cases h
      exact ⟨chain, I.reuse pool node⟩
    · cases h

/-- **In every interleaving in which the tag of a node does not come round under a `Dequeue`, the
successful compare-exchanges on `head` take the values in the order of the calls of `Enqueue`.**  A
`Dequeue` that has lowered `count` has a node behind `head`: where it finds none, `head` has moved
on.  The node at `tail` is one of those from `head` on. -/
theorem run_fifo {n : Nat} {mem : Nat → Node T} {dummyNode : Nat} {zero : T} {as : List (Action T)}
    (h0 : dummyNode ≠ 0)
    (hr : Run (fun s a t => step s a = some t) TagFresh (LockFreeQueue.init n mem dummyNode zero)
      as t) :
    t.dequeued <+: t.enqueued ∧
      (∀ (i : Nat) (pc : DequeuePc T), t.consumers[i]? = some pc → pc.lowered = 1 →
        (t.nodes.mem t.head.address).next.address ≠ 0) ∧
      (∀ (i : Nat) ptr serial, t.consumers[i]? = some (.headRead ptr serial) →
        (t.nodes.mem ptr.address).next.address = 0 → t.head ≠ ptr) ∧
      ∃ chain, Chain tags t.nodes t.head chain ∧
        t.tail.address ∈ chain ∧ t.nodes.owner t.tail.address = .linked ∧
        t.enqueued = t.dequeued ++ values t.nodes (chain.tail ++ t.producer.newNode) := by
  obtain ⟨chain, I⟩ : ∃ chain, Inv t chain :=
    hr.invariant (I := fun t => ∃ chain, Inv t chain) ⟨_, Inv.init n mem h0 zero⟩
      fun _ _ _ I fresh h => by
        obtain ⟨chain, I⟩ := I
        exact I.step fresh h
  have atTail : t.tail.address ∈ chain := by
    apply I.back.subset
    cases t.producer <;> simp [EnqueuePc.back]
  refine ⟨⟨_, I.fifo.symm⟩, fun i pc hi h => I.next_ne_null hi h, ?_, chain, I.list, atTail,
    (I.list.tracks.mem _).mp atTail, I.fifo⟩
  rintro i ptr serial hi null rfl
  exact I.next_ne_null hi rfl null

theorem TagFresh.of_drawn {action : Action T} (h : s.nodes.drawn < tags) : TagFresh s action := by
  cases action with
  | consume i => exact fun _ _ serial _ => Or.inl (Nat.lt_of_lt_of_le h (Nat.le_add_left _ serial))
  | enqueue | dequeue | produce | reuse => trivial

/-- Two values pass from node to node, the second while the first is being taken. -/
theorem run_fifo_two_values : ∃ t, Run (fun s a t => step s a = some t) TagFresh
    (LockFreeQueue.init 1 (fun _ => (⟨⟨0, 0⟩, 0⟩ : Node Nat)) 1 0)
    [.enqueue 7 2, .produce, .produce, .produce, .produce, .produce, .produce, .produce,
     .dequeue 0, .consume 0, .consume 0, .enqueue 8 3, .produce, .consume 0, .consume 0,
     .consume 0, .consume 0, .consume 0] t ∧
    t.dequeued = [7] ∧ t.enqueued = [7, 8] ∧ t.dequeued <+: t.enqueued ∧
    ∃ chain, Chain tags t.nodes t.head chain ∧ t.tail.address ∈ chain := by
  have run : Run (fun s a t => step s a = some t) TagFresh
      (LockFreeQueue.init 1 (fun _ => (⟨⟨0, 0⟩, 0⟩ : Node Nat)) 1 0)
      [.enqueue 7 2, .produce, .produce, .produce, .produce, .produce, .produce, .produce,
       .dequeue 0, .consume 0, .consume 0, .enqueue 8 3, .produce, .consume 0, .consume 0,
       .consume 0, .consume 0, .consume 0] _ :=
    .cons rfl (.of_drawn (by decide)) <| .cons rfl (.of_drawn (by decide)) <|
    .cons rfl (.of_drawn (by decide)) <| .cons rfl (.of_drawn (by decide)) <|
    .cons rfl (.of_drawn (by decide)) <| .cons rfl (.of_drawn (by decide)) <|
    .cons rfl (.of_drawn (by decide)) <| .cons rfl (.of_drawn (by decide)) <|
    .cons rfl (.of_drawn (by decide)) <| .cons rfl (.of_drawn (by decide)) <|
    .cons rfl (.of_drawn (by decide)) <| .cons rfl (.of_drawn (by decide)) <|
    .cons rfl (.of_drawn (by decide)) <| .cons rfl (.of_drawn (by decide)) <|
    .cons rfl (.of_drawn (by decide)) <| .cons rfl (.of_drawn (by decide)) <|
    .cons rfl (.of_drawn (by decide)) <| .cons rfl (.of_drawn (by decide)) .nil
  obtain ⟨fifo, -, -, chain, list, tail, -⟩ := run_fifo (by decide) run
  exact ⟨_, run, rfl, rfl, fifo, chain, list, tail⟩

/-! ## Undisturbed calls -/

/-- Fewer than `2 ^ 17` tags are drawn during a `Dequeue`. -/
def Brief (s : State T) : Action T → Prop
  | .consume i => s.nodes.drawn < s.started i + tags
  | _ => True

theorem step_consume (hi : s.consumers[i]? = some pc) : step s (.consume i) = consume s i pc := by
  simp only [step, hi]

theorem getElem?_goto (hi : s.consumers[i]? = some pc) :
    (s.goto i pc').consumers[i]? = some pc' :=
  getElem?_set_of_some hi

/-- An `Enqueue` that no consumer disturbs. -/
theorem enqueue_call (he : s.producer = .idle) (value : T) {newNode : Nat} (h0 : newNode ≠ 0)
    (pool : s.nodes.owner newNode = .pool) (null : (s.nodes.mem s.tail.address).next = ⟨0, 0⟩)
    (hne : s.tail.address ≠ newNode) (index : s.index = UInt64.ofNat s.nodes.drawn) :
    ∃ t, Run (fun s a t => step s a = some t) Brief s
        (.enqueue value newNode :: List.replicate 7 .produce) t ∧
      t.producer = .idle ∧ t.consumers = s.consumers ∧ t.head = s.head ∧
      t.tail = ⟨(s.nodes.drawn + 1) % tags, newNode⟩ ∧
      t.nodes.mem newNode = ⟨⟨0, 0⟩, value⟩ ∧
      t.nodes.mem s.tail.address = ⟨t.tail, (s.nodes.mem s.tail.address).data⟩ ∧
      (∀ b, b ≠ newNode → b ≠ s.tail.address → t.nodes.mem b = s.nodes.mem b) ∧
      (∀ b, b ≠ newNode → t.nodes.owner b = s.nodes.owner b) ∧
      t.nodes.drawn = s.nodes.drawn + 1 ∧ t.index = UInt64.ofNat t.nodes.drawn ∧
      t.count = s.count + 1 ∧ t.enqueued = s.enqueued ++ [value] ∧ t.dequeued = s.dequeued ∧
      t.started = s.started := by
  let newNodePtr : NodePtr := ⟨((s.index + 1) &&& 0x1FFFF).toNat, newNode⟩
  let oldNode : Node T := s.nodes.mem s.tail.address
  let s₁ : State T := { s with
    nodes := s.nodes.alloc none newNode { s.nodes.mem newNode with data := value }
    producer := .allocated newNode
    enqueued := s.enqueued ++ [value] }
  let s₂ : State T := { s₁ with
    nodes := s₁.nodes.write newNode { s₁.nodes.mem newNode with next := ⟨0, 0⟩ }
    producer := .nextCleared newNode }
  let s₃ : State T := { s₂ with
    index := s.index + 1
    nodes := s₂.nodes.draw none newNode
    producer := .drawn newNodePtr }
  let s₄ : State T := { s₃ with producer := .tailRead newNodePtr s.tail }
  let s₅ : State T := { s₄ with producer := .nextRead newNodePtr s.tail ⟨0, 0⟩ }
  let s₆ : State T := { s₅ with
    nodes := (s₅.nodes.write s.tail.address { s₅.nodes.mem s.tail.address with next := newNodePtr
      }).pass newNode .linked
    producer := .linked newNodePtr s.tail }
  let s₇ : State T := { s₆ with tail := newNodePtr, producer := .counting }
  let s₈ : State T := { s₇ with
    count := s.count + 1
    increments := s.increments + 1
    producer := .idle }
  have old : s₃.nodes.mem s.tail.address = oldNode := by
    simp [s₃, s₂, s₁, oldNode, Nodes.draw, Nodes.write, Nodes.alloc, hne]
  have h₁ : step s (.enqueue value newNode) = some s₁ := by
    simp only [step, he, pool, h0, if_false]
    rfl
  have h₅ : step s₄ .produce = some s₅ := by
    show some { s₄ with producer := .nextRead newNodePtr s.tail (s₃.nodes.mem s.tail.address).next }
      = some s₅
    rw [old, null]
  have h₆ : step s₅ .produce = some s₆ := by
    have same : (s₅.nodes.mem s.tail.address).next = ⟨0, 0⟩ := by
      rw [show s₅.nodes.mem s.tail.address = oldNode from old]
      exact null
    show (if (s₅.nodes.mem s.tail.address).next = ⟨0, 0⟩ then some s₆
      else some { s₅ with producer := .drawn newNodePtr }) = some s₆
    exact if_pos same
  have run : Run (fun s a t => step s a = some t) Brief s
      (.enqueue value newNode :: List.replicate 7 .produce) s₈ :=
    .cons h₁ trivial <| .cons rfl trivial <| .cons rfl trivial <| .cons rfl trivial <|
      .cons h₅ trivial <| .cons h₆ trivial <| .cons (if_pos rfl) trivial <| .cons rfl trivial .nil
  refine ⟨s₈, run, rfl, rfl, rfl, ?_, ?_, ?_, fun b hb hb' => ?_, fun b hb => ?_, rfl, ?_, rfl, rfl,
    rfl, rfl⟩
  · show newNodePtr = _
    simp only [newNodePtr, index, tag_eq]
  · simp [s₈, s₇, s₆, s₅, s₄, s₃, s₂, s₁, Nodes.pass, Nodes.write, Nodes.draw, Nodes.alloc,
      Ne.symm hne]
  · show Function.update s₅.nodes.mem s.tail.address _ s.tail.address = _
    rw [Function.update_self, show s₅.nodes.mem s.tail.address = oldNode from old]
  · simp [s₈, s₇, s₆, s₅, s₄, s₃, s₂, s₁, Nodes.pass, Nodes.write, Nodes.draw, Nodes.alloc, hb, hb']
  · simp [s₈, s₇, s₆, s₅, s₄, s₃, s₂, s₁, Nodes.pass, Nodes.write, Nodes.draw, Nodes.alloc, hb]
  · show s.index + 1 = UInt64.ofNat (s.nodes.drawn + 1)
    rw [index]
    exact (UInt64.ofNat_add _ _).symm

/-- The first steps of a `Dequeue` of consumer `i`, undisturbed, up to its reading of `data`. -/
theorem dequeue_begin (hi : s.consumers[i]? = some .idle)
    (found : (s.nodes.mem s.head.address).next.address ≠ 0) (positive : ¬ s.count.toInt32 ≤ 0) :
    ∃ t, Run (fun s a t => step s a = some t) Brief s
        (.dequeue i :: List.replicate 5 (.consume i)) t ∧
      t.consumers[i]? = some (.dataRead s.head (s.nodes.mem s.head.address).next
        (s.nodes.mem (s.nodes.mem s.head.address).next.address).data
        (s.nodes.born s.head.address)) ∧
      (∀ j, j ≠ i → t.consumers[j]? = s.consumers[j]?) ∧ t.producer = s.producer ∧
      t.head = s.head ∧ t.tail = s.tail ∧ t.nodes = s.nodes ∧ t.index = s.index ∧
      t.count = s.count - 1 ∧ t.enqueued = s.enqueued ∧ t.dequeued = s.dequeued ∧
      t.started = Function.update s.started i s.nodes.drawn := by
  let next := (s.nodes.mem s.head.address).next
  let serial := s.nodes.born s.head.address
  let s₁ : State T :=
    { s with started := Function.update s.started i s.nodes.drawn }.goto i .counting
  let s₂ : State T := s₁.goto i (.countRead s.count)
  let s₃ : State T := { s₂ with
    count := s.count - 1
    decrements := s.decrements + 1 }.goto i .taking
  let s₄ : State T := s₃.goto i (.headRead s.head serial)
  let s₅ : State T := s₄.goto i (.nextRead s.head next serial)
  let s₆ : State T := s₅.goto i (.dataRead s.head next (s.nodes.mem next.address).data serial)
  have i₁ : s₁.consumers[i]? = some .counting := getElem?_goto hi
  have i₂ : s₂.consumers[i]? = some (.countRead s.count) := getElem?_goto i₁
  have i₃ : s₃.consumers[i]? = some .taking := getElem?_goto i₂
  have i₄ : s₄.consumers[i]? = some (.headRead s.head serial) := getElem?_goto i₃
  have i₅ : s₅.consumers[i]? = some (.nextRead s.head next serial) := getElem?_goto i₄
  have h₁ : step s (.dequeue i) = some s₁ := by
    simp only [step, hi]
    rfl
  have begun : s.nodes.drawn < Function.update s.started i s.nodes.drawn i + tags := by
    rw [Function.update_self, tags]
    omega
  have run : Run (fun s a t => step s a = some t) Brief s
      (.dequeue i :: List.replicate 5 (.consume i)) s₆ :=
    .cons h₁ trivial <| .cons ((step_consume i₁).trans (if_neg positive)) begun <|
      .cons ((step_consume i₂).trans (if_pos rfl)) begun <| .cons (step_consume i₃) begun <|
      .cons ((step_consume i₄).trans (if_neg found)) begun <| .cons (step_consume i₅) begun .nil
  refine ⟨s₆, run, getElem?_goto i₅, fun j hj => ?_, ?_⟩
  · simp [s₆, s₅, s₄, s₃, s₂, s₁, State.goto, List.getElem?_set_ne (Ne.symm hj)]
  · simp [s₆, s₅, s₄, s₃, s₂, s₁, State.goto]

/-- The last steps, when `head` is what was read. -/
theorem dequeue_end {next : NodePtr} {value : T} {serial : Nat}
    (hi : s.consumers[i]? = some (.dataRead s.head next value serial))
    (brief : s.nodes.drawn < s.started i + tags) :
    ∃ t, Run (fun s a t => step s a = some t) Brief s (List.replicate 2 (.consume i)) t ∧
      t.consumers[i]? = some .idle ∧ (∀ j, j ≠ i → t.consumers[j]? = s.consumers[j]?) ∧
      t.producer = s.producer ∧ t.head = next ∧ t.tail = s.tail ∧ t.nodes.mem = s.nodes.mem ∧
      t.nodes.owner = Function.update s.nodes.owner s.head.address .pool ∧
      t.nodes.drawn = s.nodes.drawn ∧ t.index = s.index ∧ t.count = s.count ∧
      t.enqueued = s.enqueued ∧ t.dequeued = s.dequeued ++ [value] ∧ t.started = s.started := by
  let a := s.head.address
  let s₁ : State T := { s with
    head := next
    nodes := s.nodes.pass a (.removed (some i))
    dequeued := s.dequeued ++ [value] }.goto i (.taken a)
  let s₂ : State T := { s₁ with nodes := s₁.nodes.pass a .pool }.goto i .idle
  have i₁ : s₁.consumers[i]? = some (.taken a) := getElem?_goto hi
  have run : Run (fun s a t => step s a = some t) Brief s (List.replicate 2 (.consume i)) s₂ :=
    .cons ((step_consume hi).trans (if_pos rfl)) brief <| .cons (step_consume i₁) brief .nil
  refine ⟨s₂, run, getElem?_goto i₁, fun j hj => ?_, rfl, rfl, rfl, rfl, ?_, rfl, rfl, rfl, rfl, rfl,
    rfl⟩
  · simp [s₂, s₁, State.goto, List.getElem?_set_ne (Ne.symm hj)]
  · simp [s₂, s₁, a, State.goto, Nodes.pass]

/-- A whole `Dequeue` of consumer `i` that no other thread disturbs. -/
theorem dequeue_call (hi : s.consumers[i]? = some .idle)
    (found : (s.nodes.mem s.head.address).next.address ≠ 0) (positive : ¬ s.count.toInt32 ≤ 0) :
    ∃ as t, Run (fun s a t => step s a = some t) Brief s as t ∧
      t.consumers[i]? = some .idle ∧ (∀ j, j ≠ i → t.consumers[j]? = s.consumers[j]?) ∧
      t.producer = s.producer ∧ t.head = (s.nodes.mem s.head.address).next ∧ t.tail = s.tail ∧
      t.nodes.mem = s.nodes.mem ∧
      t.nodes.owner = Function.update s.nodes.owner s.head.address .pool ∧
      t.nodes.drawn = s.nodes.drawn ∧ t.index = s.index ∧ t.count = s.count - 1 ∧
      t.enqueued = s.enqueued ∧
      t.dequeued = s.dequeued ++ [(s.nodes.mem (s.nodes.mem s.head.address).next.address).data] ∧
      (∀ j, j ≠ i → t.started j = s.started j) := by
  obtain ⟨r, run, at₁, others, producer, head, tail, nodes, index, count, enqueued, dequeued,
    started⟩ := dequeue_begin hi found positive
  rw [← head] at at₁
  have brief : r.nodes.drawn < r.started i + tags := by
    rw [nodes, started, Function.update_self, tags]
    omega
  obtain ⟨t, run', idle, others', producer', head', tail', mem, owner, drawn, index', count',
    enqueued', dequeued', started'⟩ := dequeue_end at₁ brief
  rw [nodes, head] at owner
  rw [head, dequeued] at dequeued'
  refine ⟨_, t, run.trans run', idle, fun j hj => (others' j hj).trans (others j hj),
    producer'.trans producer, ?_, tail'.trans tail, ?_, owner, ?_, index'.trans index,
    count'.trans count, enqueued'.trans enqueued, dequeued', fun j hj => ?_⟩
  · rw [head', head]
  · rw [mem, nodes]
  · rw [drawn, nodes]
  · rw [started', started, Function.update_of_ne hj]

/-! ## A tag drawn long ago -/

/-- Consumer 0 has read node 1, then at `head` with tag 0, and the value 10 behind it, and all other
calls so far are over; the queue holds a single value. -/
structure Overtaken (s : State Nat) : Prop where
  taker : ∃ serial, s.consumers[0]? = some (.dataRead ⟨0, 1⟩ ⟨1, 2⟩ 10 serial)
  started : s.started 0 = 2
  idle : s.consumers[1]? = some .idle
  producer : s.producer = .idle
  next : (s.nodes.mem s.head.address).next = s.tail
  last : s.nodes.mem s.tail.address = ⟨⟨0, 0⟩, 20⟩
  apart : s.head.address ≠ s.tail.address
  tail : s.tail.address ≠ 0
  index : s.index = UInt64.ofNat s.nodes.drawn
  count : s.count = 0
  fifo : s.enqueued = s.dequeued ++ [20]

/-- The producer enqueues another value, and consumer 1 takes the one that is there. -/
theorem Overtaken.pass {s : State Nat} (h : Overtaken s) {newNode : Nat} (h0 : newNode ≠ 0)
    (pool : s.nodes.owner newNode = .pool) (hhead : newNode ≠ s.head.address)
    (htail : newNode ≠ s.tail.address) :
    ∃ as t, Run (fun s a t => step s a = some t) Brief s as t ∧ Overtaken t ∧ t.head = s.tail ∧
      t.tail = ⟨(s.nodes.drawn + 1) % tags, newNode⟩ ∧ t.nodes.drawn = s.nodes.drawn + 1 ∧
      t.nodes.owner s.head.address = .pool ∧
      ∀ b, b ≠ newNode → b ≠ s.head.address → t.nodes.owner b = s.nodes.owner b := by
  obtain ⟨r, run, producer, consumers, head, tail, new, old, mem, owner, drawn, index, count,
    enqueued, dequeued, started⟩ := enqueue_call h.producer 20 h0 pool (by rw [h.last]) (Ne.symm htail)
      h.index
  have first : (r.nodes.mem r.head.address).next = s.tail := by
    rw [head, mem _ (Ne.symm hhead) h.apart]
    exact h.next
  obtain ⟨_, t, run', idle, others, producer', head', tail', mem', owner', drawn', index', count',
    enqueued', dequeued', started'⟩ := dequeue_call (i := 1) (by rw [consumers]; exact h.idle)
      (by rw [first]; exact h.tail) (by rw [count, h.count]; decide)
  rw [first] at head' dequeued'
  rw [head] at owner'
  have address : t.tail.address = newNode := by rw [tail', tail]
  refine ⟨_, t, run.trans run', ?_, head', tail'.trans tail, drawn'.trans drawn, ?_,
    fun b hb hb' => ?_⟩
  · refine ⟨?_, ?_, idle, producer'.trans producer, ?_, ?_, ?_, ?_, ?_, ?_, ?_⟩
    · rw [others 0 (by decide), consumers]
      exact h.taker
    · rw [started' 0 (by decide), started]
      exact h.started
    · rw [head', mem', old, tail']
    · rw [address, mem', new]
    · rw [head', address]
      exact Ne.symm htail
    · rw [address]
      exact h0
    · rw [index', drawn', index]
    · rw [count', count, h.count]
      rfl
    · rw [enqueued', enqueued, dequeued', dequeued, old, h.last, h.fifo]
  · rw [owner', Function.update_self]
  · rw [owner', Function.update_of_ne hb', owner b hb]

/-- So it may go on, in nodes other than node 1. -/
theorem overtaken (k : Nat) : ∃ as t spare, Run (fun s a t => step s a = some t) Brief
    (LockFreeQueue.init 2 (fun _ => ⟨⟨0, 0⟩, 0⟩) 1 0) as t ∧ Overtaken t ∧ t.nodes.drawn = 2 + k ∧
    t.nodes.owner 1 = .pool ∧ t.head.address ≠ 1 ∧ t.tail.address ≠ 1 ∧ t.head.address ≠ 0 ∧
    t.nodes.owner spare = .pool ∧ spare ≠ 0 ∧ spare ≠ 1 ∧ spare ≠ t.head.address ∧
    spare ≠ t.tail.address := by
  induction k with
  | zero =>
    obtain ⟨s₁, run₁, producer₁, consumers₁, head₁, tail₁, new₁, old₁, -, owner₁, drawn₁, index₁,
      count₁, enqueued₁, dequeued₁, -⟩ := @enqueue_call Nat
        (LockFreeQueue.init 2 (fun _ => ⟨⟨0, 0⟩, 0⟩) 1 0) rfl 10 2 (by decide) rfl rfl (by decide) rfl
    have at₁ : s₁.tail = ⟨1, 2⟩ := tail₁
    rw [at₁] at old₁
    obtain ⟨s₂, run₂, producer₂, consumers₂, head₂, tail₂, new₂, old₂, mem₂, owner₂, drawn₂, index₂,
      count₂, enqueued₂, dequeued₂, -⟩ := enqueue_call producer₁ 20 (by decide : 3 ≠ 0)
        ((owner₁ 3 (by decide)).trans rfl) (by rw [at₁, new₁]) (by rw [at₁]; decide) index₁
    have at₂ : s₂.tail = ⟨2, 3⟩ := by
      rw [tail₂, drawn₁]
      rfl
    have head : s₂.head = ⟨0, 1⟩ := head₂.trans head₁
    rw [at₂, at₁, new₁] at old₂
    have first : s₂.nodes.mem 1 = ⟨⟨1, 2⟩, 0⟩ :=
      (mem₂ 1 (by decide) (by rw [at₁]; decide)).trans old₁
    have total : s₂.count = 2 := by
      rw [count₂, count₁]
      rfl
    -- consumer 0 reads node 1 and the value behind it
    obtain ⟨s₃, run₃, taker₃, others₃, producer₃, head₃, tail₃, nodes₃, index₃, count₃, enqueued₃,
      dequeued₃, started₃⟩ := dequeue_begin (s := s₂) (i := 0) (by rw [consumers₂, consumers₁]; rfl)
        (by rw [head, first]; decide) (by rw [total]; decide)
    rw [head, first, old₂] at taker₃
    -- consumer 1 takes it
    obtain ⟨_, s₄, run₄, idle₄, others₄, producer₄, head₄, tail₄, mem₄, owner₄, drawn₄, index₄,
      count₄, enqueued₄, dequeued₄, started₄⟩ := dequeue_call (s := s₃) (i := 1)
        (by rw [others₃ 1 (by decide), consumers₂, consumers₁]; rfl)
        (by rw [head₃, head, nodes₃, first]; decide) (by rw [count₃, total]; decide)
    rw [head₃, head, nodes₃, first] at head₄ dequeued₄
    rw [old₂] at dequeued₄
    rw [head₃, head, nodes₃] at owner₄
    rw [nodes₃] at mem₄ drawn₄
    have at₄ : s₄.tail = ⟨2, 3⟩ := tail₄.trans (tail₃.trans at₂)
    refine ⟨_, s₄, 4, ((run₁.trans run₂).trans run₃).trans run₄, ?_, ?_, ?_, ?_, ?_, ?_, ?_, by decide,
      by decide, ?_, ?_⟩
    · refine ⟨⟨_, (others₄ 0 (by decide)).trans taker₃⟩, ?_, idle₄, ?_, ?_, ?_, ?_, ?_, ?_, ?_, ?_⟩
      · rw [started₄ 0 (by decide), started₃, Function.update_self, drawn₂, drawn₁]
        rfl
      · rw [producer₄, producer₃, producer₂]
      · rw [head₄, mem₄, old₂, at₄]
      · rw [at₄, mem₄, new₂]
      · rw [head₄, at₄]
        decide
      · rw [at₄]
        decide
      · rw [index₄, index₃, index₂, drawn₄]
      · rw [count₄, count₃, total]
        rfl
      · rw [enqueued₄, enqueued₃, enqueued₂, enqueued₁, dequeued₄, dequeued₃, dequeued₂, dequeued₁]
        rfl
    · rw [drawn₄, drawn₂, drawn₁]
      rfl
    · rw [owner₄]
      rfl
    · rw [head₄]
      decide
    · rw [at₄]
      decide
    · rw [head₄]
      decide
    · rw [owner₄, Function.update_of_ne (by decide), owner₂ 4 (by decide), owner₁ 4 (by decide)]
      rfl
    · rw [head₄]
      decide
    · rw [at₄]
      decide
  | succ k ih =>
    obtain ⟨_, s, spare, before, h, drawn, kept, head1, tail1, head0, pool, spare0, spare1, spareHead,
      spareTail⟩ := ih
    obtain ⟨_, t, run, h', head, tail, drawn', freed, owner⟩ := h.pass spare0 pool spareHead spareTail
    refine ⟨_, t, s.head.address, before.trans run, h', ?_, ?_, ?_, ?_, ?_, freed, head0, head1, ?_, ?_⟩
    · rw [drawn', drawn]
      omega
    · rw [owner 1 (Ne.symm spare1) (Ne.symm head1), kept]
    · rw [head]
      exact tail1
    · rw [tail]
      exact spare1
    · rw [head]
      exact h.tail
    · rw [head]
      exact h.apart
    · rw [tail]
      exact Ne.symm spareHead

/-- **Fewer than `2 ^ 17` enqueues during every `Dequeue` are not enough.**  The dummy node, with
tag 0, is at `head` while two tags are drawn and consumer 0 reads it, its successor and the value 10
there.  Consumer 1 takes 10; `2 ^ 17 - 1` more values are enqueued and taken, the last but one in
the old dummy node, with tag 0 again.  The compare-exchange of consumer 0 succeeds and takes 10 a
second time. -/
theorem stale_dequeue_repeats : ∃ as t, Run (fun s a t => step s a = some t) Brief
    (LockFreeQueue.init 2 (fun _ => (⟨⟨0, 0⟩, 0⟩ : Node Nat)) 1 0) as t ∧
    ¬ t.dequeued <+: t.enqueued := by
  obtain ⟨_, s, spare, run, h, drawn, kept, head1, tail1, head0, pool, spare0, spare1, spareHead,
    spareTail⟩ := overtaken (2 ^ 17 - 3)
  obtain ⟨_, s₁, run₁, h₁, head₁, tail₁, drawn₁, freed₁, owner₁⟩ :=
    h.pass Nat.one_ne_zero kept (Ne.symm head1) (Ne.symm tail1)
  have back : s₁.tail = ⟨0, 1⟩ := by
    rw [tail₁, drawn]
    rfl
  obtain ⟨_, s₂, run₂, h₂, head₂, tail₂, drawn₂, freed₂, owner₂⟩ :=
    h₁.pass head0 freed₁ (by rw [head₁]; exact h.apart)
      (by rw [back]; exact head1)
  obtain ⟨serial, taker⟩ := h₂.taker
  have head : s₂.head = ⟨0, 1⟩ := head₂.trans back
  rw [← head] at taker
  have brief : s₂.nodes.drawn < s₂.started 0 + tags := by
    rw [h₂.started, drawn₂, drawn₁, drawn, tags]
    omega
  obtain ⟨t, run₃, -, -, -, -, -, -, -, -, -, -, enqueued, dequeued, -⟩ := dequeue_end taker brief
  refine ⟨_, t, ((run.trans run₁).trans run₂).trans run₃, fun fifo => ?_⟩
  rw [enqueued, dequeued, h₂.fifo] at fifo
  have last := (List.prefix_append_right_inj _).mp fifo
  simp at last

end LockFreeQueue

end IocpServer
