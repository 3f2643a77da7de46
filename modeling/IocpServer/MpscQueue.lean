import IocpServer.Lib.Chain
import IocpServer.Lib.Run

/-!
# `MPSCQueue`

Model of `MPSCQueue.h` at the granularity of its atomic steps: reads of `head`, `tail` and
`next`, compare-exchanges, `new` and `delete`.  Any number of producers are inside `Enqueue` and
one consumer is inside `Dequeue`; a step advances one of them.  An address is free for `new` as
soon as it has been deleted.  `linked` and `delivered` record the values in the order their nodes
were linked and the values `Dequeue` returned.

`Dequeue` does not look at `tail`, so the node it deletes may still be the one `tail`, or an
`Enqueue` that has read `tail`, refers to.

* `DeleteUnreferenced` — the step condition: no such reference is left when a node is deleted.
* `Inv` — one finite chain holds the head, the tail and every tail an `Enqueue` works on; what is
  linked is what was delivered, followed by the values of the chain.
* `run_refinesFifo` — **in every run whose deletions meet the condition the queue is a FIFO
  queue, its chain is finite and no deleted node is dereferenced.**
-/

set_option autoImplicit false

namespace IocpServer

open Lib

namespace MPSCQueue

/-- `NodePtr`: a 17-bit tag and the address. -/
structure NodePtr where
  index : Nat
  address : Nat
  deriving DecidableEq, Repr

structure Node (T : Type) where
  next : NodePtr
  data : T

/-- Where a producer stands in `Enqueue(value)`. -/
inductive EnqPc (T : Type) where
  | idle
  /-- Behind `new Node`, before the tag is drawn. -/
  | allocated (value : T) (newNode : Nat)
  /-- At the head of the loop. -/
  | loop (value : T) (newNodePtr : NodePtr)
  | tailRead (value : T) (newNodePtr oldTailNode : NodePtr)
  | nextRead (value : T) (newNodePtr oldTailNode tailNextNode : NodePtr)
  /-- Behind the compare-exchange on `oldNode->next`. -/
  | linked (newNodePtr oldTailNode : NodePtr)
  | counting

/-- Where the consumer stands in `Dequeue`. -/
inductive DeqPc (T : Type) where
  | idle
  | loop
  | headRead (toBeDeletedNode : NodePtr)
  | nextRead (toBeDeletedNode headDummyNode : NodePtr)
  /-- Behind the compare-exchange on `head`. -/
  | unlinked (delNode delNextNode : Nat)
  | dataRead (delNode : Nat) (t : T)
  | deleted (t : T)

structure State (T : Type) where
  heap : Nat → Option (Node T)
  head : NodePtr
  tail : NodePtr
  count : UInt32
  index : UInt64
  producers : Nat → EnqPc T
  consumer : DeqPc T
  linked : List T
  delivered : List T

inductive Fault where
  /-- A node that is not allocated is read, written or deleted. -/
  | deletedNode
  /-- Not a step: the thread is elsewhere or the address is taken. -/
  | notEnabled
  deriving DecidableEq

inductive Action (T : Type) where
  /-- Producer `p` calls `Enqueue(value)` and `new` returns `node`. -/
  | enqueue (p : Nat) (value : T) (node : Nat)
  | producer (p : Nat)
  | consumer

variable {T : Type}

/-- The queue as constructed; the dummy node's data is whatever `new` left there. -/
def init (dummyNode : Nat) (data : T) : State T where
  heap := Function.update (fun _ => none) dummyNode (some ⟨⟨0, 0⟩, data⟩)
  head := ⟨0, dummyNode⟩
  tail := ⟨0, dummyNode⟩
  count := 0
  index := 0
  producers := fun _ => .idle
  consumer := .idle
  linked := []
  delivered := []

def State.setProducer (s : State T) (p : Nat) (pc : EnqPc T) : State T :=
  { s with producers := Function.update s.producers p pc }

/-- The next atomic step of `Enqueue`. -/
def producerStep (s : State T) (p : Nat) : Except Fault (State T) :=
  match s.producers p with
  | .idle => .error .notEnabled
  | .allocated value newNode =>
    let idx := (s.index + 1) &&& 0x1FFFF
    .ok ({ s with index := s.index + 1 }.setProducer p (.loop value ⟨idx.toNat, newNode⟩))
  | .loop value newNodePtr => .ok (s.setProducer p (.tailRead value newNodePtr s.tail))
  | .tailRead value newNodePtr oldTailNode =>
    match s.heap oldTailNode.address with
    | none => .error .deletedNode
    | some oldNode => .ok (s.setProducer p (.nextRead value newNodePtr oldTailNode oldNode.next))
  | .nextRead value newNodePtr oldTailNode tailNextNode =>
    if tailNextNode.address = 0 then
      match s.heap oldTailNode.address with
      | none => .error .deletedNode
      | some oldNode =>
        if oldNode.next = tailNextNode then
          .ok ({ s with
            heap := Function.update s.heap oldTailNode.address
              (some { oldNode with next := newNodePtr })
            linked := s.linked ++ [value] }.setProducer p (.linked newNodePtr oldTailNode))
        else .ok (s.setProducer p (.loop value newNodePtr))
    else
      .ok ({ s with tail := if s.tail = oldTailNode then tailNextNode else s.tail }.setProducer p
        (.loop value newNodePtr))
  | .linked newNodePtr oldTailNode =>
    .ok ({ s with tail := if s.tail = oldTailNode then newNodePtr else s.tail }.setProducer p
      .counting)
  | .counting => .ok ({ s with count := s.count + 1 }.setProducer p .idle)

/-- The next atomic step of `Dequeue`. -/
def consumerStep (s : State T) : Except Fault (State T) :=
  match s.consumer with
  | .idle => .ok { s with consumer := .loop }
  | .loop => .ok { s with consumer := .headRead s.head }
  | .headRead toBeDeletedNode =>
    match s.heap toBeDeletedNode.address with
    | none => .error .deletedNode
    | some node =>
      -- `return -1` on a null successor
      if node.next.address = 0 then .ok { s with consumer := .idle }
      else .ok { s with consumer := .nextRead toBeDeletedNode node.next }
  | .nextRead toBeDeletedNode headDummyNode =>
    if s.head = toBeDeletedNode then
      .ok { s with
        head := headDummyNode
        consumer := .unlinked toBeDeletedNode.address headDummyNode.address }
    else .ok { s with consumer := .loop }
  | .unlinked delNode delNextNode =>
    match s.heap delNextNode with
    | none => .error .deletedNode
    | some node => .ok { s with consumer := .dataRead delNode node.data }
  | .dataRead delNode t =>
    match s.heap delNode with
    | none => .error .deletedNode
    | some _ =>
      .ok { s with heap := Function.update s.heap delNode none, consumer := .deleted t }
  | .deleted t =>
    .ok { s with count := s.count - 1, consumer := .idle, delivered := s.delivered ++ [t] }

def step (s : State T) : Action T → Except Fault (State T)
  | .enqueue p value node =>
    match s.producers p, s.heap node with
    | .idle, none =>
      if node = 0 then .error .notEnabled
      else
        .ok ({ s with heap := Function.update s.heap node (some ⟨⟨0, 0⟩, value⟩) }.setProducer p
          (.allocated value node))
    | _, _ => .error .notEnabled
  | .producer p => producerStep s p
  | .consumer => consumerStep s

/-! ## What a FIFO queue promises, and when it does -/

def Node.successor (node : Node T) : Nat := node.next.address

/-- The promises of the queue, in one state. -/
structure RefinesFifo (s : State T) : Prop where
  /-- Values come out in link order, each once. -/
  delivered_prefix : s.delivered <+: s.linked
  chain_finite : ∃ chain, IsChain Node.successor s.heap s.head.address chain
  no_deletedNode : ∀ a, step s a ≠ .error .deletedNode

/-- The tail an `Enqueue` has read and works on. -/
def EnqPc.oldTail : EnqPc T → Option NodePtr
  | .tailRead _ _ oldTailNode | .nextRead _ _ oldTailNode _ | .linked _ oldTailNode =>
    some oldTailNode
  | _ => none

/-- The node an `Enqueue` has allocated and not linked yet. -/
def EnqPc.newNode : EnqPc T → Option Nat
  | .allocated _ newNode => some newNode
  | .loop _ newNodePtr | .tailRead _ newNodePtr _ | .nextRead _ newNodePtr _ _ =>
    some newNodePtr.address
  | _ => none

/-- A node is deleted only when neither `tail` nor an `Enqueue` refers to it. -/
def DeleteUnreferenced (s : State T) (a : Action T) : Prop :=
  match a, s.consumer with
  | .consumer, .dataRead delNode _ =>
    s.tail.address ≠ delNode ∧
      ∀ p old, (s.producers p).oldTail = some old → old.address ≠ delNode
  | _, _ => True

/-! ## The invariant -/

/-- The first node of the chain the queue still works on: the node being deleted, while there is
one behind `head`. -/
def State.first (s : State T) : Nat :=
  match s.consumer with
  | .unlinked delNode _ | .dataRead delNode _ => delNode
  | _ => s.head.address

def values (heap : Nat → Option (Node T)) (chain : List Nat) : List T :=
  chain.filterMap fun a => (heap a).map Node.data

/-- The values linked and not yet returned. -/
def State.pending (s : State T) (chain : List Nat) : List T :=
  match s.consumer with
  | .deleted t => t :: values s.heap chain.tail
  | _ => values s.heap chain.tail

/-- A node nobody but its producer knows. -/
def Private (heap : Nat → Option (Node T)) (chain : List Nat) (a : Nat) (value : T) : Prop :=
  a ≠ 0 ∧ a ∉ chain ∧ heap a = some ⟨⟨0, 0⟩, value⟩

/-- `next` is the successor of the node at `a`, for good. -/
def Succeeds (heap : Nat → Option (Node T)) (a : Nat) (next : NodePtr) : Prop :=
  next.address ≠ 0 ∧ ∃ node, heap a = some node ∧ node.next = next

def EnqOk (heap : Nat → Option (Node T)) (chain : List Nat) : EnqPc T → Prop
  | .idle | .counting => True
  | .allocated value newNode => Private heap chain newNode value
  | .loop value newNodePtr => Private heap chain newNodePtr.address value
  | .tailRead value newNodePtr old =>
    Private heap chain newNodePtr.address value ∧ old.address ∈ chain
  | .nextRead value newNodePtr old next =>
    Private heap chain newNodePtr.address value ∧ old.address ∈ chain ∧
      (next.address ≠ 0 → Succeeds heap old.address next)
  | .linked newNodePtr old => old.address ∈ chain ∧ Succeeds heap old.address newNodePtr

def DeqOk (heap : Nat → Option (Node T)) (head : NodePtr) : DeqPc T → Prop
  | .idle | .loop | .deleted _ => True
  | .headRead del => del = head
  | .nextRead del next => del = head ∧ Succeeds heap del.address next
  | .unlinked delNode delNextNode =>
    delNextNode = head.address ∧ Succeeds heap delNode head
  | .dataRead delNode t =>
    Succeeds heap delNode head ∧ ∃ node, heap head.address = some node ∧ node.data = t

structure Inv (s : State T) (chain : List Nat) : Prop where
  isChain : IsChain Node.successor s.heap s.first chain
  first_ne : s.first ≠ 0
  tail_mem : s.tail.address ∈ chain
  enq : ∀ p, EnqOk s.heap chain (s.producers p)
  /-- Two producers never have the same new node. -/
  newNode_inj : ∀ p q a, (s.producers p).newNode = some a → (s.producers q).newNode = some a →
    p = q
  deq : DeqOk s.heap s.head s.consumer
  fifo : s.delivered ++ s.pending chain = s.linked

variable {s t : State T} {chain chain' : List Nat} {heap heap' : Nat → Option (Node T)}
  {head : NodePtr} {pc : EnqPc T} {dpc : DeqPc T} {p : Nat} {a : Action T}

/-- Every node keeps its data and, once it has one, its successor. -/
def Grows (heap heap' : Nat → Option (Node T)) : Prop :=
  ∀ b node, heap b = some node →
    ∃ node', heap' b = some node' ∧ node'.data = node.data ∧
      (node.next.address ≠ 0 → node'.next = node.next)

theorem Succeeds.grows {b : Nat} {next : NodePtr} (h : Succeeds heap b next)
    (hg : Grows heap heap') : Succeeds heap' b next := by
  obtain ⟨hne, node, hnode, rfl⟩ := h
  obtain ⟨node', hnode', _, hnext⟩ := hg b node hnode
  exact ⟨hne, node', hnode', hnext hne⟩

theorem DeqOk.grows (h : DeqOk heap head dpc) (hg : Grows heap heap') :
    DeqOk heap' head dpc := by
  cases dpc with
  | idle | loop | deleted => trivial
  | headRead => exact h
  | nextRead => exact ⟨h.1, h.2.grows hg⟩
  | unlinked => exact ⟨h.1, h.2.grows hg⟩
  | dataRead =>
    obtain ⟨hsucc, node, hnode, rfl⟩ := h
    obtain ⟨node', hnode', hdata, _⟩ := hg _ node hnode
    exact ⟨hsucc.grows hg, node', hnode', hdata⟩

theorem values_congr (h : ∀ b ∈ chain, (heap' b).map Node.data = (heap b).map Node.data) :
    values heap' chain = values heap chain :=
  List.filterMap_congr h

/-- A producer's knowledge survives when its new node is untouched and outside the chain, and
the tail it works on is kept. -/
theorem EnqOk.transfer (h : EnqOk heap chain pc)
    (hnew : ∀ b, pc.newNode = some b → b ∉ chain → b ∉ chain' ∧ heap' b = heap b)
    (hold : ∀ old, pc.oldTail = some old → old.address ∈ chain →
      old.address ∈ chain' ∧ ∀ next, Succeeds heap old.address next →
        Succeeds heap' old.address next) :
    EnqOk heap' chain' pc := by
  have hpriv : ∀ {b value}, pc.newNode = some b → Private heap chain b value →
      Private heap' chain' b value := fun hb ⟨h0, hout, hcell⟩ =>
    ⟨h0, (hnew _ hb hout).1, (hnew _ hb hout).2.trans hcell⟩
  cases pc with
  | idle | counting => trivial
  | allocated => exact hpriv rfl h
  | loop => exact hpriv rfl h
  | tailRead => exact ⟨hpriv rfl h.1, (hold _ rfl h.2).1⟩
  | nextRead =>
    obtain ⟨hold₁, hsucc⟩ := hold _ rfl h.2.1
    exact ⟨hpriv rfl h.1, hold₁, fun hne => hsucc _ (h.2.2 hne)⟩
  | linked =>
    obtain ⟨hold₁, hsucc⟩ := hold _ rfl h.1
    exact ⟨hold₁, hsucc _ h.2⟩

theorem EnqOk.newNode_spec (h : EnqOk heap chain pc) {b : Nat} (hb : pc.newNode = some b) :
    ∃ value, Private heap chain b value := by
  cases pc <;> simp only [EnqPc.newNode, Option.some.injEq, reduceCtorEq] at hb <;> subst hb
  · exact ⟨_, h⟩
  · exact ⟨_, h⟩
  · exact ⟨_, h.1⟩
  · exact ⟨_, h.1⟩

/-! ## Steps of the producers -/

/-- A producer moves on, with no new node or the one it has. -/
theorem Inv.setProducer (I : Inv s chain) (hpc : EnqOk s.heap chain pc)
    (hnew : pc.newNode = none ∨ pc.newNode = (s.producers p).newNode) :
    Inv (s.setProducer p pc) chain := by
  have hnode : ∀ q b, ((s.setProducer p pc).producers q).newNode = some b →
      (s.producers q).newNode = some b := by
    intro q b hb
    by_cases hq : q = p
    · subst hq
      simp only [State.setProducer, Function.update_self] at hb
      rcases hnew with hnone | hsame
      · rw [hnone] at hb; cases hb
      · rw [← hsame]; exact hb
    · simpa only [State.setProducer, Function.update_of_ne hq] using hb
  refine ⟨I.isChain, I.first_ne, I.tail_mem, fun q => ?_, fun q q' b hq hq' => ?_, I.deq, I.fifo⟩
  · by_cases hq : q = p
    · subst hq
      simpa only [State.setProducer, Function.update_self] using hpc
    · simpa only [State.setProducer, Function.update_of_ne hq] using I.enq q
  · exact I.newNode_inj q q' b (hnode q b hq) (hnode q' b hq')

theorem Inv.setTail (I : Inv s chain) {tail : NodePtr} (ht : tail.address ∈ chain) :
    Inv { s with tail := tail } chain :=
  ⟨I.isChain, I.first_ne, ht, I.enq, I.newNode_inj, I.deq, I.fifo⟩

theorem Inv.setCounters (I : Inv s chain) (count : UInt32) (index : UInt64) :
    Inv { s with count := count, index := index } chain :=
  ⟨I.isChain, I.first_ne, I.tail_mem, I.enq, I.newNode_inj, I.deq, I.fifo⟩

theorem Succeeds.mem (I : Inv s chain) {b : Nat} {next : NodePtr} (h : Succeeds s.heap b next)
    (hb : b ∈ chain) : next.address ∈ chain.tail := by
  obtain ⟨hne, node, hnode, rfl⟩ := h
  exact I.isChain.next_mem hb hnode hne

/-- `new` returns a free address. -/
theorem Inv.alloc (I : Inv s chain) {value : T} {node : Nat} (hidle : s.producers p = .idle)
    (hfree : s.heap node = none) (hne : node ≠ 0) :
    Inv ({ s with heap := Function.update s.heap node (some ⟨⟨0, 0⟩, value⟩) }.setProducer p
      (.allocated value node)) chain := by
  have hsame : ∀ b, s.heap b ≠ none → Function.update s.heap node
      (some ⟨⟨0, 0⟩, value⟩) b = s.heap b := fun b hb =>
    Function.update_of_ne (fun he => hb (by rw [he]; exact hfree)) _ _
  have hchain : ∀ b ∈ chain, s.heap b ≠ none := fun b hb hnone => by
    obtain ⟨cell, hcell⟩ := I.isChain.allocated hb
    rw [hcell] at hnone; cases hnone
  have hgrows : Grows s.heap (Function.update s.heap node (some ⟨⟨0, 0⟩, value⟩)) :=
    fun b nd hb => ⟨nd, (hsame b (by rw [hb]; nofun)).trans hb, rfl, fun _ => rfl⟩
  have hout : node ∉ chain := fun hmem => hchain node hmem hfree
  have hother : ∀ q, q ≠ p → (s.producers q).newNode ≠ some node := fun q _ hq => by
    obtain ⟨_, _, _, hcell⟩ := (I.enq q).newNode_spec hq
    rw [hfree] at hcell; cases hcell
  refine ⟨I.isChain.frame fun b hb => hsame b (hchain b hb), I.first_ne, I.tail_mem,
    fun q => ?_, fun q q' b hq hq' => ?_, I.deq.grows hgrows, ?_⟩
  · by_cases hqp : q = p
    · subst hqp
      simp only [State.setProducer, Function.update_self]
      exact ⟨hne, hout, Function.update_self ..⟩
    · simp only [State.setProducer, Function.update_of_ne hqp]
      refine (I.enq q).transfer (fun b hb hbout => ⟨hbout, hsame b ?_⟩) fun old _ hmem =>
        ⟨hmem, fun next hs => hs.grows hgrows⟩
      obtain ⟨_, _, _, hcell⟩ := (I.enq q).newNode_spec hb
      rw [hcell]; nofun
  · by_cases hqp : q = p <;> by_cases hqp' : q' = p
    · rw [hqp, hqp']
    · subst hqp
      simp only [State.setProducer, Function.update_self, Function.update_of_ne hqp',
        EnqPc.newNode, Option.some.injEq] at hq hq'
      exact absurd (hq ▸ hq') (hother q' hqp')
    · subst hqp'
      simp only [State.setProducer, Function.update_self, Function.update_of_ne hqp,
        EnqPc.newNode, Option.some.injEq] at hq hq'
      exact absurd (hq' ▸ hq) (hother q hqp)
    · simp only [State.setProducer, Function.update_of_ne hqp,
        Function.update_of_ne hqp'] at hq hq'
      exact I.newNode_inj q q' b hq hq'
  · have hvals : values (Function.update s.heap node (some ⟨⟨0, 0⟩, value⟩)) chain.tail =
        values s.heap chain.tail :=
      values_congr fun b hb => by rw [hsame b (hchain b (List.mem_of_mem_tail hb))]
    have hfifo := I.fifo
    simp only [State.pending, State.setProducer] at hfifo ⊢
    rw [hvals]
    exact hfifo

theorem tail_append_singleton {b : Nat} (hc : chain ≠ []) :
    (chain ++ [b]).tail = chain.tail ++ [b] :=
  List.tail_append_of_ne_nil hc

/-- **The link step**: a producer's node becomes the last one of the chain, and its value the
last one linked. -/
theorem Inv.link (I : Inv s chain) {value : T} {new old next : NodePtr} {oldNode : Node T}
    (hpc : s.producers p = .nextRead value new old next) (hnull : next.address = 0)
    (hold : s.heap old.address = some oldNode) (hnext : oldNode.next = next) :
    Inv ({ s with
      heap := Function.update s.heap old.address (some { oldNode with next := new })
      linked := s.linked ++ [value] }.setProducer p (.linked new old)) (chain ++ [new.address]) := by
  have hp := I.enq p
  rw [hpc] at hp
  obtain ⟨⟨hnew0, hnewOut, hnewCell⟩, holdMem, -⟩ := hp
  have hne : new.address ≠ old.address := fun he => hnewOut (he ▸ holdMem)
  have hlast : oldNode.next.address = 0 := hnext ▸ hnull
  have hsame : ∀ b, b ≠ old.address → Function.update s.heap old.address
      (some { oldNode with next := new }) b = s.heap b := fun b hb => Function.update_of_ne hb _ _
  have hgrows : Grows s.heap
      (Function.update s.heap old.address (some { oldNode with next := new })) := by
    intro b node hb
    by_cases hbo : b = old.address
    · subst hbo
      rw [hold] at hb
      cases hb
      exact ⟨_, Function.update_self .., rfl, fun h => absurd hlast h⟩
    · exact ⟨node, (hsame b hbo).trans hb, rfl, fun _ => rfl⟩
  have hchain := I.isChain.snoc holdMem hold hlast hnew0 (Function.update_self ..) rfl
    ((hsame _ hne).trans hnewCell) rfl fun c _ hc => hsame c hc
  refine ⟨hchain, I.first_ne, List.mem_append_left _ I.tail_mem, fun q => ?_,
    fun q q' b hq hq' => ?_, I.deq.grows hgrows, ?_⟩
  · by_cases hqp : q = p
    · subst hqp
      simp only [State.setProducer, Function.update_self]
      exact ⟨List.mem_append_left _ holdMem, hnew0, _, Function.update_self .., rfl⟩
    · simp only [State.setProducer, Function.update_of_ne hqp]
      refine (I.enq q).transfer (fun b hb hbout => ⟨fun hmem => ?_, hsame b fun he =>
        hbout (he ▸ holdMem)⟩) fun o _ hmem =>
        ⟨List.mem_append_left _ hmem, fun nxt hs => hs.grows hgrows⟩
      rcases List.mem_append.mp hmem with hin | heq
      · exact hbout hin
      · obtain rfl : b = new.address := by simpa using heq
        exact hqp (I.newNode_inj q p _ hb (by rw [hpc]; rfl))
  · have hget : ∀ q b, ((s.setProducer p (.linked new old)).producers q).newNode = some b →
        (s.producers q).newNode = some b := by
      intro q b hb
      by_cases hqp : q = p
      · subst hqp
        simp only [State.setProducer, Function.update_self, EnqPc.newNode, reduceCtorEq] at hb
      · simpa only [State.setProducer, Function.update_of_ne hqp] using hb
    exact I.newNode_inj q q' b (hget q b hq) (hget q' b hq')
  · have hne' : chain ≠ [] := List.ne_nil_of_mem holdMem
    have hdata : ∀ b, (Function.update s.heap old.address (some { oldNode with next := new }) b).map
        Node.data = (s.heap b).map Node.data := by
      intro b
      by_cases hbo : b = old.address
      · subst hbo; rw [Function.update_self, hold]; rfl
      · rw [hsame b hbo]
    have hvals : values (Function.update s.heap old.address (some { oldNode with next := new }))
        (chain ++ [new.address]).tail = values s.heap chain.tail ++ [value] := by
      rw [values_congr fun b _ => hdata b, tail_append_singleton hne', values,
        List.filterMap_append]
      simp only [values, List.filterMap_cons, List.filterMap_nil, hnewCell, Option.map_some]
    have hfifo := I.fifo
    simp only [State.pending, State.setProducer] at hfifo ⊢
    rw [hvals, ← hfifo]
    split <;> simp only [List.cons_append, List.append_assoc]

theorem Inv.allocated (I : Inv s chain) {b : Nat} (hb : b ∈ chain) : s.heap b ≠ none := by
  obtain ⟨cell, hcell⟩ := I.isChain.allocated hb
  rw [hcell]; nofun

/-- Every step of a producer keeps the invariant, over a chain that is at most extended. -/
theorem Inv.producerStep (I : Inv s chain) (h : MPSCQueue.producerStep s p = .ok t) :
    ∃ chain', Inv t chain' := by
  have hp := I.enq p
  unfold MPSCQueue.producerStep at h
  split at h
  · cases h
  · rename_i value newNode hpc
    cases h
    rw [hpc] at hp
    exact ⟨chain, (I.setCounters _ _).setProducer hp (Or.inr (by rw [hpc]; rfl))⟩
  · rename_i value new hpc
    cases h
    rw [hpc] at hp
    exact ⟨chain, I.setProducer ⟨hp, I.tail_mem⟩ (Or.inr (by rw [hpc]; rfl))⟩
  · rename_i value new old hpc
    rw [hpc] at hp
    split at h
    · cases h
    · rename_i oldNode hold
      cases h
      exact ⟨chain, I.setProducer ⟨hp.1, hp.2, fun hne => ⟨hne, oldNode, hold, rfl⟩⟩
        (Or.inr (by rw [hpc]; rfl))⟩
  · rename_i value new old next hpc
    have hloop : (EnqPc.loop value new).newNode = none ∨
        (EnqPc.loop value new).newNode = (s.producers p).newNode := Or.inr (by rw [hpc]; rfl)
    rw [hpc] at hp
    split at h
    · rename_i hnull
      split at h
      · cases h
      · rename_i oldNode hold
        split at h
        · rename_i hnext
          cases h
          exact ⟨_, I.link hpc hnull hold hnext⟩
        · cases h
          exact ⟨chain, I.setProducer hp.1 hloop⟩
    · -- another producer's link: `tail` is moved on for it
      rename_i hne
      cases h
      refine ⟨chain, (I.setTail ?_).setProducer hp.1 hloop⟩
      split
      · exact List.mem_of_mem_tail ((hp.2.2 hne).mem I hp.2.1)
      · exact I.tail_mem
  · rename_i new old hpc
    rw [hpc] at hp
    cases h
    refine ⟨chain, (I.setTail ?_).setProducer trivial (Or.inl rfl)⟩
    split
    · exact List.mem_of_mem_tail (hp.2.mem I hp.1)
    · exact I.tail_mem
  · cases h
    exact ⟨chain, (I.setCounters _ s.index).setProducer trivial (Or.inl rfl)⟩

/-! ## Steps of the consumer -/

/-- The consumer moves on without touching the heap. -/
theorem Inv.setConsumer (I : Inv s chain) {head : NodePtr} {dpc : DeqPc T}
    (hdeq : DeqOk s.heap head dpc)
    (hfirst : ({ s with head := head, consumer := dpc } : State T).first = s.first)
    (hpending : ({ s with head := head, consumer := dpc } : State T).pending chain =
      s.pending chain) :
    Inv { s with head := head, consumer := dpc } chain :=
  ⟨by rw [hfirst]; exact I.isChain, by rw [hfirst]; exact I.first_ne, I.tail_mem, I.enq,
    I.newNode_inj, hdeq, by rw [hpending]; exact I.fifo⟩

/-- **The deletion.**  The first node leaves the chain, its value is on its way out. -/
theorem Inv.delete (I : Inv s chain) {delNode : Nat} {v : T}
    (hpc : s.consumer = .dataRead delNode v) (htail : s.tail.address ≠ delNode)
    (holds : ∀ p old, (s.producers p).oldTail = some old → old.address ≠ delNode) :
    Inv { s with heap := Function.update s.heap delNode none, consumer := .deleted v }
      chain.tail := by
  have hdeq := I.deq
  rw [hpc] at hdeq
  obtain ⟨⟨hhead0, node, hnode, hnext⟩, headNode, hheadNode, hdata⟩ := hdeq
  have hfirst : s.first = delNode := by rw [State.first, hpc]
  have hchain := I.isChain
  have hnodup := hchain.nodup
  have hmem := hchain.start_mem I.first_ne
  rw [hfirst] at hchain hmem
  cases chain with
  | nil => cases hmem
  | cons c rest =>
    obtain ⟨rfl, -, cell, hcell, hrest⟩ := hchain
    rw [hnode] at hcell
    cases hcell
    rw [Node.successor, hnext] at hrest
    have hout : delNode ∉ rest := (List.nodup_cons.mp hnodup).1
    have hkeep : ∀ b, b ≠ delNode → Function.update s.heap delNode none b = s.heap b :=
      fun b hb => Function.update_of_ne hb _ _
    have hrestKeep : ∀ b ∈ rest, Function.update s.heap delNode none b = s.heap b :=
      fun b hb => hkeep b fun he => hout (he ▸ hb)
    have hin : ∀ b ∈ delNode :: rest, b ≠ delNode → b ∈ rest := fun b hb hne =>
      (List.mem_cons.mp hb).resolve_left hne
    refine ⟨hrest.frame hrestKeep, hhead0, hin _ I.tail_mem htail, fun q => ?_, I.newNode_inj,
      trivial, ?_⟩
    · refine (I.enq q).transfer (fun b _ hb => ⟨fun hb' => hb (List.mem_cons_of_mem _ hb'),
        hkeep b fun he => hb (he ▸ List.mem_cons_self)⟩) fun old ho hb => ?_
      have hne := holds q old ho
      exact ⟨hin _ hb hne, fun next ⟨h0, nd, hnd, hn⟩ => ⟨h0, nd, (hkeep _ hne).trans hnd, hn⟩⟩
    · -- the value behind the deleted node is the one just read
      have hfifo := I.fifo
      simp only [State.pending, hpc, List.tail_cons] at hfifo ⊢
      rw [← hfifo]
      cases rest with
      | nil => exact absurd hrest hhead0
      | cons h rest =>
        obtain ⟨rfl, _⟩ := hrest
        rw [List.tail_cons, values_congr fun b hb => by
          rw [hrestKeep b (List.mem_cons_of_mem _ hb)]]
        simp only [values, List.filterMap_cons, hheadNode, Option.map_some, hdata]

/-- Every step of the consumer keeps the invariant, if it deletes unreferenced nodes only. -/
theorem Inv.consumerStep (I : Inv s chain) (hok : DeleteUnreferenced s .consumer)
    (h : MPSCQueue.consumerStep s = .ok t) : ∃ chain', Inv t chain' := by
  have hdeq := I.deq
  unfold MPSCQueue.consumerStep at h
  split at h
  · rename_i hpc
    cases h
    exact ⟨chain, I.setConsumer trivial (by simp [State.first, hpc]) (by simp [State.pending, hpc])⟩
  · rename_i hpc
    cases h
    exact ⟨chain, I.setConsumer rfl (by simp [State.first, hpc]) (by simp [State.pending, hpc])⟩
  · rename_i del hpc
    rw [hpc] at hdeq
    split at h
    · cases h
    · rename_i node hnode
      split at h
      · cases h
        exact ⟨chain, I.setConsumer trivial (by simp [State.first, hpc])
          (by simp [State.pending, hpc])⟩
      · rename_i hne
        cases h
        exact ⟨chain, I.setConsumer ⟨hdeq, hne, node, hnode, rfl⟩ (by simp [State.first, hpc])
          (by simp [State.pending, hpc])⟩
  · rename_i del next hpc
    rw [hpc] at hdeq
    split at h
    · rename_i hhead
      cases h
      exact ⟨chain, I.setConsumer ⟨rfl, hdeq.2⟩ (by simp [State.first, hpc, hhead])
        (by simp [State.pending, hpc])⟩
    · cases h
      exact ⟨chain, I.setConsumer trivial (by simp [State.first, hpc])
        (by simp [State.pending, hpc])⟩
  · rename_i delNode delNextNode hpc
    rw [hpc] at hdeq
    split at h
    · cases h
    · rename_i node hnode
      cases h
      exact ⟨chain, I.setConsumer ⟨hdeq.2, node, hdeq.1 ▸ hnode, rfl⟩
        (by simp [State.first, hpc]) (by simp [State.pending, hpc])⟩
  · rename_i delNode v hpc
    split at h
    · cases h
    · cases h
      simp only [DeleteUnreferenced, hpc] at hok
      exact ⟨_, I.delete hpc hok.1 hok.2⟩
  · rename_i v hpc
    cases h
    have hfifo := I.fifo
    simp only [State.pending, hpc] at hfifo
    have hchain := I.isChain
    have hne := I.first_ne
    simp only [State.first, hpc] at hchain hne
    refine ⟨chain, hchain, hne, I.tail_mem, I.enq, I.newNode_inj, trivial, ?_⟩
    simpa only [State.pending, List.append_assoc, List.singleton_append] using hfifo

/-! ## Runs -/

theorem Inv.init {dummyNode : Nat} (h : dummyNode ≠ 0) (data : T) :
    Inv (MPSCQueue.init dummyNode data) [dummyNode] := by
  have hdummy : (MPSCQueue.init dummyNode data).heap dummyNode = some ⟨⟨0, 0⟩, data⟩ := by
    simp only [MPSCQueue.init, Function.update_self]
  refine ⟨⟨rfl, h, _, hdummy, rfl⟩, h, List.mem_singleton_self _, fun _ => trivial,
    fun p q a hp => ?_, trivial, rfl⟩
  simp only [MPSCQueue.init, EnqPc.newNode, reduceCtorEq] at hp

theorem Inv.step (I : Inv s chain) (hok : DeleteUnreferenced s a)
    (h : MPSCQueue.step s a = .ok t) : ∃ chain', Inv t chain' := by
  cases a with
  | enqueue p value node =>
    simp only [MPSCQueue.step] at h
    split at h
    · rename_i hidle hfree
      split at h
      · cases h
      · rename_i hne
        cases h
        exact ⟨chain, I.alloc hidle hfree hne⟩
    · cases h
  | producer p => exact I.producerStep h
  | consumer => exact I.consumerStep hok h

/-- No step from a good state touches a deleted node. -/
theorem Inv.no_deletedNode (I : Inv s chain) (a : Action T) :
    MPSCQueue.step s a ≠ .error .deletedNode := by
  intro h
  cases a with
  | enqueue p value node =>
    simp only [MPSCQueue.step] at h
    split at h
    · split at h <;> cases h
    · cases h
  | producer p =>
    have hp := I.enq p
    simp only [MPSCQueue.step, MPSCQueue.producerStep] at h
    split at h <;> try cases h
    · rename_i hpc
      rw [hpc] at hp
      split at h
      · rename_i hnone; exact I.allocated hp.2 hnone
      · cases h
    · rename_i hpc
      rw [hpc] at hp
      split at h
      · split at h
        · rename_i hnone; exact I.allocated hp.2.1 hnone
        · split at h <;> cases h
      · cases h
  | consumer =>
    have hdeq := I.deq
    simp only [MPSCQueue.step, MPSCQueue.consumerStep] at h
    split at h <;> try cases h
    · rename_i hpc
      rw [hpc] at hdeq
      split at h
      · rename_i hnone
        have hmem := I.isChain.start_mem I.first_ne
        simp only [State.first, hpc] at hmem
        exact I.allocated (hdeq ▸ hmem) hnone
      · split at h <;> cases h
    · split at h <;> cases h
    · rename_i hpc
      rw [hpc] at hdeq
      split at h
      · rename_i hnone
        have hmem := I.isChain.start_mem I.first_ne
        simp only [State.first, hpc] at hmem
        exact I.allocated (List.mem_of_mem_tail (hdeq.2.mem I hmem)) (hdeq.1 ▸ hnone)
      · cases h
    · rename_i hpc
      rw [hpc] at hdeq
      obtain ⟨⟨_, node, hnode, _⟩, _⟩ := hdeq
      rw [hnode] at h
      cases h

theorem Inv.refinesFifo (I : Inv s chain) : RefinesFifo s := by
  refine ⟨⟨_, I.fifo⟩, ?_, I.no_deletedNode⟩
  have hdeq := I.deq
  have hchain := I.isChain
  have hbehind : ∀ delNode, s.first = delNode → Succeeds s.heap delNode s.head →
      ∃ chain, IsChain Node.successor s.heap s.head.address chain := by
    rintro delNode hfirst ⟨_, node, hnode, hnext⟩
    cases chain with
    | nil => exact absurd hchain I.first_ne
    | cons c rest =>
      obtain ⟨_, -, cell, hcell, hrest⟩ := hchain
      rw [hfirst, hnode] at hcell
      cases hcell
      rw [Node.successor, hnext] at hrest
      exact ⟨rest, hrest⟩
  cases hpc : s.consumer with
  | unlinked delNode next =>
    rw [hpc] at hdeq
    exact hbehind delNode (by rw [State.first, hpc]) hdeq.2
  | dataRead delNode v =>
    rw [hpc] at hdeq
    exact hbehind delNode (by rw [State.first, hpc]) hdeq.1
  | idle | loop | headRead | nextRead | deleted =>
    simp only [State.first, hpc] at hchain
    exact ⟨chain, hchain⟩

/-- **`MPSCQueue` is a FIFO queue** in every state of every run, of any number of concurrent
`Enqueue` calls and one consumer over recycled addresses, in which a node is deleted only when
neither `tail` nor an `Enqueue` refers to it. -/
theorem run_refinesFifo {dummyNode : Nat} {data : T} {as : List (Action T)} (h : dummyNode ≠ 0)
    (hr : Run (fun s a t => step s a = .ok t) DeleteUnreferenced (init dummyNode data) as t) :
    RefinesFifo t := by
  obtain ⟨chain, I⟩ : ∃ chain, Inv t chain := by
    refine Run.invariant (I := fun s => ∃ chain, Inv s chain) hr ⟨_, Inv.init h data⟩ ?_
    rintro x a y ⟨chain, I⟩ hok hstep
    exact I.step hok hstep
  exact I.refinesFifo

/-- One value goes through: enqueued by producer `0`, then taken by the consumer. -/
theorem run_refinesFifo_one_value :
    ∃ t, Run (fun s a t => step s a = .ok t) DeleteUnreferenced (init 8 0)
        [.enqueue 0 5 16, .producer 0, .producer 0, .producer 0, .producer 0, .producer 0,
          .producer 0, .consumer, .consumer, .consumer, .consumer, .consumer, .consumer, .consumer] t ∧
      t.delivered = [5] ∧ RefinesFifo t := by
  obtain ⟨t, hrun, hdelivered⟩ : ∃ t, Run (fun s a t => step s a = .ok t) DeleteUnreferenced
      (init 8 0)
        [.enqueue 0 5 16, .producer 0, .producer 0, .producer 0, .producer 0, .producer 0,
          .producer 0, .consumer, .consumer, .consumer, .consumer, .consumer, .consumer, .consumer]
        t ∧ t.delivered = [5] :=
    ⟨_, .cons rfl (by trivial) <| .cons rfl (by trivial) <| .cons rfl (by trivial) <| .cons rfl (by trivial) <|
      .cons rfl (by trivial) <| .cons rfl (by trivial) <| .cons rfl (by trivial) <| .cons rfl (by trivial) <|
      .cons rfl (by trivial) <| .cons rfl (by trivial) <| .cons rfl (by trivial) <| .cons rfl (by trivial) <|
      .cons rfl (by
        refine ⟨by decide, fun p old h => ?_⟩
        simp [State.setProducer, init, EnqPc.oldTail] at h) <|
      .cons rfl (by trivial) .nil, rfl⟩
  exact ⟨t, hrun, hdelivered, run_refinesFifo (by decide) hrun⟩

/-- The consumer deletes the dummy node that the lagging `tail` still points to, and the next
`Enqueue` reads its `next`. -/
theorem lagging_tail_deleted :
    ¬ ∀ as t, Run (fun s a t => step s a = .ok t) anyStep (init 8 0) as t → RefinesFifo t := by
  intro h
  have hrun := h [.enqueue 0 1 16, .producer 0, .producer 0, .producer 0, .producer 0, .consumer,
    .consumer, .consumer, .consumer, .consumer, .consumer, .enqueue 1 2 24, .producer 1,
    .producer 1] _ (runFn_iff_run.mp rfl)
  exact hrun.no_deletedNode (.producer 1) rfl

end MPSCQueue

end IocpServer
