import IocpServer.Lib.Counter
import IocpServer.Lib.TaggedNodes
import IocpServer.Lib.Threads
import IocpServer.Lib.Run

/-!
# `LockFreeStack`

Model of `LockFreeStack.h` at the granularity of its atomic steps.  Any number of threads are inside
`Push` or `Pop`; a step advances one of them.  Nodes come from a pool that never gives memory back,
so every address can be read at any time; one that is in the pool may be written by whoever else
uses the pool.

A node's tag is drawn once, at the start of the `Push` that links it.  A `Pop` whose compare-exchange
succeeds has therefore met the same use of the node that it read if the node has not been pushed
again, or if fewer than `2 ^ 17` tags were drawn since that node's, and not merely since the `Pop`
began.

* `Lifo` — the legal histories of a stack.
* `TagFresh` — the condition, on a `Pop` about to succeed.
* `Inv` — the list at `top` holds the values pushed and not popped, and `count` lags behind it.
* `run_lifo` — **under the condition every run is a stack history.**
-/

set_option autoImplicit false

namespace IocpServer

open Lib Tagged

namespace LockFreeStack

/-- A 17-bit index and a 47-bit address. -/
abbrev NodePtr := Ptr

/-- The number of tags. -/
def tags : Nat := 0x1FFFF + 1

/-- Where a thread stands. -/
inductive Pc (T : Type) where
  | idle
  /-- In `Push`, behind `Alloc` and the write of `data`. -/
  | allocated (newNode : Nat)
  /-- At the head of the loop of `Push`. -/
  | drawn (newTop : NodePtr)
  | topRead (newTop oldTop : NodePtr)
  | nextWritten (newTop oldTop : NodePtr)
  /-- Behind the compare-exchange on `Top`. -/
  | pushed
  /-- At the head of the first loop of `Pop`. -/
  | counting
  | countRead (oldCount : UInt32)
  /-- At the head of the second loop of `Pop`. -/
  | popping
  /-- `serial` (history) is that of the node at `toBeDeletedTop`. -/
  | popTopRead (toBeDeletedTop : NodePtr) (serial : Nat)
  | popNextRead (toBeDeletedTop newTop : NodePtr) (serial : Nat)
  /-- Behind the compare-exchange on `Top`; `value` (history) is what it took. -/
  | popped (delNode : Nat) (value : T)
  | dataRead (delNode : Nat) (data value : T)

/-- A successful compare-exchange on `Top`. -/
inductive Event (T : Type) where
  | push (value : T)
  | pop (value : T)

structure State (T : Type) where
  nodes : Nodes Nat T
  top : NodePtr
  index : UInt32
  count : UInt32
  threads : List (Pc T)
  /-- History: the serials drawn when the thread's call began. -/
  started : Nat → Nat
  increments : Nat
  decrements : Nat
  events : List (Event T)
  /-- What the calls of `Pop` returned, beside what their compare-exchange took. -/
  returned : List (T × T)
  /-- How often a `Pop` behind its decrement has found `Top` null. -/
  emptyTops : Nat

inductive Action (T : Type) where
  /-- Thread `i` calls `Push(value)`, and `Alloc` returns `newNode`. -/
  | push (i : Nat) (value : T) (newNode : Nat)
  /-- Thread `i` calls `Pop()`. -/
  | pop (i : Nat)
  /-- The next atomic step of thread `i`. -/
  | go (i : Nat)
  /-- Another user of the pool writes a node of the pool. -/
  | reuse (a : Nat) (node : Node T)

variable {T : Type}

/-- An empty stack and `n` threads; `mem` is what is in the nodes of the pool. -/
def init (n : Nat) (mem : Nat → Node T) : State T where
  nodes := ⟨mem, fun _ => .pool, fun _ => 0, 0⟩
  top := ⟨0, 0⟩
  index := 0
  count := 0
  threads := List.replicate n .idle
  started := fun _ => 0
  increments := 0
  decrements := 0
  events := []
  returned := []
  emptyTops := 0

def State.goto (s : State T) (i : Nat) (pc : Pc T) : State T :=
  { s with threads := s.threads.set i pc }

/-- The next atomic step of thread `i`. -/
def go (s : State T) (i : Nat) : Pc T → Option (State T)
  | .idle => none
  | .allocated newNode =>
    let indexCnt := (s.index + 1) &&& 0x1FFFF
    some ({ s with index := s.index + 1, nodes := s.nodes.draw i newNode }.goto i
      (.drawn ⟨indexCnt.toNat, newNode⟩))
  | .drawn newTop => some (s.goto i (.topRead newTop s.top))
  | .topRead newTop oldTop =>
    let newNode := s.nodes.mem newTop.address
    some ({ s with nodes := s.nodes.write newTop.address { newNode with next := oldTop } }.goto i
      (.nextWritten newTop oldTop))
  | .nextWritten newTop oldTop =>
    if s.top = oldTop then
      some ({ s with
        top := newTop
        nodes := s.nodes.pass newTop.address .linked
        events := s.events ++ [Event.push (s.nodes.mem newTop.address).data] }.goto i .pushed)
    else some (s.goto i (.drawn newTop))
  | .pushed => some ({ s with count := s.count + 1, increments := s.increments + 1 }.goto i .idle)
  | .counting =>
    -- `oldCount` is an `int`
    if s.count.toInt32 ≤ 0 then some (s.goto i .idle) else some (s.goto i (.countRead s.count))
  | .countRead oldCount =>
    if s.count = oldCount then
      some ({ s with count := oldCount - 1, decrements := s.decrements + 1 }.goto i .popping)
    else some (s.goto i .counting)
  | .popping =>
    if s.top.address = 0 then some ({ s with emptyTops := s.emptyTops + 1 }.goto i .idle)
    else some (s.goto i (.popTopRead s.top (s.nodes.born s.top.address)))
  | .popTopRead top serial =>
    some (s.goto i (.popNextRead top (s.nodes.mem top.address).next serial))
  | .popNextRead top newTop _ =>
    if s.top = top then
      some ({ s with
        top := newTop
        nodes := s.nodes.pass top.address (.removed i)
        events := s.events ++ [Event.pop (s.nodes.mem top.address).data] }.goto i
          (.popped top.address (s.nodes.mem top.address).data))
    else some (s.goto i .popping)
  | .popped delNode value => some (s.goto i (.dataRead delNode (s.nodes.mem delNode).data value))
  | .dataRead delNode data value =>
    some ({ s with
      nodes := s.nodes.pass delNode .pool
      returned := s.returned ++ [(data, value)] }.goto i .idle)

def step (s : State T) : Action T → Option (State T)
  | .push i value newNode =>
    match s.threads[i]?, s.nodes.owner newNode with
    | some .idle, .pool =>
      if newNode = 0 then none
      else
        some ({ s with
          nodes := s.nodes.alloc i newNode { s.nodes.mem newNode with data := value }
          started := Function.update s.started i s.nodes.drawn }.goto i (.allocated newNode))
    | _, _ => none
  | .pop i =>
    match s.threads[i]? with
    | some .idle =>
      some ({ s with started := Function.update s.started i s.nodes.drawn }.goto i .counting)
    | _ => none
  | .go i =>
    match s.threads[i]? with
    | some pc => go s i pc
    | none => none
  | .reuse a node =>
    match s.nodes.owner a with
    | .pool => some { s with nodes := s.nodes.write a node }
    | _ => none

/-! ## Stack histories -/

/-- A legal history of a stack, and the stack it leaves. -/
inductive Lifo : List (Event T) → List T → Prop
  | nil : Lifo [] []
  | push {events : List (Event T)} {stack : List T} (h : Lifo events stack) (value : T) :
      Lifo (events ++ [.push value]) (value :: stack)
  | pop {events : List (Event T)} {stack : List T} {value : T} (h : Lifo events (value :: stack)) :
      Lifo (events ++ [.pop value]) stack

/-- When the compare-exchange of a `Pop` is about to succeed, the tag of the node it has read is one
of the last `2 ^ 17` that were drawn, or the last that was drawn for that node. -/
def TagFresh (s : State T) : Action T → Prop
  | .go i => ∀ newTop serial, s.threads[i]? = some (.popNextRead s.top newTop serial) →
    Fresh tags s.nodes s.top serial
  | _ => True

/-! ## The invariant -/

def PcOk (n : Nodes Nat T) (i : Nat) : Pc T → Prop
  | .idle | .pushed | .counting | .popping => True
  | .allocated newNode => newNode ≠ 0 ∧ n.owner newNode = .allocated i
  | .drawn newTop | .topRead newTop _ => Held tags n i newTop
  | .nextWritten newTop oldTop => Held tags n i newTop ∧ (n.mem newTop.address).next = oldTop
  | .countRead oldCount => oldCount ≠ 0
  | .popTopRead top serial => Seen tags n top serial
  | .popNextRead top newTop serial =>
    Seen tags n top serial ∧ (Current n top serial → (n.mem top.address).next = newTop)
  | .popped delNode value => n.owner delNode = .removed i ∧ (n.mem delNode).data = value
  | .dataRead delNode data value => n.owner delNode = .removed i ∧ data = value

/-- A `Push` that has linked its node and not counted it. -/
def Pc.raising : Pc T → Nat
  | pushed => 1
  | _ => 0

/-- A `Pop` that has lowered `count` and not taken a node. -/
def Pc.taking : Pc T → Nat
  | popping | popTopRead _ _ | popNextRead _ _ _ => 1
  | _ => 0

def values (n : Nodes Nat T) (chain : List Nat) : List T := chain.map fun a => (n.mem a).data

structure Inv (s : State T) (chain : List Nat) : Prop where
  list : Chain tags s.nodes s.top chain
  counted : Counted s.nodes
  threads : ∀ i pc, s.threads[i]? = some pc → PcOk s.nodes i pc
  index : s.index = UInt32.ofNat s.nodes.drawn
  length : chain.length + s.decrements =
    s.increments + total Pc.raising s.threads + total Pc.taking s.threads
  lowered : s.decrements ≤ s.increments
  count : s.count = UInt32.ofNat (s.increments - s.decrements)
  lifo : Lifo s.events (values s.nodes chain)
  returned : ∀ e ∈ s.returned, e.1 = e.2
  emptyTops : s.emptyTops = 0

theorem Inv.init (n : Nat) (mem : Nat → Node T) : Inv (init n mem) [] := by
  have idle : ∀ f : Pc T → Nat, f .idle = 0 → total f (List.replicate n .idle) = 0 := fun f hf =>
    total_eq_zero fun pc hpc => by rw [List.eq_of_mem_replicate hpc, hf]
  refine ⟨⟨rfl, List.nodup_nil, by simp [LockFreeStack.init]⟩, fun _ => Nat.le_refl 0, ?_, rfl, ?_,
    Nat.le_refl 0, rfl, .nil, by simp [LockFreeStack.init], rfl⟩
  · intro i pc h
    rw [List.eq_of_mem_replicate (List.mem_of_getElem? h)]
    trivial
  · simp [LockFreeStack.init, idle Pc.raising rfl, idle Pc.taking rfl]

variable {s t : State T} {chain : List Nat} {n n' : Nodes Nat T} {i j a : Nat} {pc pc' q : Pc T}

/-- A thread is not concerned by a change of a node that is not in its hands. -/
theorem PcOk.foreign (h : PcOk n j q) (counted : Counted n) (L : Local n n' a)
    (ha : ¬ (n.owner a).By j) : PcOk n' j q := by
  cases q with
  | idle | pushed | counting | popping => trivial
  | countRead oldCount => exact h
  | allocated newNode =>
    obtain ⟨-, owner, -⟩ := L.held ha (b := newNode) (by rw [h.2]; rfl)
    exact ⟨h.1, owner.trans h.2⟩
  | drawn newTop => exact (h.frame L ha).1
  | topRead newTop oldTop => exact (h.frame L ha).1
  | nextWritten newTop oldTop =>
    obtain ⟨H, mem⟩ := h.1.frame L ha
    exact ⟨H, by rw [mem]; exact h.2⟩
  | popTopRead top serial => exact h.harmless counted L.harmless
  | popNextRead top newTop serial =>
    refine ⟨h.1.harmless counted L.harmless, fun hc => ?_⟩
    have before := Current.harmless h.1 L.harmless hc
    rw [L.linked_mem before.1]
    exact h.2 before
  | popped delNode value =>
    obtain ⟨mem, owner, -⟩ := L.held ha (b := delNode) (by rw [h.1]; rfl)
    exact ⟨owner.trans h.1, by rw [mem]; exact h.2⟩
  | dataRead delNode data value =>
    obtain ⟨-, owner, -⟩ := L.held ha (b := delNode) (by rw [h.1]; rfl)
    exact ⟨owner.trans h.1, h.2⟩

/-- The threads after thread `i`, which had the changed node if any thread had, has moved. -/
theorem Inv.move (I : Inv s chain) (L : Local s.nodes n' a) (ha : ∀ j, j ≠ i → ¬ (s.nodes.owner a).By j)
    (own : PcOk n' i pc') :
    ∀ j q, (s.threads.set i pc')[j]? = some q → PcOk n' j q := by
  intro j q hq
  rcases getElem?_set_cases hq with ⟨rfl, rfl⟩ | ⟨hij, hq⟩
  · exact own
  · exact (I.threads j q hq).foreign I.counted L (ha j (Ne.symm hij))

theorem Inv.stay (I : Inv s chain) (own : PcOk s.nodes i pc') :
    ∀ j q, (s.threads.set i pc')[j]? = some q → PcOk s.nodes j q := by
  intro j q hq
  rcases getElem?_set_cases hq with ⟨rfl, rfl⟩ | ⟨-, hq⟩
  · exact own
  · exact I.threads j q hq

/-- A step that changes nothing but where the thread stands. -/
theorem Inv.goto (I : Inv s chain) (hi : s.threads[i]? = some pc) (own : PcOk s.nodes i pc')
    (raising : pc'.raising = pc.raising) (taking : pc'.taking = pc.taking) :
    Inv (s.goto i pc') chain := by
  refine ⟨I.list, I.counted, I.stay own, I.index, ?_, I.lowered, I.count, I.lifo, I.returned,
    I.emptyTops⟩
  show chain.length + s.decrements = s.increments + total Pc.raising (s.threads.set i pc')
    + total Pc.taking (s.threads.set i pc')
  rw [total_set_of_eq hi raising, total_set_of_eq hi taking]
  exact I.length

/-- The drawn serial is the tag, modulo `tags`. -/
theorem tag_eq (drawn : Nat) :
    ((UInt32.ofNat drawn + 1) &&& 0x1FFFF).toNat = (drawn + 1) % tags := by
  have mask : (0x1FFFF : UInt32).toNat = 2 ^ 17 - 1 := rfl
  rw [UInt32.toNat_and, mask, Nat.and_two_pow_sub_one_eq_mod, UInt32.toNat_add,
    UInt32.toNat_ofNat', tags]
  simp

theorem Inv.values_eq (I : Inv s chain) (L : Local s.nodes n' a) :
    values n' chain = values s.nodes chain := by
  apply List.map_congr_left
  intro b hb
  rw [L.linked_mem ((I.list.tracks.mem b).mp hb)]

/-- A step on a node that is not in the list, before and after. -/
theorem Inv.private (I : Inv s chain) (L : Local s.nodes n' a) (counted : Counted n')
    (ha : s.nodes.owner a ≠ .linked) (ha' : n'.owner a ≠ .linked) {threads : List (Pc T)}
    (ok : ∀ j q, threads[j]? = some q → PcOk n' j q)
    (raising : total Pc.raising threads = total Pc.raising s.threads)
    (taking : total Pc.taking threads = total Pc.taking s.threads)
    {index : UInt32} (drawn : index = UInt32.ofNat n'.drawn) {started : Nat → Nat}
    {returned : List (T × T)} (same : ∀ e ∈ returned, e.1 = e.2) :
    Inv { s with nodes := n', index := index, started := started, threads := threads,
                 returned := returned } chain := by
  refine ⟨I.list.frame L ha ha', counted, ok, drawn, ?_, I.lowered, I.count, ?_, same, I.emptyTops⟩
  · show chain.length + s.decrements = s.increments + total Pc.raising threads
      + total Pc.taking threads
    rw [raising, taking]
    exact I.length
  · show Lifo s.events (values n' chain)
    rw [I.values_eq L]
    exact I.lifo

theorem Inv.alloc (I : Inv s chain) (hi : s.threads[i]? = some .idle) {newNode : Nat}
    (h0 : newNode ≠ 0) (pool : s.nodes.owner newNode = .pool) (node : Node T)
    {started : Nat → Nat} : Inv ({ s with
      nodes := s.nodes.alloc i newNode node
      started := started }.goto i (.allocated newNode)) chain := by
  have L := Local.alloc (a := newNode) (by rw [pool]; nofun) i node
  apply I.private L I.counted (by rw [pool]; nofun) (by simp [Nodes.alloc])
  · exact I.move L (by simp [pool, Owner.By]) ⟨h0, by simp [Nodes.alloc]⟩
  · exact total_set_of_eq hi rfl
  · exact total_set_of_eq hi rfl
  · exact I.index
  · exact I.returned

theorem Inv.draw (I : Inv s chain) {newNode : Nat} (hi : s.threads[i]? = some (.allocated newNode)) :
    Inv ({ s with index := s.index + 1, nodes := s.nodes.draw i newNode }.goto i
      (.drawn ⟨((s.index + 1) &&& 0x1FFFF).toNat, newNode⟩)) chain := by
  obtain ⟨h0, owner⟩ := I.threads i _ hi
  have L := Local.draw I.counted i newNode
  apply I.private L (I.counted.draw i newNode) (by rw [owner]; nofun) (by simp [Nodes.draw])
  · refine I.move L (Owner.By.other (by rw [owner]; rfl)) ⟨h0, by simp [Nodes.draw], ?_⟩
    show ((s.index + 1) &&& 0x1FFFF).toNat = Function.update s.nodes.born _ _ newNode % tags
    rw [I.index, tag_eq, Function.update_self]
  · exact total_set_of_eq hi rfl
  · exact total_set_of_eq hi rfl
  · rw [I.index]
    exact (UInt32.ofNat_add _ _).symm
  · exact I.returned

theorem Inv.write (I : Inv s chain) {newTop oldTop : NodePtr}
    (hi : s.threads[i]? = some (.topRead newTop oldTop)) :
    Inv ({ s with
      nodes := s.nodes.write newTop.address { s.nodes.mem newTop.address with next := oldTop }
      }.goto i (.nextWritten newTop oldTop)) chain := by
  have H := I.threads i _ hi
  have outside : s.nodes.owner newTop.address ≠ .linked := by rw [H.owner]; nofun
  have L := Local.write outside { s.nodes.mem newTop.address with next := oldTop }
  apply I.private L I.counted outside outside
  · refine I.move L (Owner.By.other (by rw [H.owner]; rfl)) ⟨⟨H.address, H.owner, H.index⟩, ?_⟩
    simp [Nodes.write]
  · exact total_set_of_eq hi rfl
  · exact total_set_of_eq hi rfl
  · exact I.index
  · exact I.returned

theorem Inv.free (I : Inv s chain) {delNode : Nat} {data value : T}
    (hi : s.threads[i]? = some (.dataRead delNode data value)) :
    Inv ({ s with
      nodes := s.nodes.pass delNode .pool
      returned := s.returned ++ [(data, value)] }.goto i .idle) chain := by
  obtain ⟨owner, same⟩ := I.threads i _ hi
  have L := Local.pass s.nodes delNode (o := .pool) (Or.inr (Or.inl rfl))
  apply I.private L I.counted (by rw [owner]; nofun) (by simp [Nodes.pass])
  · exact I.move L (Owner.By.other (by rw [owner]; rfl)) trivial
  · exact total_set_of_eq hi rfl
  · exact total_set_of_eq hi rfl
  · exact I.index
  · intro e he
    rcases List.mem_append.mp he with he | he
    · exact I.returned e he
    · rw [List.mem_singleton.mp he]
      exact same

theorem Inv.reuse (I : Inv s chain) (pool : s.nodes.owner a = .pool) (node : Node T) :
    Inv { s with nodes := s.nodes.write a node } chain := by
  have outside : s.nodes.owner a ≠ .linked := by rw [pool]; nofun
  have L := Local.write outside node
  apply I.private L I.counted outside outside
  · exact fun j q hq => (I.threads j q hq).foreign I.counted L (by simp [pool, Owner.By])
  · rfl
  · rfl
  · exact I.index
  · exact I.returned

/-- The compare-exchange of `Push`. -/
theorem Inv.link (I : Inv s chain) {newTop : NodePtr}
    (hi : s.threads[i]? = some (.nextWritten newTop s.top)) :
    Inv ({ s with
      top := newTop
      nodes := s.nodes.pass newTop.address .linked
      events := s.events ++ [Event.push (s.nodes.mem newTop.address).data] }.goto i .pushed)
      (newTop.address :: chain) := by
  obtain ⟨H, next⟩ := I.threads i _ hi
  have L := Local.pass s.nodes newTop.address (o := .linked) (Or.inl ⟨rfl, i, H.owner⟩)
  have h₁ := @total_set _ Pc.raising _ _ _ .pushed hi
  have h₂ := @total_set _ Pc.taking _ _ _ .pushed hi
  have length := I.length
  have linked := I.list.push H.address (by rw [H.owner]; nofun) next
  rw [← H.index] at linked
  refine ⟨linked, I.counted, I.move L (Owner.By.other (by rw [H.owner]; rfl)) trivial, I.index, ?_,
    I.lowered, I.count, ?_, I.returned, I.emptyTops⟩
  · simp only [State.goto, Pc.raising, Pc.taking, List.length_cons] at h₁ h₂ ⊢
    omega
  · exact I.lifo.push _

/-- **The compare-exchange of `Pop`**: what was read is still so. -/
theorem Inv.unlink (I : Inv s chain) {newTop : NodePtr} {serial : Nat}
    (hi : s.threads[i]? = some (.popNextRead s.top newTop serial))
    (fresh : Fresh tags s.nodes s.top serial) : ∃ chain', Inv ({ s with
      top := newTop
      nodes := s.nodes.pass s.top.address (.removed i)
      events := s.events ++ [Event.pop (s.nodes.mem s.top.address).data] }.goto i
        (.popped s.top.address (s.nodes.mem s.top.address).data)) chain' := by
  obtain ⟨seen, next⟩ := I.threads i _ hi
  have current := I.list.current I.counted seen fresh
  cases chain with
  | nil => exact absurd (congrArg Ptr.address I.list.linked) seen.address
  | cons a chain =>
    have first : s.top.address = a := congrArg Ptr.address I.list.linked.2.1
    have popped := I.list.pop (o := .removed i) (by nofun)
    have L := Local.pass s.nodes a (o := .removed i) (Or.inr (Or.inr ⟨i, rfl⟩))
    have h₁ := @total_set _ Pc.raising _ _ _ (.popped a (s.nodes.mem a).data) hi
    have h₂ := @total_set _ Pc.taking _ _ _ (.popped a (s.nodes.mem a).data) hi
    have length := I.length
    have linked : s.nodes.owner a = .linked := first ▸ current.1
    rw [first] at next ⊢
    rw [next current] at popped
    refine ⟨chain, popped, I.counted, I.move L (fun j _ => by rw [linked]; exact id)
      ⟨Function.update_self _ _ _, rfl⟩, I.index, ?_, I.lowered, I.count, ?_, I.returned, I.emptyTops⟩
    · simp only [State.goto, Pc.raising, Pc.taking, List.length_cons] at h₁ h₂ length ⊢
      omega
    · exact I.lifo.pop

/-- A `Push` counts the node it has linked. -/
theorem Inv.raise (I : Inv s chain) (hi : s.threads[i]? = some .pushed) :
    Inv ({ s with count := s.count + 1, increments := s.increments + 1 }.goto i .idle) chain := by
  have h₁ := @total_set _ Pc.raising _ _ _ .idle hi
  have h₂ := @total_set _ Pc.taking _ _ _ .idle hi
  have length := I.length
  have lowered := I.lowered
  refine ⟨I.list, I.counted, I.stay trivial, I.index, ?_, ?_, ?_, I.lifo, I.returned, I.emptyTops⟩
  · simp only [State.goto, Pc.raising, Pc.taking] at h₁ h₂ ⊢
    omega
  · show s.decrements ≤ s.increments + 1
    omega
  · show s.count + 1 = UInt32.ofNat (s.increments + 1 - s.decrements)
    rw [I.count, ofNat_succ_sub lowered]

/-- A `Pop` lowers `count`, which it has read and found positive. -/
theorem Inv.lower (I : Inv s chain) (hi : s.threads[i]? = some (.countRead s.count)) :
    Inv ({ s with count := s.count - 1, decrements := s.decrements + 1 }.goto i .popping) chain := by
  have positive : s.count ≠ 0 := I.threads i _ hi
  have counted : s.decrements < s.increments := lt_of_ofNat_sub_ne_zero (I.count ▸ positive)
  have h₁ := @total_set _ Pc.raising _ _ _ .popping hi
  have h₂ := @total_set _ Pc.taking _ _ _ .popping hi
  have length := I.length
  refine ⟨I.list, I.counted, I.stay trivial, I.index, ?_, counted, ?_, I.lifo, I.returned,
    I.emptyTops⟩
  · simp only [State.goto, Pc.raising, Pc.taking] at h₁ h₂ ⊢
    omega
  · show s.count - 1 = UInt32.ofNat (s.increments - (s.decrements + 1))
    rw [I.count, ofNat_sub_succ counted]

/-- A `Pop` that has lowered `count` finds a node. -/
theorem Inv.top_ne_null (I : Inv s chain) (hi : s.threads[i]? = some .popping) :
    s.top.address ≠ 0 := by
  intro h
  have empty := I.list.linked.nil_of_null h
  have taking := @holds_le_total _ Pc.taking _ _ _ hi
  have length := I.length
  have lowered := I.lowered
  rw [empty] at length
  simp only [Pc.taking, List.length_nil] at taking length
  omega

/-- **A step of a thread.** -/
theorem Inv.go (I : Inv s chain) (hi : s.threads[i]? = some pc)
    (fresh : ∀ newTop serial, pc = .popNextRead s.top newTop serial →
      Fresh tags s.nodes s.top serial)
    (h : go s i pc = some t) : ∃ chain', Inv t chain' := by
  cases pc with
  | idle => cases h
  | allocated newNode =>
    cases h
    exact ⟨chain, I.draw hi⟩
  | drawn newTop =>
    have held : Held tags s.nodes i newTop := I.threads i _ hi
    cases h
    exact ⟨chain, I.goto hi held rfl rfl⟩
  | topRead newTop oldTop =>
    cases h
    exact ⟨chain, I.write hi⟩
  | nextWritten newTop oldTop =>
    simp only [LockFreeStack.go] at h
    split at h
    · rename_i same
      subst same
      cases h
      exact ⟨_, I.link hi⟩
    · cases h
      exact ⟨chain, I.goto hi (I.threads i _ hi).1 rfl rfl⟩
  | pushed =>
    cases h
    exact ⟨chain, I.raise hi⟩
  | counting =>
    simp only [LockFreeStack.go] at h
    split at h
    · cases h
      exact ⟨chain, I.goto hi trivial rfl rfl⟩
    · rename_i positive
      cases h
      exact ⟨chain, I.goto hi (ne_zero_of_positive positive) rfl rfl⟩
  | countRead oldCount =>
    simp only [LockFreeStack.go] at h
    split at h
    · rename_i same
      subst same
      cases h
      exact ⟨chain, I.lower hi⟩
    · cases h
      exact ⟨chain, I.goto hi trivial rfl rfl⟩
  | popping =>
    have found := I.top_ne_null hi
    simp only [LockFreeStack.go, if_neg found] at h
    cases h
    exact ⟨chain, I.goto hi (I.list.seen found).1 rfl rfl⟩
  | popTopRead top serial =>
    cases h
    exact ⟨chain, I.goto hi ⟨I.threads i _ hi, fun _ => rfl⟩ rfl rfl⟩
  | popNextRead top newTop serial =>
    simp only [LockFreeStack.go] at h
    split at h
    · rename_i same
      subst same
      cases h
      exact I.unlink hi (fresh newTop serial rfl)
    · cases h
      exact ⟨chain, I.goto hi trivial rfl rfl⟩
  | popped delNode value =>
    obtain ⟨owner, data⟩ := I.threads i _ hi
    cases h
    exact ⟨chain, I.goto hi ⟨owner, data⟩ rfl rfl⟩
  | dataRead delNode data value =>
    cases h
    exact ⟨chain, I.free hi⟩

/-- **Every step keeps the list, the counts and the history together.** -/
theorem Inv.step {action : Action T} (I : Inv s chain) (fresh : TagFresh s action)
    (h : step s action = some t) : ∃ chain', Inv t chain' := by
  cases action with
  | push i value newNode =>
    simp only [LockFreeStack.step] at h
    split at h
    · rename_i hi pool
      split at h
      · cases h
      · rename_i h0
        cases h
        exact ⟨chain, I.alloc hi h0 pool _⟩
    · cases h
  | pop i =>
    simp only [LockFreeStack.step] at h
    split at h
    · rename_i hi
      cases h
      have moved : Inv (s.goto i .counting) chain := I.goto hi trivial rfl rfl
      exact ⟨chain, { moved with }⟩
    · cases h
  | go i =>
    simp only [LockFreeStack.step] at h
    split at h
    · rename_i pc hi
      exact I.go hi (fun newTop serial he => fresh newTop serial (he ▸ hi)) h
    · cases h
  | reuse a node =>
    simp only [LockFreeStack.step] at h
    split at h
    · rename_i pool
      cases h
      exact ⟨chain, I.reuse pool node⟩
    · cases h

/-- **In every interleaving in which the tag of a node does not come round under a `Pop`, the
successful compare-exchanges are the history of a stack**, each `Pop` returns what its own took,
`count` is never lowered below zero, and no `Pop` that lowered it finds `Top` null. -/
theorem run_lifo {n : Nat} {mem : Nat → Node T} {as : List (Action T)}
    (hr : Run (fun s a t => step s a = some t) TagFresh (LockFreeStack.init n mem) as t) :
    (∃ stack, Lifo t.events stack) ∧ (∀ e ∈ t.returned, e.1 = e.2) ∧
      t.decrements ≤ t.increments ∧ t.count = UInt32.ofNat (t.increments - t.decrements) ∧
      t.emptyTops = 0 := by
  obtain ⟨chain, I⟩ : ∃ chain, Inv t chain :=
    hr.invariant (I := fun t => ∃ chain, Inv t chain) ⟨[], Inv.init n mem⟩
      fun _ _ _ I fresh h => by
        obtain ⟨chain, I⟩ := I
        exact I.step fresh h
  exact ⟨⟨_, I.lifo⟩, I.returned, I.lowered, I.count, I.emptyTops⟩

theorem TagFresh.of_drawn {action : Action T} (h : s.nodes.drawn < tags) : TagFresh s action := by
  cases action with
  | go i => exact fun _ serial _ => Or.inl (Nat.lt_of_lt_of_le h (Nat.le_add_left _ serial))
  | push | pop | reuse => trivial

/-- Thread 0 pushes 7 while thread 1 tries to pop; the second `Pop` of thread 1 takes it. -/
theorem run_lifo_two_threads : ∃ t, Run (fun s a t => step s a = some t) TagFresh
    (LockFreeStack.init 2 fun _ => (⟨⟨0, 0⟩, 0⟩ : Node Nat))
    [.push 0 7 5, .pop 1, .go 0, .go 0, .go 1, .go 0, .go 0, .go 0,
     .pop 1, .go 1, .go 1, .go 1, .go 1, .go 1, .go 1, .go 1] t ∧
    t.returned = [(7, 7)] ∧ (∃ stack, Lifo t.events stack) ∧ t.emptyTops = 0 := by
  have run : Run (fun s a t => step s a = some t) TagFresh
      (LockFreeStack.init 2 fun _ => (⟨⟨0, 0⟩, 0⟩ : Node Nat))
      [.push 0 7 5, .pop 1, .go 0, .go 0, .go 1, .go 0, .go 0, .go 0,
       .pop 1, .go 1, .go 1, .go 1, .go 1, .go 1, .go 1, .go 1] _ :=
    .cons rfl (.of_drawn (by decide)) <| .cons rfl (.of_drawn (by decide)) <|
    .cons rfl (.of_drawn (by decide)) <| .cons rfl (.of_drawn (by decide)) <|
    .cons rfl (.of_drawn (by decide)) <| .cons rfl (.of_drawn (by decide)) <|
    .cons rfl (.of_drawn (by decide)) <| .cons rfl (.of_drawn (by decide)) <|
    .cons rfl (.of_drawn (by decide)) <| .cons rfl (.of_drawn (by decide)) <|
    .cons rfl (.of_drawn (by decide)) <| .cons rfl (.of_drawn (by decide)) <|
    .cons rfl (.of_drawn (by decide)) <| .cons rfl (.of_drawn (by decide)) <|
    .cons rfl (.of_drawn (by decide)) <| .cons rfl (.of_drawn (by decide)) .nil
  obtain ⟨lifo, -, -, -, emptyTops⟩ := run_lifo run
  exact ⟨_, run, rfl, lifo, emptyTops⟩

/-! ## Undisturbed calls -/

/-- Fewer than `2 ^ 17` tags are drawn during a call. -/
def Brief (s : State T) : Action T → Prop
  | .go i => s.nodes.drawn < s.started i + tags
  | _ => True

theorem step_go (hi : s.threads[i]? = some pc) : step s (.go i) = go s i pc := by
  simp only [step, hi]

theorem getElem?_goto (hi : s.threads[i]? = some pc) : (s.goto i pc').threads[i]? = some pc' :=
  getElem?_set_of_some hi

/-- A `Push` of thread `i` that no other thread disturbs. -/
theorem push_call (hi : s.threads[i]? = some .idle) (value : T) {newNode : Nat} (h0 : newNode ≠ 0)
    (pool : s.nodes.owner newNode = .pool) (index : s.index = UInt32.ofNat s.nodes.drawn) :
    ∃ t, Run (fun s a t => step s a = some t) Brief s
        (.push i value newNode :: List.replicate 5 (.go i)) t ∧
      t.threads[i]? = some .idle ∧ (∀ j, j ≠ i → t.threads[j]? = s.threads[j]?) ∧
      t.top = ⟨(s.nodes.drawn + 1) % tags, newNode⟩ ∧ t.nodes.mem newNode = ⟨s.top, value⟩ ∧
      (∀ b, b ≠ newNode → t.nodes.mem b = s.nodes.mem b ∧ t.nodes.owner b = s.nodes.owner b) ∧
      t.nodes.drawn = s.nodes.drawn + 1 ∧ t.index = UInt32.ofNat t.nodes.drawn ∧
      t.count = s.count + 1 ∧ t.events = s.events ++ [.push value] ∧
      (∀ j, j ≠ i → t.started j = s.started j) := by
  let node : Node T := { s.nodes.mem newNode with data := value }
  let s₁ : State T := { s with
    nodes := s.nodes.alloc i newNode node
    started := Function.update s.started i s.nodes.drawn }.goto i (.allocated newNode)
  let newTop : NodePtr := ⟨((s.index + 1) &&& 0x1FFFF).toNat, newNode⟩
  let s₂ : State T := { s₁ with
    index := s.index + 1
    nodes := s₁.nodes.draw i newNode }.goto i (.drawn newTop)
  let s₃ : State T := s₂.goto i (.topRead newTop s.top)
  let s₄ : State T := { s₃ with
    nodes := s₃.nodes.write newNode { s₃.nodes.mem newNode with next := s.top } }.goto i
      (.nextWritten newTop s.top)
  let s₅ : State T := { s₄ with
    top := newTop
    nodes := s₄.nodes.pass newNode .linked
    events := s.events ++ [Event.push (s₄.nodes.mem newNode).data] }.goto i .pushed
  let s₆ : State T := { s₅ with
    count := s.count + 1
    increments := s.increments + 1 }.goto i .idle
  have i₁ : s₁.threads[i]? = some (.allocated newNode) := getElem?_goto hi
  have i₂ : s₂.threads[i]? = some (.drawn newTop) := getElem?_goto i₁
  have i₃ : s₃.threads[i]? = some (.topRead newTop s.top) := getElem?_goto i₂
  have i₄ : s₄.threads[i]? = some (.nextWritten newTop s.top) := getElem?_goto i₃
  have i₅ : s₅.threads[i]? = some .pushed := getElem?_goto i₄
  have h₁ : step s (.push i value newNode) = some s₁ := by
    simp only [step, hi, pool, h0, if_false]
    rfl
  have begun : s.nodes.drawn + 1 < Function.update s.started i s.nodes.drawn i + tags := by
    rw [Function.update_self, tags]
    omega
  have run : Run (fun s a t => step s a = some t) Brief s
      (.push i value newNode :: List.replicate 5 (.go i)) s₆ :=
    .cons h₁ trivial <| .cons (step_go i₁) (Nat.lt_of_succ_lt begun) <|
      .cons (step_go i₂) begun <| .cons (step_go i₃) begun <|
      .cons ((step_go i₄).trans (if_pos rfl)) begun <| .cons (step_go i₅) begun .nil
  refine ⟨s₆, run, getElem?_goto i₅, fun j hj => ?_, ?_, ?_, fun b hb => ?_, rfl, ?_, rfl, ?_,
    fun j hj => Function.update_of_ne hj _ _⟩
  · simp [s₆, s₅, s₄, s₃, s₂, s₁, State.goto, List.getElem?_set_ne (Ne.symm hj)]
  · show newTop = _
    simp only [newTop, index, tag_eq]
  · simp [s₆, s₅, s₄, s₃, s₂, s₁, node, State.goto, Nodes.pass, Nodes.write, Nodes.draw, Nodes.alloc]
  · simp [s₆, s₅, s₄, s₃, s₂, s₁, State.goto, Nodes.pass, Nodes.write, Nodes.draw, Nodes.alloc, hb]
  · show s.index + 1 = UInt32.ofNat (s.nodes.drawn + 1)
    rw [index]
    exact (UInt32.ofNat_add _ _).symm
  · simp [s₆, s₅, s₄, s₃, s₂, s₁, node, State.goto, Nodes.write, Nodes.draw, Nodes.alloc]

/-- The first steps of a `Pop` of thread `i`, undisturbed, up to its reading of `next`. -/
theorem pop_begin (hi : s.threads[i]? = some .idle) (top : s.top.address ≠ 0)
    (positive : ¬ s.count.toInt32 ≤ 0) :
    ∃ t, Run (fun s a t => step s a = some t) Brief s (.pop i :: List.replicate 4 (.go i)) t ∧
      t.threads[i]? = some (.popNextRead s.top (s.nodes.mem s.top.address).next
        (s.nodes.born s.top.address)) ∧
      (∀ j, j ≠ i → t.threads[j]? = s.threads[j]?) ∧ t.top = s.top ∧ t.nodes = s.nodes ∧
      t.index = s.index ∧ t.count = s.count - 1 ∧ t.events = s.events ∧
      t.started = Function.update s.started i s.nodes.drawn := by
  let next := (s.nodes.mem s.top.address).next
  let serial := s.nodes.born s.top.address
  let s₁ : State T :=
    { s with started := Function.update s.started i s.nodes.drawn }.goto i .counting
  let s₂ : State T := s₁.goto i (.countRead s.count)
  let s₃ : State T := { s₂ with
    count := s.count - 1
    decrements := s.decrements + 1 }.goto i .popping
  let s₄ : State T := s₃.goto i (.popTopRead s.top serial)
  let s₅ : State T := s₄.goto i (.popNextRead s.top next serial)
  have i₁ : s₁.threads[i]? = some .counting := getElem?_goto hi
  have i₂ : s₂.threads[i]? = some (.countRead s.count) := getElem?_goto i₁
  have i₃ : s₃.threads[i]? = some .popping := getElem?_goto i₂
  have i₄ : s₄.threads[i]? = some (.popTopRead s.top serial) := getElem?_goto i₃
  have h₁ : step s (.pop i) = some s₁ := by
    simp only [step, hi]
    rfl
  have begun : s.nodes.drawn < Function.update s.started i s.nodes.drawn i + tags := by
    rw [Function.update_self, tags]
    omega
  have run : Run (fun s a t => step s a = some t) Brief s
      (.pop i :: List.replicate 4 (.go i)) s₅ :=
    .cons h₁ trivial <| .cons ((step_go i₁).trans (if_neg positive)) begun <|
      .cons ((step_go i₂).trans (if_pos rfl)) begun <|
      .cons ((step_go i₃).trans (if_neg top)) begun <| .cons (step_go i₄) begun .nil
  refine ⟨s₅, run, getElem?_goto i₄, fun j hj => ?_, ?_⟩
  · simp [s₅, s₄, s₃, s₂, s₁, State.goto, List.getElem?_set_ne (Ne.symm hj)]
  · simp [s₅, s₄, s₃, s₂, s₁, State.goto]

/-- The last steps, when `Top` is what was read. -/
theorem pop_end {newTop : NodePtr} {serial : Nat}
    (hi : s.threads[i]? = some (.popNextRead s.top newTop serial))
    (brief : s.nodes.drawn < s.started i + tags) :
    ∃ t, Run (fun s a t => step s a = some t) Brief s (List.replicate 3 (.go i)) t ∧
      t.threads[i]? = some .idle ∧ (∀ j, j ≠ i → t.threads[j]? = s.threads[j]?) ∧
      t.top = newTop ∧ t.nodes.mem = s.nodes.mem ∧
      t.nodes.owner = Function.update s.nodes.owner s.top.address .pool ∧
      t.nodes.drawn = s.nodes.drawn ∧ t.index = s.index ∧ t.count = s.count ∧
      t.events = s.events ++ [.pop (s.nodes.mem s.top.address).data] ∧ t.started = s.started := by
  let a := s.top.address
  let data := (s.nodes.mem a).data
  let s₁ : State T := { s with
    top := newTop
    nodes := s.nodes.pass a (.removed i)
    events := s.events ++ [Event.pop data] }.goto i (.popped a data)
  let s₂ : State T := s₁.goto i (.dataRead a data data)
  let s₃ : State T := { s₂ with
    nodes := s₂.nodes.pass a .pool
    returned := s.returned ++ [(data, data)] }.goto i .idle
  have i₁ : s₁.threads[i]? = some (.popped a data) := getElem?_goto hi
  have i₂ : s₂.threads[i]? = some (.dataRead a data data) := getElem?_goto i₁
  have run : Run (fun s a t => step s a = some t) Brief s (List.replicate 3 (.go i)) s₃ :=
    .cons ((step_go hi).trans (if_pos rfl)) brief <| .cons (step_go i₁) brief <|
      .cons (step_go i₂) brief .nil
  refine ⟨s₃, run, getElem?_goto i₂, fun j hj => ?_, rfl, rfl, ?_, rfl, rfl, rfl, rfl, rfl⟩
  · simp [s₃, s₂, s₁, State.goto, List.getElem?_set_ne (Ne.symm hj)]
  · simp [s₃, s₂, s₁, a, State.goto, Nodes.pass]

/-- A whole `Pop` of thread `i` that no other thread disturbs. -/
theorem pop_call (hi : s.threads[i]? = some .idle) (top : s.top.address ≠ 0)
    (positive : ¬ s.count.toInt32 ≤ 0) :
    ∃ as t, Run (fun s a t => step s a = some t) Brief s as t ∧
      t.threads[i]? = some .idle ∧ (∀ j, j ≠ i → t.threads[j]? = s.threads[j]?) ∧
      t.top = (s.nodes.mem s.top.address).next ∧ t.nodes.mem = s.nodes.mem ∧
      t.nodes.owner = Function.update s.nodes.owner s.top.address .pool ∧
      t.nodes.drawn = s.nodes.drawn ∧ t.index = s.index ∧ t.count = s.count - 1 ∧
      t.events = s.events ++ [.pop (s.nodes.mem s.top.address).data] ∧
      (∀ j, j ≠ i → t.started j = s.started j) := by
  obtain ⟨r, run, at₁, others, same, nodes, index, count, events, started⟩ :=
    pop_begin hi top positive
  rw [← same] at at₁
  have brief : r.nodes.drawn < r.started i + tags := by
    rw [nodes, started, Function.update_self, tags]
    omega
  obtain ⟨t, run', idle, others', top', mem, owner, drawn, index', count', events', started'⟩ :=
    pop_end at₁ brief
  rw [nodes, same] at owner events'
  refine ⟨_, t, run.trans run', idle, fun j hj => (others' j hj).trans (others j hj), ?_, ?_, owner,
    ?_, index'.trans index, count'.trans count, ?_, fun j hj => ?_⟩
  · rw [top', same]
  · rw [mem, nodes]
  · rw [drawn, nodes]
  · rw [events', events]
  · rw [started', started, Function.update_of_ne hj]

/-! ## A tag drawn long ago -/

/-- Thread 1 has pushed 10 and 20 and then `k` times pushed a value and popped it again. -/
structure Settled (s : State Nat) (k : Nat) : Prop where
  idle : ∀ i, i < 2 → s.threads[i]? = some .idle
  top : s.top = ⟨2, 2⟩
  first : s.nodes.mem 2 = ⟨⟨1, 1⟩, 20⟩
  second : s.nodes.mem 1 = ⟨⟨0, 0⟩, 10⟩
  spare : s.nodes.owner 3 = .pool
  drawn : s.nodes.drawn = 2 + k
  index : s.index = UInt32.ofNat s.nodes.drawn
  count : s.count = 2
  lifo : Lifo s.events [20, 10]

theorem settled (k : Nat) : ∃ as t, Run (fun s a t => step s a = some t) Brief
    (LockFreeStack.init 2 fun _ => ⟨⟨0, 0⟩, 0⟩) as t ∧ Settled t k := by
  induction k with
  | zero =>
    obtain ⟨s, run, idle, others, top, mem, same, drawn, index, count, events, -⟩ :=
      @push_call Nat (LockFreeStack.init 2 fun _ => ⟨⟨0, 0⟩, 0⟩) 1 rfl 10 1 (by decide) rfl rfl
    obtain ⟨t, run', idle', others', top', mem', same', drawn', index', count', events', -⟩ :=
      push_call idle 20 (by decide : 2 ≠ 0) ((same 2 (by decide)).2.trans rfl) index
    refine ⟨_, t, run.trans run', ?_, ?_, ?_, ?_, ?_, ?_, index', ?_, ?_⟩
    · intro i hi
      rcases (by omega : i = 0 ∨ i = 1) with rfl | rfl
      · exact (others' 0 (by decide)).trans ((others 0 (by decide)).trans rfl)
      · exact idle'
    · rw [top', drawn]; rfl
    · rw [mem', top]; rfl
    · rw [(same' 1 (by decide)).1, mem]; rfl
    · rw [(same' 3 (by decide)).2, (same 3 (by decide)).2]; rfl
    · rw [drawn', drawn]; rfl
    · rw [count', count]; rfl
    · rw [events', events]
      exact (Lifo.nil.push 10).push 20
  | succ k ih =>
    obtain ⟨as, r, before, h⟩ := ih
    obtain ⟨s, run, idle, others, top, mem, same, drawn, index, count, events, -⟩ :=
      push_call (h.idle 1 (by decide)) 30 (by decide : 3 ≠ 0) h.spare h.index
    have first : s.top.address = 3 := congrArg Ptr.address top
    obtain ⟨_, t, run', idle', others', top', mem', owner', drawn', index', count', events', -⟩ :=
      pop_call idle (by rw [first]; decide) (by rw [count, h.count]; decide)
    rw [first] at top' owner' events'
    refine ⟨_, t, (before.trans run).trans run', ?_, ?_, ?_, ?_, ?_, ?_, ?_, ?_, ?_⟩
    · intro i hi
      rcases (by omega : i = 0 ∨ i = 1) with rfl | rfl
      · exact (others' 0 (by decide)).trans ((others 0 (by decide)).trans (h.idle 0 (by decide)))
      · exact idle'
    · rw [top', mem, h.top]
    · rw [mem', (same 2 (by decide)).1, h.first]
    · rw [mem', (same 1 (by decide)).1, h.second]
    · rw [owner', Function.update_self]
    · rw [drawn', drawn, h.drawn]; rfl
    · rw [index', drawn', index]
    · rw [count', count, h.count]; rfl
    · rw [events', events, mem]
      exact (h.lifo.push 30).pop

theorem Lifo.of_push {events : List (Event T)} {stack : List T} {value : T}
    (h : Lifo (events ++ [.push value]) stack) : ∃ rest, stack = value :: rest ∧ Lifo events rest := by
  generalize he : events ++ [Event.push value] = all at h
  cases h with
  | nil => simp at he
  | push h v =>
    obtain ⟨rfl, last⟩ := List.append_inj' he rfl
    cases last
    exact ⟨_, rfl, h⟩
  | pop h => simpa using (List.append_inj' he rfl).2

theorem Lifo.of_pop {events : List (Event T)} {stack : List T} {value : T}
    (h : Lifo (events ++ [.pop value]) stack) : Lifo events (value :: stack) := by
  generalize he : events ++ [Event.pop value] = all at h
  cases h with
  | nil => simp at he
  | push h v => simpa using (List.append_inj' he rfl).2
  | pop h =>
    obtain ⟨rfl, last⟩ := List.append_inj' he rfl
    cases last
    exact h

/-- A history leaves one stack. -/
theorem Lifo.unique {events : List (Event T)} {stack stack' : List T} (h : Lifo events stack)
    (h' : Lifo events stack') : stack = stack' := by
  induction h generalizing stack' with
  | nil =>
    generalize he : ([] : List (Event T)) = all at h'
    cases h' with
    | nil => rfl
    | push h v => simp at he
    | pop h => simp at he
  | push h v ih =>
    obtain ⟨rest, rfl, hrest⟩ := h'.of_push
    rw [ih hrest]
  | pop h ih => exact List.tail_eq_of_cons_eq (ih h'.of_pop)

/-- **Fewer than `2 ^ 17` pushes during every call are not enough.**  Node 2, with tag 2, is on the
stack while `2 ^ 17 - 2` further tags are drawn.  Thread 0, in `Pop`, reads it and its successor,
node 1; thread 1 pops 20, pushes 30 and, into node 2 and with tag 2 again, 40.  The compare-exchange
of thread 0 succeeds and makes node 1 the top: 30 is lost. -/
theorem stale_pop_loses : ∃ as t, Run (fun s a t => step s a = some t) Brief
    (LockFreeStack.init 2 fun _ => ⟨⟨0, 0⟩, 0⟩) as t ∧ ¬ ∃ stack, Lifo t.events stack := by
  obtain ⟨_, s, run, h⟩ := settled (2 ^ 17 - 2)
  have drawn : s.nodes.drawn = 2 ^ 17 := h.drawn
  -- thread 0 reads `Top` and `next`
  obtain ⟨s₁, run₁, at₁, others₁, top₁, nodes₁, index₁, count₁, events₁, started₁⟩ :=
    pop_begin (h.idle 0 (by decide)) (by rw [h.top]; decide) (by rw [h.count]; decide)
  rw [h.top, h.first] at at₁
  -- thread 1 pops 20
  obtain ⟨_, s₂, run₂, idle₂, others₂, top₂, mem₂, owner₂, drawn₂, index₂, count₂, events₂, started₂⟩ :=
    pop_call (i := 1) ((others₁ 1 (by decide)).trans (h.idle 1 (by decide)))
      (by rw [top₁, h.top]; decide) (by rw [count₁, h.count]; decide)
  rw [top₁, h.top, nodes₁] at owner₂ top₂ events₂
  rw [nodes₁] at mem₂ drawn₂
  -- and pushes 30 and 40
  obtain ⟨s₃, run₃, idle₃, others₃, top₃, mem₃, same₃, drawn₃, index₃, count₃, events₃, started₃⟩ :=
    push_call idle₂ 30 (by decide : 3 ≠ 0)
      (by rw [owner₂, Function.update_of_ne (by decide)]; exact h.spare)
      (by rw [index₂, index₁, drawn₂]; exact h.index)
  obtain ⟨s₄, run₄, idle₄, others₄, top₄, mem₄, same₄, drawn₄, index₄, count₄, events₄, started₄⟩ :=
    push_call idle₃ 40 (by decide : 2 ≠ 0)
      (by rw [(same₃ 2 (by decide)).2, owner₂]; rfl) index₃
  have top : s₄.top = ⟨2, 2⟩ := by
    rw [top₄, drawn₃, drawn₂, drawn]
    rfl
  -- the compare-exchange of thread 0
  have same : s₄.threads[0]? = s₁.threads[0]? :=
    (others₄ 0 (by decide)).trans ((others₃ 0 (by decide)).trans (others₂ 0 (by decide)))
  have brief : s₄.nodes.drawn < s₄.started 0 + tags := by
    rw [started₄ 0 (by decide), started₃ 0 (by decide), started₂ 0 (by decide), started₁,
      Function.update_self, drawn₄, drawn₃, drawn₂, tags]
    omega
  obtain ⟨s₅, run₅, idle₅, others₅, top₅, mem₅, owner₅, drawn₅, index₅, count₅, events₅, -⟩ :=
    pop_end (i := 0) (s := s₄) (by rw [top, same]; exact at₁) brief
  rw [top, mem₄] at events₅
  -- thread 1 pops 10
  obtain ⟨_, s₆, run₆, -, -, -, -, -, -, -, -, events₆, -⟩ :=
    pop_call (i := 1) ((others₅ 1 (by decide)).trans idle₄) (by rw [top₅]; decide)
      (by rw [count₅, count₄, count₃, count₂, count₁, h.count]; decide)
  have below : s₅.nodes.mem 1 = ⟨⟨0, 0⟩, 10⟩ := by
    rw [mem₅, (same₄ 1 (by decide)).1, (same₃ 1 (by decide)).1, mem₂]
    exact h.second
  rw [top₅, below] at events₆
  refine ⟨_, s₆, ((((((run.trans run₁).trans run₂).trans run₃).trans run₄).trans run₅).trans run₆), ?_⟩
  rintro ⟨stack, lifo⟩
  rw [h.first] at events₂
  have legal : Lifo s₅.events [30, 10] := by
    rw [events₅, events₄, events₃, events₂, events₁]
    exact (((h.lifo.pop).push 30).push 40).pop
  rw [events₆] at lifo
  cases legal.unique lifo.of_pop

end LockFreeStack

end IocpServer
