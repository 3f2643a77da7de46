import IocpServer.Lib.Chain
import IocpServer.Lib.Outcome
import IocpServer.Lib.Places
import IocpServer.Lib.Run

/-!
# `TLSMemoryPool`

Model of `TLSMemoryPool.h`: one pool for each thread, each call atomic.  A pool keeps a free list
through the `next` pointers of its nodes and a queue of the nodes other threads have given back;
`PopReclaimQueue` moves those that have waited three generations into the free list.  `generation`
and the sums with it are integers: no pool gets to the limit of `int`.

`handedOut`, `freedAt`, `entered` and `requeues` are history.

* `Inv` — the free lists are chains, and each node has one place.
* `Inv.move` — one node moves; `Inv.create`, `Inv.take`, `Inv.push`, `Inv.enqueue`, `Inv.dequeue`.
* `reclaimLoop_ends` — the loop of `PopReclaimQueue` ends, and never puts a node back to go on.
* `run_conserved` — **in every run each node is handed out, in its owner's free list or in its
  owner's reclaim queue, once.**
-/

set_option autoImplicit false

namespace IocpServer

open Lib

namespace TLSMemoryPool

structure Node where
  next : Nat
  /-- The thread whose pool it is; `none` is `nullptr`. -/
  ownerPool : Option Nat
  nodeGeneration : Int

structure Pool where
  /-- `_node`, the head of the free list. -/
  node : Nat
  reclaimQueue : List Nat
  generation : Int
  total : Int
  now : Int

structure State where
  heap : Nat → Option Node
  pools : Nat → Pool
  /-- What `Alloc` has returned and was not freed. -/
  handedOut : List Nat
  /-- The generation of the owner when another thread freed the node. -/
  freedAt : Nat → Int
  /-- For each node that entered a free list from the queue: `freedAt`, and the generation then. -/
  entered : List (Int × Int)
  /-- How often the queue was passed a node to go on with the next. -/
  requeues : Nat

inductive Fault where
  | badNode
  /-- `ownerPool == nullptr`. -/
  | debugBreak
  | outOfFuel
  deriving DecidableEq

def init : State where
  heap := fun _ => none
  pools := fun _ => ⟨0, [], 0, 0, 0⟩
  handedOut := []
  freedAt := fun _ => 0
  entered := []
  requeues := 0

def State.deref (s : State) (a : Nat) : Except Fault Node :=
  match s.heap a with
  | none => .error .badNode
  | some node => .ok node

def State.write (s : State) (a : Nat) (node : Node) : State :=
  { s with heap := Function.update s.heap a (some node) }

def State.setPool (s : State) (k : Nat) (pool : Pool) : State :=
  { s with pools := Function.update s.pools k pool }

/-- `Alloc` of thread `k`; `fresh` is what `new` returns. -/
def alloc (s : State) (k fresh : Nat) : Except Fault State :=
  let pool := s.pools k
  if pool.node = 0 then
    .ok { (s.write fresh ⟨0, some k, 0⟩).setPool k { pool with total := pool.total + 1 } with
      handedOut := fresh :: s.handedOut }
  else do
    let temp ← s.deref pool.node
    .ok { (s.write pool.node { temp with next := 0, ownerPool := some k }).setPool k
        { pool with node := temp.next, now := pool.now - 1 } with
      handedOut := pool.node :: s.handedOut }

/-- The node becomes the head of the free list of thread `k`. -/
def State.push (s : State) (k a : Nat) (node : Node) : State :=
  let pool := s.pools k
  (s.write a { node with next := if pool.node = 0 then 0 else pool.node }).setPool k
    { pool with node := a, now := pool.now + 1 }

/-- `reclaimQueue.Enqueue` of thread `k`. -/
def State.enqueue (s : State) (k a : Nat) : State :=
  s.setPool k { s.pools k with reclaimQueue := (s.pools k).reclaimQueue ++ [a] }

/-- `PushReclaimQueue` of thread `k`. -/
def pushReclaimQueue (s : State) (k a : Nat) (node : Node) : State :=
  { (s.write a { node with nodeGeneration := (s.pools k).generation }).enqueue k a with
    freedAt := Function.update s.freedAt a (s.pools k).generation }

/-- `Free` of thread `k`. -/
def free (s : State) (k a : Nat) : Except Fault State := do
  let temp ← s.deref a
  let s := { s with handedOut := s.handedOut.erase a }
  if temp.ownerPool = some k then
    .ok (s.push k a temp)
  else
    match temp.ownerPool with
    | none => .error .debugBreak
    | some owner => .ok (pushReclaimQueue s owner a temp)

/-- The loop of `PopReclaimQueue` of thread `k`, with the `count` so far. -/
def reclaimLoop (k : Nat) : Nat → Nat → State → Except Fault (Nat × State)
  | 0, _, _ => .error .outOfFuel
  | fuel + 1, count, s =>
    match (s.pools k).reclaimQueue with
    | [] => .ok (count, s)
    | a :: queue => do
      let s := s.setPool k { s.pools k with reclaimQueue := queue }
      let node ← s.deref a
      if node.nodeGeneration + 3 ≤ (s.pools k).generation then
        if node.next ≠ 0 then
          reclaimLoop k fuel count { s.enqueue k a with requeues := s.requeues + 1 }
        else
          reclaimLoop k fuel (count + 1)
            { s.push k a node with entered := s.entered ++ [(s.freedAt a, (s.pools k).generation)] }
      else
        .ok (count, s.enqueue k a)

/-- `generation++`. -/
def State.age (s : State) (k : Nat) : State :=
  s.setPool k { s.pools k with generation := (s.pools k).generation + 1 }

/-- `PopReclaimQueue` of thread `k`: what it returns, and the state. -/
def popReclaimQueue (s : State) (k : Nat) : Except Fault (Nat × State) :=
  reclaimLoop k ((s.pools k).reclaimQueue.length + 1) 0 (s.age k)

inductive Action where
  | alloc (k fresh : Nat)
  | free (k a : Nat)
  | popReclaimQueue (k : Nat)

def step (s : State) : Action → Except Fault State
  | .alloc k fresh => alloc s k fresh
  | .free k a => free s k a
  | .popReclaimQueue k => (popReclaimQueue s k).map Prod.snd

/-- `new` returns memory that is not in use, and callers free what they were given, once. -/
def Given (s : State) : Action → Prop
  | .alloc _ fresh => fresh ≠ 0 ∧ s.heap fresh = none
  | .free _ a => a ∈ s.handedOut
  | .popReclaimQueue _ => True

@[simp] theorem State.setPool_self (s : State) (k : Nat) (pool : Pool) :
    (s.setPool k pool).pools k = pool := Function.update_self _ _ _

@[simp] theorem State.setPool_ne (s : State) (k : Nat) (pool : Pool) {j : Nat} (h : j ≠ k) :
    (s.setPool k pool).pools j = s.pools j := Function.update_of_ne h _ _

@[simp] theorem State.setPool_heap (s : State) (k : Nat) (pool : Pool) :
    (s.setPool k pool).heap = s.heap := rfl

@[simp] theorem State.write_pools (s : State) (a : Nat) (node : Node) :
    (s.write a node).pools = s.pools := rfl

/-! ## The invariant -/

/-- Where a node is. -/
inductive Place where
  | nowhere
  | out
  | list (k : Nat)
  | queue (k : Nat)

/-- What holds of a node in its place. -/
def NodeOk (freedAt : Int) (node : Node) : Place → Prop
  | .nowhere => False
  | .out => node.next = 0 ∧ node.ownerPool ≠ none
  | .list k => node.ownerPool = some k
  | .queue k => node.next = 0 ∧ node.ownerPool = some k ∧ node.nodeGeneration = freedAt

/-- The free lists are `lists`, and the nodes `out` are in nobody's list or queue. -/
structure Inv (s : State) (place : Nat → Place) (lists : Nat → List Nat) (out : List Nat) : Prop where
  null : s.heap 0 = none
  chain : ∀ k, IsChain Node.next s.heap (s.pools k).node (lists k)
  list : ∀ k, Tracks place (.list k) (lists k)
  queue : ∀ k, Tracks place (.queue k) (s.pools k).reclaimQueue
  out : Tracks place .out out
  nowhere : ∀ a, s.heap a = none → place a = .nowhere
  node : ∀ a node, s.heap a = some node → NodeOk (s.freedAt a) node (place a)

theorem Inv.init : Inv init (fun _ => .nowhere) (fun _ => []) [] where
  null := rfl
  chain _ := rfl
  list _ := ⟨List.nodup_nil, by simp⟩
  queue _ := ⟨List.nodup_nil, by simp [TLSMemoryPool.init]⟩
  out := ⟨List.nodup_nil, by simp⟩
  nowhere _ _ := rfl
  node a node h := by simp [TLSMemoryPool.init] at h

variable {s t : State} {place : Nat → Place} {lists : Nat → List Nat} {out out' l : List Nat}
  {k a fresh : Nat} {node node' : Node} {p : Place} {pool : Pool}

/-- A place that is not in a pool other than that of thread `k`. -/
def Place.Near (k : Nat) (p : Place) : Prop := ∀ j, j ≠ k → p ≠ .list j ∧ p ≠ .queue j

/-- **One node is written and moved, to, from or within the pool of thread `k`**: what is left to
show is about that pool and the nodes that are out. -/
theorem Inv.move (I : Inv s place lists out) (h0 : a ≠ 0)
    (heap : t.heap = Function.update s.heap a (some node'))
    (pools : t.pools = Function.update s.pools k pool)
    (freedAt : ∀ b, b ≠ a → t.freedAt b = s.freedAt b)
    (source : (place a).Near k) (target : p.Near k) (ok : NodeOk (t.freedAt a) node' p)
    (chain : IsChain Node.next t.heap pool.node l)
    (list : Tracks (Function.update place a p) (.list k) l)
    (queue : Tracks (Function.update place a p) (.queue k) pool.reclaimQueue)
    (out : Tracks (Function.update place a p) .out out') :
    Inv t (Function.update place a p) (Function.update lists k l) out' := by
  refine ⟨?_, fun j => ?_, fun j => ?_, fun j => ?_, out, fun b hb => ?_, fun b node hb => ?_⟩
  · rw [heap, Function.update_of_ne (Ne.symm h0)]
    exact I.null
  · by_cases hj : j = k
    · subst hj
      rw [pools, Function.update_self, Function.update_self]
      exact chain
    · rw [pools, Function.update_of_ne hj, Function.update_of_ne hj, heap]
      apply (I.chain j).frame
      intro b hb
      apply Function.update_of_ne
      rintro rfl
      exact (I.list j).not_mem (source j hj).1 hb
  · by_cases hj : j = k
    · subst hj
      rw [Function.update_self]
      exact list
    · rw [Function.update_of_ne hj]
      exact (I.list j).update_of_ne (source j hj).1 (target j hj).1
  · by_cases hj : j = k
    · subst hj
      rw [pools, Function.update_self]
      exact queue
    · rw [pools, Function.update_of_ne hj]
      exact (I.queue j).update_of_ne (source j hj).2 (target j hj).2
  · by_cases hba : b = a
    · subst hba
      rw [heap, Function.update_self] at hb
      cases hb
    · rw [heap, Function.update_of_ne hba] at hb
      rw [Function.update_of_ne hba]
      exact I.nowhere b hb
  · by_cases hba : b = a
    · subst hba
      rw [heap, Function.update_self] at hb
      cases hb
      rw [Function.update_self]
      exact ok
    · rw [heap, Function.update_of_ne hba] at hb
      rw [Function.update_of_ne hba, freedAt b hba]
      exact I.node b node hb

theorem Inv.ne_null (I : Inv s place lists out) (h : s.heap a = some node) : a ≠ 0 := by
  rintro rfl
  rw [I.null] at h
  cases h

/-- The free list of thread `k` when a node that is not in it is written. -/
theorem Inv.chain_frame (I : Inv s place lists out) (h : place a ≠ .list k) :
    IsChain Node.next (Function.update s.heap a (some node')) (s.pools k).node (lists k) := by
  apply (I.chain k).frame
  intro b hb
  apply Function.update_of_ne
  rintro rfl
  exact (I.list k).not_mem h hb

/-- `new`: from nowhere to the caller. -/
theorem Inv.create (I : Inv s place lists out) (pool : Pool) (h0 : fresh ≠ 0) (h : s.heap fresh = none)
    (head : pool.node = (s.pools k).node) (queue : pool.reclaimQueue = (s.pools k).reclaimQueue) :
    ∃ place', Inv ((s.write fresh ⟨0, some k, 0⟩).setPool k pool) place' lists (fresh :: out) := by
  have nowhere := I.nowhere fresh h
  have list := (I.list k).update_of_ne (x := fresh) (p := .out) (by simp [nowhere]) (by simp)
  have same := (I.queue k).update_of_ne (x := fresh) (p := .out) (by simp [nowhere]) (by simp)
  have chain := @Inv.chain_frame s place lists out k fresh ⟨0, some k, 0⟩ I (by simp [nowhere])
  have moved := I.move (t := (s.write fresh ⟨0, some k, 0⟩).setPool k pool) h0 rfl rfl
    (fun _ _ => rfl) (by simp [Place.Near, nowhere]) (by simp [Place.Near]) (by simp [NodeOk])
    (head ▸ chain) list (queue ▸ same) (I.out.add (by simp [nowhere]))
  rw [Function.update_eq_self] at moved
  exact ⟨_, moved⟩

/-- From the head of the free list to the caller. -/
theorem Inv.take (I : Inv s place lists out) (pool : Pool) (h : s.heap a = some node) {rest : List Nat}
    (hl : lists k = a :: rest) (head : pool.node = node.next)
    (queue : pool.reclaimQueue = (s.pools k).reclaimQueue) :
    ∃ place', Inv ((s.write a { node with next := 0, ownerPool := some k }).setPool k pool) place'
      (Function.update lists k rest) (a :: out) := by
  have placed : place a = .list k := ((I.list k).mem a).mp (hl ▸ List.mem_cons_self)
  have list := I.list k
  have chain := I.chain k
  rw [hl] at list chain
  have fresh := (List.nodup_cons.mp list.nodup).1
  obtain ⟨start, -, cell, hcell, tail⟩ := chain
  rw [start, h] at hcell
  cases hcell
  have framed : IsChain Node.next
      (Function.update s.heap a (some { node with next := 0, ownerPool := some k })) node.next rest :=
    tail.frame fun b hb => Function.update_of_ne (fun he : b = a => fresh (he ▸ hb)) _ _
  have same := (I.queue k).update_of_ne (x := a) (p := .out) (by simp [placed]) (by simp)
  exact ⟨_, I.move (t := (s.write a _).setPool k pool) (I.ne_null h) rfl rfl (fun _ _ => rfl)
    (by simp +contextual [Place.Near, placed, eq_comm]) (by simp [Place.Near]) (by simp [NodeOk])
    (head ▸ framed) (list.remove (by simp)) (queue ▸ same) (I.out.add (by simp [placed]))⟩

theorem Inv.placed_out (I : Inv s place lists (a :: out)) : place a = .out :=
  (I.out.mem a).mp List.mem_cons_self

/-- From the caller, or from the queue, to the head of the free list. -/
theorem Inv.push (I : Inv s place lists (a :: out)) (h : s.heap a = some node)
    (owner : node.ownerPool = some k) :
    ∃ place', Inv (s.push k a node) place' (Function.update lists k (a :: lists k)) out := by
  have placed := I.placed_out
  have head : (if (s.pools k).node = 0 then 0 else (s.pools k).node) = (s.pools k).node := by
    split
    · rename_i hn
      exact hn.symm
    · rfl
  have chain : IsChain Node.next (s.push k a node).heap a (a :: lists k) := by
    refine ⟨rfl, I.ne_null h, _, Function.update_self _ _ _, ?_⟩
    rw [head]
    exact I.chain_frame (by simp [placed])
  exact ⟨_, I.move (t := s.push k a node) (p := .list k) (I.ne_null h) rfl rfl (fun _ _ => rfl)
    (by simp [Place.Near, placed]) (by simp +contextual [Place.Near, eq_comm]) owner chain
    ((I.list k).add (by simp [placed])) ((I.queue k).update_of_ne (by simp [placed]) (by simp))
    (I.out.remove (by simp))⟩

/-- From the front of the queue into the hands of `PopReclaimQueue`. -/
theorem Inv.dequeue (I : Inv s place lists out) {queue : List Nat}
    (hq : (s.pools k).reclaimQueue = a :: queue) :
    ∃ node, s.heap a = some node ∧ NodeOk (s.freedAt a) node (.queue k) ∧
      ∃ place', Inv (s.setPool k { s.pools k with reclaimQueue := queue }) place' lists
        (a :: out) := by
  have tracks := I.queue k
  have placed : place a = .queue k := (tracks.mem a).mp (hq ▸ List.mem_cons_self)
  obtain ⟨node, h⟩ : ∃ node, s.heap a = some node := by
    cases h : s.heap a with
    | none => simp [I.nowhere a h] at placed
    | some node => exact ⟨node, rfl⟩
  have ok := I.node a node h
  rw [placed] at ok
  rw [hq] at tracks
  refine ⟨node, h, ok, Function.update place a .out, ?_⟩
  have moved := I.move (t := s.setPool k { s.pools k with reclaimQueue := queue }) (p := .out)
    (I.ne_null h) (Function.update_eq_self_iff.mpr h.symm).symm rfl (fun _ _ => rfl)
    (by simp +contextual [Place.Near, placed, eq_comm]) (by simp [Place.Near])
    ⟨ok.1, by simp [ok.2.1]⟩ (I.chain k)
    ((I.list k).update_of_ne (by simp [placed]) (by simp)) (tracks.remove (by simp))
    (I.out.add (by simp [placed]))
  rwa [Function.update_eq_self] at moved

/-- Into the queue, from another thread's caller or back again. -/
theorem Inv.enqueue (I : Inv s place lists (a :: out)) (h0 : a ≠ 0)
    (heap : t.heap = Function.update s.heap a (some node'))
    (pools : t.pools = (s.enqueue k a).pools) (freedAt : ∀ b, b ≠ a → t.freedAt b = s.freedAt b)
    (ok : NodeOk (t.freedAt a) node' (.queue k)) : ∃ place', Inv t place' lists out := by
  have placed := I.placed_out
  have queue := ((I.queue k).add (x := a) (by simp [placed])).perm (List.perm_append_singleton _ _).symm
  have moved := I.move h0 heap pools freedAt (by simp [Place.Near, placed])
    (by simp +contextual [Place.Near, eq_comm]) ok (heap ▸ I.chain_frame (by simp [placed]))
    ((I.list k).update_of_ne (by simp [placed]) (by simp)) queue (I.out.remove (by simp))
  rw [Function.update_eq_self] at moved
  exact ⟨_, moved⟩

/-- The history does not matter. -/
theorem Inv.congr (I : Inv s place lists out) (heap : t.heap = s.heap) (pools : t.pools = s.pools)
    (freedAt : t.freedAt = s.freedAt) : Inv t place lists out := by
  refine ⟨?_, ?_, I.list, ?_, I.out, ?_, ?_⟩
  · rw [heap]; exact I.null
  · rw [heap, pools]; exact I.chain
  · rw [pools]; exact I.queue
  · rw [heap]; exact I.nowhere
  · rw [heap, freedAt]; exact I.node

theorem Inv.perm (I : Inv s place lists out) (h : out.Perm out') : Inv s place lists out' :=
  { I with out := I.out.perm h }

/-- `generation++` moves nothing. -/
theorem Inv.age (I : Inv s place lists out) (k : Nat) : Inv (s.age k) place lists out := by
  refine ⟨I.null, fun j => ?_, I.list, fun j => ?_, I.out, I.nowhere, I.node⟩
  · by_cases hj : j = k
    · subst hj
      simpa [State.age] using I.chain j
    · simpa [State.age, hj] using I.chain j
  · by_cases hj : j = k
    · subst hj
      simpa [State.age] using I.queue j
    · simpa [State.age, hj] using I.queue j

/-- The history: the queue was never passed on, and what entered a free list had waited. -/
structure Waited (s : State) : Prop where
  requeues : s.requeues = 0
  entered : ∀ e ∈ s.entered, e.1 + 3 ≤ e.2

/-- **The loop of `PopReclaimQueue` ends**, within one pass for each node of the queue and one more,
and keeps the nodes in their places. -/
theorem reclaimLoop_ends (I : Inv s place lists out) (W : Waited s) {fuel : Nat} (count : Nat)
    (h : (s.pools k).reclaimQueue.length < fuel) :
    ∃ n t, reclaimLoop k fuel count s = .ok (n, t) ∧ (∃ place' lists', Inv t place' lists' out) ∧
      Waited t ∧ t.handedOut = s.handedOut := by
  induction fuel generalizing s place lists count with
  | zero => exact absurd h (Nat.not_lt_zero _)
  | succ fuel ih =>
    cases hq : (s.pools k).reclaimQueue with
    | nil => exact ⟨count, s, by simp [reclaimLoop, hq], ⟨_, _, I⟩, W, rfl⟩
    | cons a queue =>
      obtain ⟨node, hnode, ⟨hnext, howner, hgen⟩, place', I'⟩ := I.dequeue hq
      have deref : (s.setPool k { s.pools k with reclaimQueue := queue }).deref a = .ok node := by
        simp [State.deref, State.setPool, hnode]
      by_cases old : node.nodeGeneration + 3 ≤ (s.pools k).generation
      · obtain ⟨place'', I''⟩ := I'.push hnode howner
        obtain ⟨n, t, run, kept, waited, same⟩ := @ih
          { (s.setPool k { s.pools k with reclaimQueue := queue }).push k a node with
            entered := s.entered ++ [(s.freedAt a, (s.pools k).generation)] } _ _
          (I''.congr rfl rfl rfl)
          ⟨W.requeues, by
            intro e he
            rcases List.mem_append.mp he with he | he
            · exact W.entered e he
            · rw [List.mem_singleton.mp he, ← hgen]
              exact old⟩
          (count + 1) (by
            simp only [hq, List.length_cons] at h
            simpa [State.push] using Nat.lt_of_succ_lt_succ h)
        refine ⟨n, t, ?_, kept, waited, same⟩
        rw [reclaimLoop, hq]
        simp only [deref, bind, Except.bind, State.setPool_self, old, if_true, hnext, ne_eq,
          not_true, if_false]
        exact run
      · have back : (s.setPool k { s.pools k with reclaimQueue := queue }).heap
            = Function.update s.heap a (some node) := (Function.update_eq_self_iff.mpr hnode.symm).symm
        obtain ⟨place'', I''⟩ := @Inv.enqueue _
          ((s.setPool k { s.pools k with reclaimQueue := queue }).enqueue k a) _ _ _ k a node I'
          (I'.ne_null hnode) back rfl (fun _ _ => rfl) ⟨hnext, howner, hgen⟩
        refine ⟨count, _, ?_, ⟨_, _, I''⟩, ⟨W.requeues, W.entered⟩, rfl⟩
        rw [reclaimLoop, hq]
        simp only [deref, bind, Except.bind, State.setPool_self, old, if_false]

/-! ## Runs -/

structure Kept (s : State) : Prop where
  placed : ∃ place lists, Inv s place lists s.handedOut
  waited : Waited s

theorem Kept.alloc (K : Kept s) (h0 : fresh ≠ 0) (h : s.heap fresh = none) :
    ∃ t a, alloc s k fresh = .ok t ∧ t.handedOut = a :: s.handedOut ∧ Kept t := by
  obtain ⟨place, lists, I⟩ := K.placed
  by_cases empty : (s.pools k).node = 0
  · obtain ⟨place', I'⟩ := I.create (k := k)
      { s.pools k with total := (s.pools k).total + 1 } h0 h rfl rfl
    refine ⟨_, fresh, if_pos empty, rfl, ?_, ?_⟩
    · exact ⟨place', lists, I'.congr rfl rfl rfl⟩
    · exact ⟨K.waited.requeues, K.waited.entered⟩
  · obtain ⟨a, rest, list⟩ : ∃ a rest, lists k = a :: rest :=
      List.exists_cons_of_ne_nil (List.ne_nil_of_mem ((I.chain k).start_mem empty))
    have chain := I.chain k
    rw [list] at chain
    obtain ⟨rfl, -, node, hnode, -⟩ := chain
    obtain ⟨place', I'⟩ := I.take (k := k)
      { s.pools k with node := node.next, now := (s.pools k).now - 1 } hnode list rfl rfl
    have run : TLSMemoryPool.alloc s k fresh = .ok { (s.write (s.pools k).node
        { node with next := 0, ownerPool := some k }).setPool k
          { s.pools k with node := node.next, now := (s.pools k).now - 1 } with
        handedOut := (s.pools k).node :: s.handedOut } := by
      simp only [TLSMemoryPool.alloc, empty, if_false, State.deref, hnode, bind, Except.bind]
    exact ⟨_, _, run, rfl, ⟨place', _, I'.congr rfl rfl rfl⟩, K.waited.requeues, K.waited.entered⟩

theorem Kept.free (K : Kept s) (h : a ∈ s.handedOut) : ∃ t, free s k a = .ok t ∧ Kept t := by
  obtain ⟨place, lists, I⟩ := K.placed
  have I' := I.perm (List.perm_cons_erase h)
  have placed := I'.placed_out
  obtain ⟨node, hnode⟩ : ∃ node, s.heap a = some node := by
    cases hnode : s.heap a with
    | none => simp [I.nowhere a hnode] at placed
    | some node => exact ⟨node, rfl⟩
  have ok := I.node a node hnode
  rw [placed] at ok
  obtain ⟨hnext, howner⟩ := ok
  have h0 := I.ne_null hnode
  by_cases own : node.ownerPool = some k
  · obtain ⟨place', I''⟩ := I'.push hnode own
    refine ⟨_, ?_, ⟨place', _, I''.congr (t := { s with
      handedOut := s.handedOut.erase a }.push k a node) rfl rfl rfl⟩, ?_⟩
    · simp only [TLSMemoryPool.free, State.deref, hnode, own, if_true, bind, Except.bind]
    · exact ⟨K.waited.requeues, K.waited.entered⟩
  · obtain ⟨owner, howner⟩ := Option.ne_none_iff_exists'.mp howner
    obtain ⟨place', I''⟩ := @Inv.enqueue _
      (pushReclaimQueue { s with handedOut := s.handedOut.erase a } owner a node) _ _ _ owner a
      { node with nodeGeneration := (s.pools owner).generation } I' h0 rfl rfl
      (fun b hb => Function.update_of_ne hb _ _)
      ⟨hnext, howner, (Function.update_self a _ s.freedAt).symm⟩
    rw [howner] at own
    refine ⟨_, ?_, ⟨place', _, I''⟩, ⟨K.waited.requeues, K.waited.entered⟩⟩
    simp only [TLSMemoryPool.free, State.deref, hnode, howner, own, if_false, bind, Except.bind]

theorem Kept.popReclaimQueue (K : Kept s) {fuel : Nat}
    (h : (s.pools k).reclaimQueue.length < fuel) :
    ∃ n t, reclaimLoop k fuel 0 (s.age k) = .ok (n, t) ∧ Kept t := by
  obtain ⟨place, lists, I⟩ := K.placed
  obtain ⟨n, t, run, placed, waited, same⟩ := reclaimLoop_ends (k := k) (I.age k)
    ⟨K.waited.requeues, K.waited.entered⟩ 0 (by simpa [State.age] using h)
  exact ⟨n, t, run, ⟨by rw [same]; exact placed, waited⟩⟩

/-- **Every call returns, and keeps the nodes.** -/
theorem Kept.step (K : Kept s) {action : Action} (h : Given s action) :
    ∃ t, step s action = .ok t ∧ Kept t := by
  cases action with
  | alloc k fresh =>
    obtain ⟨t, _, run, _, kept⟩ := K.alloc (k := k) h.1 h.2
    exact ⟨t, run, kept⟩
  | free k a => exact K.free h
  | popReclaimQueue k =>
    obtain ⟨n, t, run, kept⟩ := K.popReclaimQueue (k := k) (Nat.lt_succ_self _)
    exact ⟨t, by simp only [TLSMemoryPool.step, TLSMemoryPool.popReclaimQueue, run, Except.map], kept⟩

/-- Each node created is handed out, in the free list of its owner or in the reclaim queue of its
owner, once, and in no other list or queue; `lists` are the free lists. -/
structure Conserved (s : State) (lists : Nat → List Nat) : Prop where
  chain : ∀ k, IsChain Node.next s.heap (s.pools k).node (lists k)
  once : ∀ a node, s.heap a = some node → ∃ k, node.ownerPool = some k ∧
    s.handedOut.count a + (lists k).count a + (s.pools k).reclaimQueue.count a = 1 ∧
    ∀ j, j ≠ k → a ∉ lists j ∧ a ∉ (s.pools j).reclaimQueue
  created : ∀ k a, a ∈ s.handedOut ∨ a ∈ lists k ∨ a ∈ (s.pools k).reclaimQueue → s.heap a ≠ none
  queued : ∀ k a node, a ∈ (s.pools k).reclaimQueue → s.heap a = some node → node.next = 0

theorem Inv.conserved (I : Inv s place lists s.handedOut) : Conserved s lists where
  chain := I.chain
  once a node h := by
    have ok := I.node a node h
    cases placed : place a with
    | nowhere => simp [NodeOk, placed] at ok
    | out =>
      rw [placed] at ok
      obtain ⟨k, hk⟩ := Option.ne_none_iff_exists'.mp ok.2
      refine ⟨k, hk, ?_, fun j _ => ⟨(I.list j).not_mem (by simp [placed]),
        (I.queue j).not_mem (by simp [placed])⟩⟩
      rw [I.out.count_eq_one placed, (I.list k).count_eq_zero (by simp [placed]),
        (I.queue k).count_eq_zero (by simp [placed])]
    | list k =>
      rw [placed] at ok
      refine ⟨k, ok, ?_, fun j hj => ⟨(I.list j).not_mem (by simp [placed, Ne.symm hj]),
        (I.queue j).not_mem (by simp [placed])⟩⟩
      rw [I.out.count_eq_zero (by simp [placed]), (I.list k).count_eq_one placed,
        (I.queue k).count_eq_zero (by simp [placed])]
    | queue k =>
      rw [placed] at ok
      refine ⟨k, ok.2.1, ?_, fun j hj => ⟨(I.list j).not_mem (by simp [placed]),
        (I.queue j).not_mem (by simp [placed, Ne.symm hj])⟩⟩
      rw [I.out.count_eq_zero (by simp [placed]), (I.list k).count_eq_zero (by simp [placed]),
        (I.queue k).count_eq_one placed]
  created k a ha h := by
    have nowhere := I.nowhere a h
    rcases ha with ha | ha | ha
    · exact I.out.not_mem (by simp [nowhere]) ha
    · exact (I.list k).not_mem (by simp [nowhere]) ha
    · exact (I.queue k).not_mem (by simp [nowhere]) ha
  queued k a node ha h := by
    have ok := I.node a node h
    rw [((I.queue k).mem a).mp ha] at ok
    exact ok.1

/-- **Conservation**: in every run in which callers free what they were given, once, each node is in
one place; `Alloc` returns none that is handed out; `PopReclaimQueue` ends, and never puts a node
back to go on; and what another thread freed has waited three generations. -/
theorem run_conserved {as : List Action}
    (hr : Run (fun s a t => step s a = .ok t) Given init as t) :
    (∃ lists, Conserved t lists) ∧ Waited t ∧ (∀ action, Given t action → ∃ u, step t action = .ok u) ∧
      (∀ k fresh u, Given t (.alloc k fresh) → step t (.alloc k fresh) = .ok u →
        ∃ a, u.handedOut = a :: t.handedOut ∧ a ∉ t.handedOut) ∧
      ∀ k fuel, (t.pools k).reclaimQueue.length < fuel →
        ∃ r, reclaimLoop k fuel 0 (t.age k) = .ok r := by
  have K : Kept t := by
    apply hr.invariant (I := Kept) ⟨⟨_, _, Inv.init⟩, rfl, by simp [TLSMemoryPool.init]⟩
    intro s action u K given h
    obtain ⟨u', h', K'⟩ := K.step given
    rw [h] at h'
    cases h'
    exact K'
  refine ⟨?_, K.waited, fun action given => ?_, fun k fresh u given h => ?_, fun k fuel h => ?_⟩
  · obtain ⟨place, lists, I⟩ := K.placed
    exact ⟨lists, I.conserved⟩
  · obtain ⟨u, h, -⟩ := K.step given
    exact ⟨u, h⟩
  · obtain ⟨u', a, h', returned, K'⟩ := K.alloc (k := k) given.1 given.2
    rw [show step t (.alloc k fresh) = alloc t k fresh from rfl, h'] at h
    cases h
    obtain ⟨place, lists, I⟩ := K'.placed
    refine ⟨a, returned, ?_⟩
    have nodup := I.out.nodup
    rw [returned] at nodup
    exact (List.nodup_cons.mp nodup).1
  · obtain ⟨n, u, h, -⟩ := K.popReclaimQueue h
    exact ⟨(n, u), h⟩

/-- A node that thread 1 has freed comes back to thread 0 after three calls of `PopReclaimQueue`. -/
theorem run_conserved_reclaim :
    ∃ t, Run (fun s a t => step s a = .ok t) Given init
      [.alloc 0 8, .free 1 8, .popReclaimQueue 0, .popReclaimQueue 0, .popReclaimQueue 0,
        .alloc 0 9] t ∧
      t.handedOut = [8] ∧ t.entered = [(0, 3)] ∧ ∃ lists, Conserved t lists := by
  obtain ⟨t, hr, handedOut, entered⟩ : ∃ t, Run (fun s a t => step s a = .ok t) Given init
      [.alloc 0 8, .free 1 8, .popReclaimQueue 0, .popReclaimQueue 0, .popReclaimQueue 0,
        .alloc 0 9] t ∧ t.handedOut = [8] ∧ t.entered = [(0, 3)] :=
    ⟨_, .cons rfl ⟨by decide, rfl⟩ <| .cons rfl List.mem_cons_self <| .cons rfl trivial <|
      .cons rfl trivial <| .cons rfl trivial <| .cons rfl ⟨by decide, rfl⟩ .nil, rfl, rfl⟩
  exact ⟨t, hr, handedOut, entered, (run_conserved hr).1⟩

end TLSMemoryPool

end IocpServer
