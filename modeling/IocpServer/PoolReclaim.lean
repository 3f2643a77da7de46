import IocpServer.Lib.Pass
import IocpServer.TlsMemoryPool

/-!
# How long a node waits in the reclaim queue

`PopReclaimQueue` passes over the reclaim queue: the nodes in front that have waited three
generations go to the free list, the first one that has not goes to the back.

* `reclaimLoop_pass` — the loop of `PopReclaimQueue` is one pass.
* `Waiting` — a node that has waited three generations at the next call; `Waiting.step`.
* `run_reclaims` — **with `n` nodes in front of it, it is in the free list after `n + 1` calls, in
  every interleaving with the other threads.**
-/

set_option autoImplicit false

namespace IocpServer

open Lib

namespace TLSMemoryPool

/-- `nodeGeneration` of the node at `a`. -/
def State.nodeGeneration (s : State) (a : Nat) : Int :=
  match s.heap a with
  | none => 0
  | some node => node.nodeGeneration

/-- The node at `a` has waited three generations of thread `k`. -/
def State.old (s : State) (k a : Nat) : Bool :=
  decide (s.nodeGeneration a + 3 ≤ (s.pools k).generation)

/-- One pass of thread `k` has led from `s` to `t`. -/
structure Passed (k : Nat) (s t : State) : Prop where
  queue : (t.pools k).reclaimQueue = leftOver (s.old k) (s.pools k).reclaimQueue
  generation : (t.pools k).generation = (s.pools k).generation
  others : ∀ j, j ≠ k → t.pools j = s.pools j
  nodeGeneration : t.nodeGeneration = s.nodeGeneration
  handedOut : t.handedOut = s.handedOut

variable {s t u : State} {place : Nat → Place} {lists : Nat → List Nat} {out : List Nat}
  {k a b n : Nat} {node node' : Node} {action : Action}

theorem State.nodeGeneration_some (h : s.heap a = some node) :
    s.nodeGeneration a = node.nodeGeneration := by
  rw [State.nodeGeneration, h]

/-- A node written with the generation it had. -/
theorem nodeGeneration_write {next : Nat} {ownerPool : Option Nat} (h : s.heap b = some node)
    (heap : t.heap =
      Function.update s.heap b (some { node with next := next, ownerPool := ownerPool })) :
    t.nodeGeneration = s.nodeGeneration := by
  funext a
  by_cases hab : a = b
  · subst hab
    rw [State.nodeGeneration_some h, State.nodeGeneration, heap, Function.update_self]
  · rw [State.nodeGeneration, heap, Function.update_of_ne hab, State.nodeGeneration]

theorem nodeGeneration_write_of_ne (heap : t.heap = Function.update s.heap b (some node'))
    (h : a ≠ b) : t.nodeGeneration a = s.nodeGeneration a := by
  rw [State.nodeGeneration, heap, Function.update_of_ne h, State.nodeGeneration]

/-! ## One pass -/

/-- The state without the node in front of the queue. -/
def State.dequeued (s : State) (k : Nat) (queue : List Nat) : State :=
  s.setPool k { s.pools k with reclaimQueue := queue }

/-- The node is given back to the free list. -/
def State.reclaimed (s : State) (k a : Nat) (queue : List Nat) (node : Node) : State :=
  { (s.dequeued k queue).push k a node with
    entered := s.entered ++ [(s.freedAt a, (s.pools k).generation)] }

theorem reclaimLoop_old {fuel count : Nat} {queue : List Nat}
    (hq : (s.pools k).reclaimQueue = a :: queue) (hnode : s.heap a = some node)
    (hnext : node.next = 0) (old : node.nodeGeneration + 3 ≤ (s.pools k).generation) :
    reclaimLoop k (fuel + 1) count s =
      reclaimLoop k fuel (count + 1) (s.reclaimed k a queue node) := by
  have deref : (s.setPool k { s.pools k with reclaimQueue := queue }).deref a = .ok node := by
    simp [State.deref, State.setPool, hnode]
  rw [reclaimLoop, hq]
  simp only [deref, bind, Except.bind, State.setPool_self, old, if_true, hnext, ne_eq, not_true,
    if_false]
  rfl

theorem reclaimLoop_young {fuel count : Nat} {queue : List Nat}
    (hq : (s.pools k).reclaimQueue = a :: queue) (hnode : s.heap a = some node)
    (young : ¬ node.nodeGeneration + 3 ≤ (s.pools k).generation) :
    reclaimLoop k (fuel + 1) count s = .ok (count, (s.dequeued k queue).enqueue k a) := by
  have deref : (s.setPool k { s.pools k with reclaimQueue := queue }).deref a = .ok node := by
    simp [State.deref, State.setPool, hnode]
  rw [reclaimLoop, hq]
  simp only [deref, bind, Except.bind, State.setPool_self, young, if_false]
  rfl

theorem State.reclaimed_pool (s : State) (k a : Nat) (queue : List Nat) (node : Node) :
    ((s.reclaimed k a queue node).pools k).reclaimQueue = queue ∧
      ((s.reclaimed k a queue node).pools k).generation = (s.pools k).generation := by
  constructor <;> simp [State.reclaimed, State.dequeued, State.push]

/-- The others of the queue are as old as they were. -/
theorem State.reclaimed_old (k : Nat) (queue : List Nat) (hnode : s.heap a = some node) :
    (s.reclaimed k a queue node).nodeGeneration = s.nodeGeneration ∧
      (s.reclaimed k a queue node).old k = s.old k := by
  have same : (s.reclaimed k a queue node).nodeGeneration = s.nodeGeneration :=
    nodeGeneration_write hnode rfl
  refine ⟨same, funext fun b => ?_⟩
  rw [State.old, same, (s.reclaimed_pool k a queue node).2, State.old]

/-- **The loop of `PopReclaimQueue` is one pass**: it gives back the nodes in front that are old, the
last of them is the head of the free list, and it returns how many they are. -/
theorem reclaimLoop_pass (I : Inv s place lists out) {fuel : Nat} (count : Nat)
    (h : (s.pools k).reclaimQueue.length < fuel) :
    ∃ t place', reclaimLoop k fuel count s =
        .ok (count + ((s.pools k).reclaimQueue.takeWhile (s.old k)).length, t) ∧
      Inv t place' (Function.update lists k
        (((s.pools k).reclaimQueue.takeWhile (s.old k)).reverse ++ lists k)) out ∧
      Passed k s t := by
  induction fuel generalizing s place lists count with
  | zero => exact absurd h (Nat.not_lt_zero _)
  | succ fuel ih =>
    cases hq : (s.pools k).reclaimQueue with
    | nil =>
      refine ⟨s, place, by rw [reclaimLoop, hq]; rfl, ?_, ?_⟩
      · rw [List.takeWhile_nil, List.reverse_nil, List.nil_append, Function.update_eq_self]
        exact I
      · exact ⟨by rw [hq]; rfl, rfl, fun _ _ => rfl, rfl, rfl⟩
    | cons a queue =>
      obtain ⟨node, hnode, ⟨hnext, howner, hgen⟩, place', I'⟩ := I.dequeue hq
      have hold : s.old k a = decide (node.nodeGeneration + 3 ≤ (s.pools k).generation) := by
        rw [State.old, State.nodeGeneration_some hnode]
      by_cases old : node.nodeGeneration + 3 ≤ (s.pools k).generation
      · -- the node goes to the free list, and the loop passes over the rest
        obtain ⟨place'', I''⟩ := I'.push hnode howner
        obtain ⟨hqueue, hgeneration⟩ := s.reclaimed_pool k a queue node
        obtain ⟨hnodes, holds⟩ := State.reclaimed_old k queue hnode
        rw [hq, List.length_cons] at h
        obtain ⟨t, place₃, run, I₃, passed⟩ :=
          @ih (s.reclaimed k a queue node) _ _ (I''.congr rfl rfl rfl) (count + 1)
            (hqueue.symm ▸ Nat.lt_of_succ_lt_succ h)
        have taken : s.old k a = true := hold.trans (decide_eq_true old)
        rw [hqueue, holds] at run I₃
        rw [List.takeWhile_cons_of_pos taken, List.length_cons, List.reverse_cons]
        refine ⟨t, place₃, ?_, ?_, ?_⟩
        · rw [reclaimLoop_old hq hnode hnext old, run, Nat.add_right_comm, Nat.add_assoc]
        · rw [Function.update_self, Function.update_idem] at I₃
          rw [List.append_assoc, List.singleton_append]
          exact I₃
        · refine ⟨?_, passed.generation.trans hgeneration, fun j hj => ?_,
            passed.nodeGeneration.trans hnodes, passed.handedOut⟩
          · rw [passed.queue, hqueue, holds, hq, leftOver_cons_of_pos taken]
          · rw [passed.others j hj]
            simp [State.reclaimed, State.dequeued, State.push, hj]
      · -- the node goes to the back of the queue
        have back : (s.dequeued k queue).heap = Function.update s.heap a (some node) :=
          (Function.update_eq_self_iff.mpr hnode.symm).symm
        obtain ⟨place'', I''⟩ := @Inv.enqueue _ ((s.dequeued k queue).enqueue k a) _ _ _ k a node I'
          (I'.ne_null hnode) back rfl (fun _ _ => rfl) ⟨hnext, howner, hgen⟩
        have kept : ¬ s.old k a = true := by
          rw [hold, decide_eq_true_iff]
          exact old
        rw [List.takeWhile_cons_of_neg kept]
        refine ⟨(s.dequeued k queue).enqueue k a, place'', reclaimLoop_young hq hnode old, ?_, ?_⟩
        · rw [List.reverse_nil, List.nil_append, Function.update_eq_self]
          exact I''
        · refine ⟨?_, ?_, fun j hj => ?_, rfl, rfl⟩
          · rw [hq, leftOver_cons_of_neg kept]
            simp [State.dequeued, State.enqueue]
          · simp [State.dequeued, State.enqueue]
          · simp [State.dequeued, State.enqueue, hj]

theorem State.age_pool (s : State) (k : Nat) :
    ((s.age k).pools k).reclaimQueue = (s.pools k).reclaimQueue ∧
      ((s.age k).pools k).generation = (s.pools k).generation + 1 := by
  constructor <;> simp [State.age]

/-- `PopReclaimQueue` is a pass in the next generation. -/
theorem popReclaimQueue_pass (I : Inv s place lists out) :
    ∃ t place', step s (.popReclaimQueue k) = .ok t ∧
      Inv t place' (Function.update lists k
        (((s.pools k).reclaimQueue.takeWhile ((s.age k).old k)).reverse ++ lists k)) out ∧
      Passed k (s.age k) t := by
  have hqueue := (s.age_pool k).1
  have fuel : ((s.age k).pools k).reclaimQueue.length < (s.pools k).reclaimQueue.length + 1 := by
    rw [hqueue]
    exact Nat.lt_succ_self _
  obtain ⟨t, place', run, I', passed⟩ := reclaimLoop_pass (k := k) (I.age k) 0 fuel
  rw [hqueue] at run I'
  refine ⟨t, place', ?_, I', passed⟩
  simp only [step, popReclaimQueue, run, Except.map]

/-! ## Waiting -/

/-- The node waits with `n` others in front of it, and has waited three generations at the next
call. -/
def Waiting (s : State) (k a n : Nat) : Prop :=
  (∃ front back, (s.pools k).reclaimQueue = front ++ a :: back ∧ front.length = n) ∧
    s.nodeGeneration a + 2 ≤ (s.pools k).generation

theorem Waiting.mem (W : Waiting s k a n) : a ∈ (s.pools k).reclaimQueue := by
  obtain ⟨⟨front, back, hqueue, -⟩, -⟩ := W
  rw [hqueue]
  exact List.mem_append_right front List.mem_cons_self

/-- A step leaves the nodes of a reclaim queue where they are; others may join behind them. -/
structure Joined (k : Nat) (s t : State) : Prop where
  queue : ∃ newcomers, (t.pools k).reclaimQueue = (s.pools k).reclaimQueue ++ newcomers
  generation : (t.pools k).generation = (s.pools k).generation
  nodeGeneration : ∀ a ∈ (s.pools k).reclaimQueue, t.nodeGeneration a = s.nodeGeneration a

theorem Waiting.joined (W : Waiting s k a n) (J : Joined k s t) : Waiting t k a n := by
  have same := J.nodeGeneration a W.mem
  obtain ⟨⟨front, back, hfront, hlength⟩, old⟩ := W
  obtain ⟨newcomers, hqueue⟩ := J.queue
  refine ⟨⟨front, back ++ newcomers, ?_, hlength⟩, ?_⟩
  · rw [hqueue, hfront, List.append_assoc, List.cons_append]
  · rw [same, J.generation]
    exact old

/-- A step that writes only the head of a free list and the counters of a pool. -/
theorem Joined.of_setPool {pool : Pool} {j : Nat} (pools : t.pools = (s.setPool j pool).pools)
    (queue : pool.reclaimQueue = (s.pools j).reclaimQueue)
    (generation : pool.generation = (s.pools j).generation)
    (nodes : ∀ a ∈ (s.pools k).reclaimQueue, t.nodeGeneration a = s.nodeGeneration a) :
    Joined k s t := by
  by_cases hk : k = j
  · subst hk
    refine ⟨⟨[], ?_⟩, ?_, nodes⟩ <;> rw [pools, State.setPool_self]
    · rw [queue, List.append_nil]
    · exact generation
  · refine ⟨⟨[], ?_⟩, ?_, nodes⟩ <;> rw [pools, State.setPool_ne _ _ _ hk]
    rw [List.append_nil]

/-- The nodes of the queue are allocated. -/
theorem Inv.queued (I : Inv s place lists out) (h : a ∈ (s.pools k).reclaimQueue) :
    s.heap a ≠ none ∧ a ∉ out := by
  have placed := ((I.queue k).mem a).mp h
  refine ⟨fun hnone => ?_, I.out.not_mem (by rw [placed]; exact Place.noConfusion)⟩
  have nowhere := I.nowhere a hnone
  rw [placed] at nowhere
  cases nowhere

theorem Joined.alloc (I : Inv s place lists out) {j fresh : Nat} (h : s.heap fresh = none)
    (hstep : alloc s j fresh = .ok t) : Joined k s t := by
  simp only [TLSMemoryPool.alloc, State.deref] at hstep
  split at hstep
  · cases hstep
    refine .of_setPool (j := j) rfl rfl rfl fun a ha => ?_
    exact nodeGeneration_write_of_ne rfl fun he => (I.queued ha).1 (he ▸ h)
  · cases hnode : s.heap (s.pools j).node with
    | none =>
      rw [hnode] at hstep
      cases hstep
    | some temp =>
      rw [hnode] at hstep
      cases hstep
      exact .of_setPool (j := j) rfl rfl rfl fun a _ =>
        congrFun (nodeGeneration_write hnode rfl) a

theorem Joined.free (I : Inv s place lists s.handedOut) {j : Nat} (h : b ∈ s.handedOut)
    (hstep : free s j b = .ok t) : Joined k s t := by
  cases hnode : s.heap b with
  | none =>
    simp only [TLSMemoryPool.free, State.deref, hnode] at hstep
    cases hstep
  | some temp =>
    simp only [TLSMemoryPool.free, State.deref, hnode, bind, Except.bind] at hstep
    split at hstep
    · cases hstep
      exact .of_setPool (j := j) rfl rfl rfl fun a _ =>
        congrFun (nodeGeneration_write hnode rfl) a
    · split at hstep
      · cases hstep
      · -- the node joins the reclaim queue of its owner
        rename_i owner _
        cases hstep
        have nodes : ∀ a ∈ (s.pools k).reclaimQueue,
            (pushReclaimQueue { s with handedOut := s.handedOut.erase b } owner b temp).nodeGeneration a
              = s.nodeGeneration a :=
          fun a ha => nodeGeneration_write_of_ne rfl fun he => (I.queued ha).2 (he ▸ h)
        by_cases hk : k = owner
        · subst hk
          exact ⟨⟨[b], by simp [pushReclaimQueue, State.enqueue]⟩,
            by simp [pushReclaimQueue, State.enqueue], nodes⟩
        · exact ⟨⟨[], by simp [pushReclaimQueue, State.enqueue, hk]⟩,
            by simp [pushReclaimQueue, State.enqueue, hk], nodes⟩

theorem Joined.popReclaimQueue {j : Nat} (I : Inv s place lists out) (hj : k ≠ j)
    (hstep : step s (.popReclaimQueue j) = .ok t) : Joined k s t := by
  obtain ⟨t', place', run, -, passed⟩ := popReclaimQueue_pass (k := j) I
  rw [run] at hstep
  cases hstep
  have others : t.pools k = s.pools k := by
    rw [passed.others k hj]
    simp [State.age, hj]
  exact ⟨⟨[], by rw [others, List.append_nil]⟩, by rw [others], fun a _ =>
    congrFun passed.nodeGeneration a⟩

/-! ## Runs -/

/-- The calls of `PopReclaimQueue` of thread `k`. -/
def pops (k : Nat) (as : List Action) : Nat :=
  as.countP fun
    | .popReclaimQueue j => j == k
    | _ => false

/-- The node is in the free list of thread `k`. -/
def InFreeList (s : State) (k a : Nat) : Prop := ∃ lists, Conserved s lists ∧ a ∈ lists k

/-- **One step**: a call of its owner brings the node to the free list or nearer to the front, no
other step moves it back. -/
theorem Waiting.step (K : Kept s) (W : Waiting s k a n) (given : Given s action)
    (hstep : TLSMemoryPool.step s action = .ok t) :
    InFreeList t k a ∨ ∃ m, m + pops k [action] ≤ n ∧ Waiting t k a m := by
  obtain ⟨place, lists, I⟩ := K.placed
  have joined (J : Joined k s t) (h : pops k [action] = 0) :
      InFreeList t k a ∨ ∃ m, m + pops k [action] ≤ n ∧ Waiting t k a m :=
    .inr ⟨n, by rw [h, Nat.add_zero], W.joined J⟩
  cases action with
  | alloc j fresh => exact joined (.alloc I given.2 hstep) rfl
  | free j b => exact joined (.free I given hstep) rfl
  | popReclaimQueue j =>
    by_cases hk : k = j
    · subst hk
      obtain ⟨t', place', run, I', passed⟩ := popReclaimQueue_pass (k := k) I
      rw [run] at hstep
      cases hstep
      obtain ⟨⟨front, back, hqueue, hlength⟩, waited⟩ := W
      obtain ⟨same, aged⟩ := s.age_pool k
      have old : (s.age k).old k a = true := by
        rw [State.old, decide_eq_true_iff, aged]
        change s.nodeGeneration a + 3 ≤ _
        omega
      rw [hqueue] at I'
      have hleft := passed.queue
      rw [same, hqueue] at hleft
      rcases pass_place front back old with taken | ⟨front', back', hfront, less⟩
      · left
        refine ⟨_, (passed.handedOut.symm ▸ I').conserved, ?_⟩
        rw [Function.update_self]
        exact List.mem_append_left _ (List.mem_reverse.mpr taken)
      · right
        refine ⟨front'.length, ?_, ⟨front', back', hleft.trans hfront, rfl⟩, ?_⟩
        · simp only [pops, List.countP_singleton, beq_self_eq_true, if_true]
          omega
        · rw [passed.nodeGeneration, passed.generation, aged]
          change s.nodeGeneration a + 2 ≤ _
          omega
    · refine joined (.popReclaimQueue I hk hstep) ?_
      simp [pops, Ne.symm hk]

theorem Kept.run {as : List Action} (K : Kept s)
    (hr : Run (fun s a t => TLSMemoryPool.step s a = .ok t) Given s as t) : Kept t := by
  apply hr.invariant K
  intro s action u K given h
  obtain ⟨u', h', K'⟩ := K.step given
  rw [h] at h'
  cases h'
  exact K'

/-- **How long a node waits.**  Take a node that another thread has freed, that will have waited three
generations at the next call of its owner, and that has `front` before it in the reclaim queue.  In
every run that calls `PopReclaimQueue` of the owner more than `front.length` times, whatever else the
threads allocate, free and reclaim in between, the node gets to the free list. -/
theorem run_reclaims {as bs : List Action} {front back : List Nat}
    (hr : Run (fun s a t => step s a = .ok t) Given init as s)
    (hqueue : (s.pools k).reclaimQueue = front ++ a :: back) (hnode : s.heap a = some node)
    (waited : node.nodeGeneration + 3 ≤ (s.pools k).generation + 1)
    (hr' : Run (fun s a t => step s a = .ok t) Given s bs t) (calls : front.length < pops k bs) :
    ∃ cs ds u, bs = cs ++ ds ∧ Run (fun s a t => step s a = .ok t) Given s cs u ∧
      pops k cs ≤ front.length + 1 ∧ InFreeList u k a := by
  have K : Kept s := Kept.run ⟨⟨_, _, Inv.init⟩, rfl, by simp [TLSMemoryPool.init]⟩ hr
  have W : Waiting s k a front.length := by
    refine ⟨⟨front, back, hqueue, rfl⟩, ?_⟩
    rw [State.nodeGeneration_some hnode]
    omega
  -- the node is free at some moment, or it waits with fewer before it for each call
  have either : (∃ cs ds u, bs = cs ++ ds ∧ Run (fun s a t => step s a = .ok t) Given s cs u ∧
      pops k cs ≤ front.length + 1 ∧ InFreeList u k a) ∨
      ∃ m, m + pops k bs ≤ front.length ∧ Waiting t k a m := by
    clear calls
    induction hr' with
    | nil => exact .inr ⟨front.length, by simp [pops], W⟩
    | @snoc bs v w b hr' given hstep ih =>
      rcases ih with ⟨cs, ds, u, rfl, hu, hcs, free⟩ | ⟨m, hm, W'⟩
      · exact .inl ⟨cs, ds ++ [b], u, List.append_assoc _ _ _, hu, hcs, free⟩
      · have K' : Kept v := K.run hr'
        have split : pops k (bs ++ [b]) = pops k bs + pops k [b] := List.countP_append
        rcases W'.step K' given hstep with free | ⟨m', hm', W''⟩
        · have one : pops k [b] ≤ 1 := List.countP_le_length
          exact .inl ⟨bs ++ [b], [], w, (List.append_nil _).symm, hr'.snoc given hstep,
            by omega, free⟩
        · exact .inr ⟨m', by omega, W''⟩
  rcases either with found | ⟨m, hm, -⟩
  · exact found
  · omega

/-- A younger node has come to the front: the older one waits for one call more. -/
theorem run_reclaims_behind_younger : ∃ s t cs ds u,
    Run (fun s a t => step s a = .ok t) Given s
      [.popReclaimQueue 0, .alloc 1 10, .popReclaimQueue 0] t ∧
    (s.pools 0).reclaimQueue = [9, 8] ∧
    [.popReclaimQueue 0, .alloc 1 10, .popReclaimQueue 0] = cs ++ ds ∧
    Run (fun s a t => step s a = .ok t) Given s cs u ∧ pops 0 cs ≤ 2 ∧ InFreeList u 0 8 := by
  obtain ⟨s, hr, hqueue, node, hnode, waited, t, hr'⟩ : ∃ s, Run (fun s a t => step s a = .ok t)
      Given init [.alloc 0 8, .alloc 0 9, .free 1 8, .popReclaimQueue 0, .free 1 9,
        .popReclaimQueue 0] s ∧ (s.pools 0).reclaimQueue = [9, 8] ∧ ∃ node, s.heap 8 = some node ∧
      node.nodeGeneration + 3 ≤ (s.pools 0).generation + 1 ∧ ∃ t,
      Run (fun s a t => step s a = .ok t) Given s
        [.popReclaimQueue 0, .alloc 1 10, .popReclaimQueue 0] t :=
    ⟨_, .cons rfl ⟨by decide, rfl⟩ <| .cons rfl ⟨by decide, rfl⟩ <| .cons rfl (show 8 ∈ [9, 8] by decide) <|
      .cons rfl trivial <| .cons rfl (show 9 ∈ [9] by decide) <| .cons rfl trivial .nil, rfl, _, rfl, by decide,
      _, .cons rfl trivial <| .cons rfl ⟨by decide, rfl⟩ <| .cons rfl trivial .nil⟩
  obtain ⟨cs, ds, u, split, hu, calls, free⟩ := run_reclaims hr
    (show (s.pools 0).reclaimQueue = [9] ++ 8 :: [] from hqueue) hnode waited hr' (by decide)
  exact ⟨s, t, cs, ds, u, hr', hqueue, split, hu, calls, free⟩

end TLSMemoryPool

end IocpServer
