import Mathlib.Data.List.Rotate
import Mathlib.Data.List.TakeWhile

/-!
# Passes over a queue

A pass takes the entries of a queue from the front as long as they are `old`; the first that is not
goes to the back, and the pass ends.  Newcomers join at the back.

* `leftOver` — what a pass leaves in the queue.
* `pass_place` — **an old entry is taken, or has come nearer to the front.**
-/

set_option autoImplicit false

namespace Lib

variable {α : Type*} {old : α → Bool} {queue front back : List α} {a : α}

/-- What a pass leaves in the queue. -/
def leftOver (old : α → Bool) (queue : List α) : List α := (queue.dropWhile old).rotate 1

theorem leftOver_cons_of_pos (h : old a = true) : leftOver old (a :: queue) = leftOver old queue := by
  rw [leftOver, List.dropWhile_cons_of_pos h, leftOver]

theorem leftOver_cons_of_neg (h : ¬ old a = true) : leftOver old (a :: queue) = queue ++ [a] := by
  rw [leftOver, List.dropWhile_cons_of_neg h, List.rotate_cons_succ, List.rotate_zero]

/-- **An old entry is taken, or has come nearer to the front.** -/
theorem pass_place (front back : List α) (h : old a = true) :
    a ∈ (front ++ a :: back).takeWhile old ∨
      ∃ front' back', leftOver old (front ++ a :: back) = front' ++ a :: back' ∧
        front'.length < front.length := by
  induction front with
  | nil =>
    left
    rw [List.nil_append, List.takeWhile_cons_of_pos h]
    exact List.mem_cons_self
  | cons b front ih =>
    by_cases hb : old b = true
    · rw [List.cons_append, List.takeWhile_cons_of_pos hb, leftOver_cons_of_pos hb]
      rcases ih with ih | ⟨front', back', ih, shorter⟩
      · exact .inl (List.mem_cons_of_mem _ ih)
      · exact .inr ⟨front', back', ih, Nat.lt_succ_of_lt shorter⟩
    · right
      refine ⟨front, back ++ [b], ?_, Nat.lt_succ_self _⟩
      rw [List.cons_append, leftOver_cons_of_neg hb, List.append_assoc, List.cons_append]

end Lib
