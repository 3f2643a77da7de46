import Mathlib.Data.List.Infix

/-!
# A queue served in rounds

A worker asks how many requests wait, takes that many of them from the front, one after the other
and at most `cap`, and asks again.  Meanwhile requests join at the back, those the worker puts back
among them.

* `Ahead` — how far the worker has come since a certain moment: `upTo` are the requests that waited
  then, up to the one in question; `taken` and `rounds` count from then on.
* `Ahead.join`, `Ahead.begin`, `Ahead.take` — what can happen.
* `Ahead.served` — **with as many rounds as `upTo` has portions of `cap`, all of `upTo` is taken, in
  order.**
-/

set_option autoImplicit false

namespace Lib

variable {α : Type*} {upTo taken waiting : List α} {a : α} {cap left left' rounds : Nat}

/-- `left` requests may still be taken in the present round. -/
structure Ahead (upTo : List α) (cap : Nat) (taken waiting : List α) (left rounds : Nat) :
    Prop where
  order : upTo <+: taken ++ waiting
  /-- Each round has taken its `cap`, or is going to; unless it comes to the end of `upTo`. -/
  paid : cap * rounds ≤ taken.length + left ∨ upTo.length ≤ taken.length + left

theorem Ahead.now (h : upTo <+: waiting) (left : Nat) : Ahead upTo cap [] waiting left 0 :=
  ⟨h, .inl (Nat.zero_le _)⟩

theorem Ahead.join (A : Ahead upTo cap taken waiting left rounds) (a : α) :
    Ahead upTo cap taken (waiting ++ [a]) left rounds := by
  refine ⟨?_, A.paid⟩
  rw [← List.append_assoc]
  exact A.order.trans (List.prefix_append _ _)

theorem Ahead.length_le (A : Ahead upTo cap taken waiting left rounds) :
    upTo.length ≤ taken.length + waiting.length := by
  have length := A.order.length_le
  rwa [List.length_append] at length

/-- A round begins in which all that waits may be taken, or `cap` of it. -/
theorem Ahead.begin (A : Ahead upTo cap taken waiting 0 rounds)
    (h : min cap waiting.length ≤ left) : Ahead upTo cap taken waiting left (rounds + 1) := by
  have length := A.length_le
  refine ⟨A.order, ?_⟩
  rcases A.paid with paid | paid
  · rw [Nat.mul_succ]
    omega
  · exact .inr (by omega)

/-- A round begins in which less may be taken; it is not counted. -/
theorem Ahead.beginShort (A : Ahead upTo cap taken waiting 0 rounds) (left : Nat) :
    Ahead upTo cap taken waiting left rounds := by
  refine ⟨A.order, ?_⟩
  rcases A.paid with paid | paid
  · exact .inl (by omega)
  · exact .inr (by omega)

theorem Ahead.take (A : Ahead upTo cap taken (a :: waiting) (left + 1) rounds) :
    Ahead upTo cap (taken ++ [a]) waiting left rounds := by
  refine ⟨?_, ?_⟩
  · rw [List.append_assoc, List.singleton_append]
    exact A.order
  · have paid := A.paid
    rw [List.length_append, List.length_singleton]
    omega

/-- **Between two rounds, with as many rounds as `upTo` has portions of `cap`, all of `upTo` is
taken, in order.** -/
theorem Ahead.served (A : Ahead upTo cap taken waiting 0 rounds)
    (h : upTo.length ≤ cap * rounds) : upTo <+: taken := by
  have long : upTo.length ≤ taken.length := by
    rcases A.paid with paid | paid <;> omega
  exact List.prefix_of_prefix_length_le A.order (List.prefix_append _ _) long

end Lib
