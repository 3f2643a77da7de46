import Mathlib.Data.List.Basic
import Mathlib.Logic.Function.Basic

/-!
# Tables whose entries are set and cleared

A table is a function into `Option`; `Function.update` sets or clears one entry.

* `update_none_eq_some`, `update_some_eq_some` — what stands in a table after one entry has been
  cleared, or set.
* `occupied` — how many of the first entries are set; `occupied_set`, `occupied_clear`.
* `patch` — a table of finitely many entries in memory, with what lies behind it.
-/

set_option autoImplicit false

namespace Lib

variable {ι α : Type*} {a b : α}

section

variable [DecidableEq ι] {table : ι → Option α} {i j : ι}

theorem update_none_eq_some :
    Function.update table i none j = some a ↔ j ≠ i ∧ table j = some a := by
  by_cases hj : j = i
  · subst hj
    simp
  · simp [hj]

theorem update_some_eq_some :
    Function.update table i (some b) j = some a ↔ j = i ∧ b = a ∨ j ≠ i ∧ table j = some a := by
  by_cases hj : j = i
  · subst hj
    simp
  · simp [hj]

end

/-- How many of the first `n` entries are set. -/
def occupied (n : Nat) (table : Nat → Option α) : Nat :=
  (List.range n).countP fun i => (table i).isSome

section

variable {n : Nat} {table table' : Nat → Option α} {i : Nat}

theorem occupied_succ :
    occupied (n + 1) table = occupied n table + if (table n).isSome then 1 else 0 := by
  rw [occupied, List.range_succ, List.countP_append, List.countP_singleton]
  rfl

theorem occupied_congr (h : ∀ j, j < n → table j = table' j) :
    occupied n table = occupied n table' :=
  List.countP_congr fun j hj => by rw [h j (List.mem_range.mp hj)]

theorem occupied_set (h : table i = none) (hi : i < n) :
    occupied n (Function.update table i (some a)) = occupied n table + 1 := by
  induction n with
  | zero => cases hi
  | succ n ih =>
    rw [occupied_succ, occupied_succ]
    by_cases hin : i = n
    · subst hin
      rw [Function.update_self, h,
        occupied_congr fun j hj => Function.update_of_ne (Nat.ne_of_lt hj) _ table]
      rfl
    · rw [ih (by omega), Function.update_of_ne (Ne.symm hin)]
      omega

theorem occupied_clear (h : table i = some a) (hi : i < n) :
    occupied n (Function.update table i none) + 1 = occupied n table := by
  have hset := @occupied_set α a n (Function.update table i none) i (Function.update_self ..) hi
  rw [Function.update_idem, ← h, Function.update_eq_self] at hset
  exact hset.symm

end

/-- A table of `n` entries, and `rest` in the memory behind them. -/
def patch (n : Nat) (rest table : Nat → α) (i : Nat) : α := if i < n then table i else rest i

section

variable {n : Nat} {rest table : Nat → α} {i : Nat}

theorem patch_of_lt (h : i < n) : patch n rest table i = table i := if_pos h

theorem patch_of_le (h : n ≤ i) : patch n rest table i = rest i := if_neg (Nat.not_lt.mpr h)

theorem patch_patch {rest' : Nat → α} : patch n rest' (patch n rest table) = patch n rest' table := by
  funext j
  unfold patch
  split <;> rfl

/-- A write to one of the entries leaves the rest alone. -/
theorem patch_update (h : i < n) :
    patch n rest (Function.update table i a) = Function.update (patch n rest table) i a := by
  funext j
  by_cases hj : j = i
  · subst hj
    rw [patch_of_lt h, Function.update_self, Function.update_self]
  · rw [Function.update_of_ne hj, patch, patch, Function.update_of_ne hj]

end

end Lib
