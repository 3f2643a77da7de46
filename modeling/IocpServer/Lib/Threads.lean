import Mathlib.Data.List.Basic

/-!
# Thread pools and what their threads hold

A pool is a list of thread states; thread `i` moves by `pool.set i`.  `total f pool` adds up what
the threads hold, thread by thread.

* `total_set` — **the counting rule**: when one thread moves, the total changes by the difference
  of what it holds; `total_set_of_eq` — not at all when that is the same.
* `total_le`, `total_set_le` — when what the threads hold is valued anew.
* `holds_le_total`, `eq_zero_of_total` — what a total says about one thread;
  `holds_add_holds_le_total` — about two.
* `getElem?_set_cases` — after a move, a thread is the one that moved or is where it was.
-/

set_option autoImplicit false

namespace Lib

variable {α : Type*} {f : α → Nat} {pool : List α} {i j : Nat} {a b c : α}

def total (f : α → Nat) : List α → Nat
  | [] => 0
  | a :: pool => f a + total f pool

@[simp] theorem total_cons : total f (a :: pool) = f a + total f pool := rfl

theorem total_append {pool' : List α} : total f (pool ++ pool') = total f pool + total f pool' := by
  induction pool with
  | nil => simp [total]
  | cons c pool ih =>
    simp only [List.cons_append, total_cons, ih]
    omega

/-- **The counting rule.** -/
theorem total_set (h : pool[i]? = some a) : total f (pool.set i b) + f a = total f pool + f b := by
  induction pool generalizing i with
  | nil => simp at h
  | cons c pool ih =>
    cases i with
    | zero =>
      obtain rfl : c = a := by simpa using h
      simp only [List.set_cons_zero, total_cons]
      omega
    | succ i =>
      have := ih (i := i) (by simpa using h)
      simp only [List.set_cons_succ, total_cons]
      omega

/-- What the threads hold is valued anew, at most `d` higher for each. -/
theorem total_le {g : α → Nat} {d : Nat} (pool : List α) (hd : ∀ q, g q ≤ f q + d) :
    total g pool ≤ total f pool + d * pool.length := by
  induction pool with
  | nil => exact Nat.zero_le _
  | cons c pool ih =>
    have := hd c
    rw [total_cons, total_cons, List.length_cons, Nat.mul_succ]
    omega

/-- One thread moves, and what the others hold is valued anew. -/
theorem total_set_le {g : α → Nat} {d : Nat} (h : pool[i]? = some a) (hd : ∀ q, g q ≤ f q + d) :
    total g (pool.set i b) + f a ≤ total f pool + g b + d * (pool.length - 1) := by
  induction pool generalizing i with
  | nil => simp at h
  | cons c pool ih =>
    rw [List.length_cons, Nat.add_sub_cancel]
    cases i with
    | zero =>
      obtain rfl : c = a := by simpa using h
      have := total_le pool hd
      simp only [List.set_cons_zero, total_cons]
      omega
    | succ i =>
      have hi : pool[i]? = some a := by simpa using h
      have shorter := ih hi
      have := hd c
      obtain ⟨m, hm⟩ : ∃ m, pool.length = m + 1 := by
        cases pool with
        | nil => simp at hi
        | cons e pool => exact ⟨pool.length, rfl⟩
      rw [hm, Nat.add_sub_cancel] at shorter
      rw [hm, Nat.mul_succ]
      simp only [List.set_cons_succ, total_cons]
      omega

/-- A thread that holds as much as before does not change the total. -/
theorem total_set_of_eq (h : pool[i]? = some a) (same : f b = f a) :
    total f (pool.set i b) = total f pool := by
  have counted := @total_set _ f _ _ _ b h
  omega

theorem holds_le_total (h : pool[i]? = some a) : f a ≤ total f pool := by
  induction pool generalizing i with
  | nil => simp at h
  | cons c pool ih =>
    cases i with
    | zero =>
      obtain rfl : c = a := by simpa using h
      rw [total_cons]; omega
    | succ i =>
      have := ih (i := i) (by simpa using h)
      rw [total_cons]; omega

/-- Two threads hold no more than the pool. -/
theorem holds_add_holds_le_total (hij : i ≠ j) (hi : pool[i]? = some a) (hj : pool[j]? = some b) :
    f a + f b ≤ total f pool := by
  induction pool generalizing i j with
  | nil => simp at hi
  | cons c pool ih =>
    cases i with
    | zero =>
      cases j with
      | zero => exact absurd rfl hij
      | succ j =>
        obtain rfl : c = a := by simpa using hi
        have := @holds_le_total _ f pool j b (by simpa using hj)
        rw [total_cons]; omega
    | succ i =>
      cases j with
      | zero =>
        obtain rfl : c = b := by simpa using hj
        have := @holds_le_total _ f pool i a (by simpa using hi)
        rw [total_cons]; omega
      | succ j =>
        have := @ih i j (fun h => hij (congrArg Nat.succ h)) (by simpa using hi) (by simpa using hj)
        rw [total_cons]; omega

theorem eq_zero_of_total (h : pool[i]? = some a) (h0 : total f pool = 0) : f a = 0 := by
  have := @holds_le_total _ f _ _ _ h
  omega

theorem total_eq_zero (h : ∀ a ∈ pool, f a = 0) : total f pool = 0 := by
  induction pool with
  | nil => rfl
  | cons c pool ih =>
    rw [total_cons, h c List.mem_cons_self, ih fun a ha => h a (List.mem_cons_of_mem _ ha)]

/-- After a move of thread `i`, thread `j` is that thread or has not moved. -/
theorem getElem?_set_cases (h : (pool.set i b)[j]? = some c) :
    (i = j ∧ c = b) ∨ (i ≠ j ∧ pool[j]? = some c) := by
  by_cases hij : i = j
  · subst hij
    rw [List.getElem?_set_self'] at h
    cases hp : pool[i]? with
    | none => rw [hp] at h; cases h
    | some d => rw [hp] at h; cases h; exact Or.inl ⟨rfl, rfl⟩
  · rw [List.getElem?_set_ne hij] at h
    exact Or.inr ⟨hij, h⟩

theorem getElem?_set_of_some (h : pool[i]? = some a) : (pool.set i b)[i]? = some b := by
  rw [List.getElem?_set_self', h]; rfl

end Lib
