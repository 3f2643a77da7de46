import Mathlib.Data.List.Basic
import Mathlib.Data.List.Range
import Mathlib.Tactic.Ring

/-!
# Cyclic windows of a memory

`window mem n start len` is the sequence of the `len` cells of `mem` that begin at `start`,
positions taken modulo `n`: what a bounded cyclic buffer of `n` cells holds when its oldest
element is at `start`.  `block mem off len` is a plain contiguous block (what a `memcpy`
reads), `store mem off xs` overwrites one.

* `window_add`, `window_take`, `window_drop` — a window is cut at any point.
* `block_eq_window` — a block that does not run over the end is a window.
* `window_scatter` — storing `xs` into the two pieces `[tail, n)` and `[0, …)` behind a
  window extends that window by exactly `xs`.
-/

set_option autoImplicit false

namespace Lib

variable {α : Type*}

def window (mem : Nat → α) (n start len : Nat) : List α :=
  (List.range len).map fun i => mem ((start + i) % n)

/-- The contiguous block of `len` cells at `off`. -/
def block (mem : Nat → α) (off len : Nat) : List α :=
  (List.range len).map fun i => mem (off + i)

/-- Overwrite the block at `off` with `xs`. -/
def store (mem : Nat → α) (off : Nat) (xs : List α) : Nat → α := fun j =>
  if off ≤ j then (xs[j - off]?).getD (mem j) else mem j

@[simp] theorem length_window (mem : Nat → α) (n start len : Nat) :
    (window mem n start len).length = len := by simp [window]

@[simp] theorem length_block (mem : Nat → α) (off len : Nat) :
    (block mem off len).length = len := by simp [block]

@[simp] theorem window_zero (mem : Nat → α) (n start : Nat) : window mem n start 0 = [] := rfl

@[simp] theorem block_zero (mem : Nat → α) (off : Nat) : block mem off 0 = [] := rfl

theorem window_add (mem : Nat → α) (n start a b : Nat) :
    window mem n start (a + b) = window mem n start a ++ window mem n ((start + a) % n) b := by
  unfold window
  rw [List.range_add, List.map_append, List.map_map]
  congr 1
  apply List.map_congr_left
  intro i _
  show mem ((start + (a + i)) % n) = mem (((start + a) % n + i) % n)
  rw [Nat.mod_add_mod, Nat.add_assoc]

theorem block_add (mem : Nat → α) (off a b : Nat) :
    block mem off (a + b) = block mem off a ++ block mem (off + a) b := by
  unfold block
  rw [List.range_add, List.map_append, List.map_map]
  congr 1
  apply List.map_congr_left
  intro i _
  show mem (off + (a + i)) = mem (off + a + i)
  rw [Nat.add_assoc]

theorem window_take (mem : Nat → α) {n start len k : Nat} (h : k ≤ len) :
    (window mem n start len).take k = window mem n start k := by
  obtain ⟨m, rfl⟩ := Nat.exists_eq_add_of_le h
  rw [window_add, List.take_left' (by simp)]

theorem window_drop (mem : Nat → α) {n start len k : Nat} (h : k ≤ len) :
    (window mem n start len).drop k = window mem n ((start + k) % n) (len - k) := by
  obtain ⟨m, rfl⟩ := Nat.exists_eq_add_of_le h
  rw [window_add, List.drop_left' (by simp), Nat.add_sub_cancel_left]

/-- A block inside the first `n` cells is a window that does not wrap. -/
theorem block_eq_window (mem : Nat → α) {n off len : Nat} (h : off + len ≤ n) :
    block mem off len = window mem n off len := by
  unfold block window
  apply List.map_congr_left
  intro i hi
  rw [List.mem_range] at hi
  rw [Nat.mod_eq_of_lt (by omega)]

theorem window_congr {mem mem' : Nat → α} {n start len : Nat}
    (h : ∀ i < len, mem ((start + i) % n) = mem' ((start + i) % n)) :
    window mem n start len = window mem' n start len := by
  unfold window
  apply List.map_congr_left
  intro i hi
  exact h i (List.mem_range.mp hi)

/-! ## Storing -/

theorem store_of_lt (mem : Nat → α) {off j : Nat} (xs : List α) (h : j < off) :
    store mem off xs j = mem j := by
  unfold store; rw [if_neg (by omega)]

theorem store_of_ge (mem : Nat → α) {off j : Nat} {xs : List α} (h : off + xs.length ≤ j) :
    store mem off xs j = mem j := by
  unfold store
  rw [if_pos (by omega), List.getElem?_eq_none (by omega), Option.getD_none]

theorem store_of_mem (mem : Nat → α) {off i : Nat} {xs : List α} (h : i < xs.length) :
    store mem off xs (off + i) = xs[i] := by
  unfold store
  rw [if_pos (by omega), Nat.add_sub_cancel_left, List.getElem?_eq_getElem h, Option.getD_some]

theorem store_nil (mem : Nat → α) (off : Nat) : store mem off [] = mem := by
  funext j; unfold store; split <;> simp

/-- Reading back a stored block. -/
theorem block_store (mem : Nat → α) (off : Nat) (xs : List α) :
    block (store mem off xs) off xs.length = xs := by
  apply List.ext_getElem (by simp)
  intro i hi hi'
  simp only [block, List.getElem_map, List.getElem_range]
  exact store_of_mem mem hi'

/-- The block before a stored one is kept. -/
theorem block_store_before (mem : Nat → α) {off len pos : Nat} (xs : List α)
    (h : off + len ≤ pos) : block (store mem pos xs) off len = block mem off len := by
  unfold block
  apply List.map_congr_left
  intro i hi
  rw [List.mem_range] at hi
  exact store_of_lt mem xs (by omega)

/-- A block inside the first `n` cells, read from a copy of these cells. -/
theorem block_copy (mem src : Nat → α) {n off len : Nat} (h : off + len ≤ n) :
    block (store mem 0 (block src 0 n)) off len = block src off len := by
  unfold block
  apply List.map_congr_left
  intro i hi
  rw [List.mem_range] at hi
  have inside : off + i < (block src 0 n).length := by simp; omega
  have copied : store mem 0 _ (0 + (off + i)) = _ := store_of_mem mem inside
  simp only [block, Nat.zero_add] at copied ⊢
  simp [copied]

/-- The block a list is laid out in. -/
theorem block_getD (xs : List α) (d : α) : block (xs.getD · d) 0 xs.length = xs := by
  apply List.ext_getElem (by simp)
  intro i _ h
  simp [block, List.getD, h]

/-- Store `xs` behind position `tail` of a cyclic buffer of `n` cells: first up to the physical
end, the rest from cell `0`. -/
def scatter (mem : Nat → α) (n tail : Nat) (xs : List α) : Nat → α :=
  store (store mem tail (xs.take (n - tail))) 0 (xs.drop (n - tail))

theorem scatter_new (mem : Nat → α) {n tail i : Nat} {xs : List α} (ht : tail < n)
    (hx : xs.length ≤ n) (h : i < xs.length) : scatter mem n tail xs ((tail + i) % n) = xs[i] := by
  unfold scatter
  by_cases hw : tail + i < n
  · rw [Nat.mod_eq_of_lt hw, store_of_ge _ (by simp; omega),
      store_of_mem _ (by simp; omega), List.getElem_take]
  · have hm : (tail + i) % n = 0 + (i - (n - tail)) := by
      rw [show tail + i = (i - (n - tail)) + n by omega, Nat.add_mod_right,
        Nat.mod_eq_of_lt (by omega), Nat.zero_add]
    rw [hm, store_of_mem _ (by simp; omega), List.getElem_drop]
    congr 1
    omega

theorem scatter_old (mem : Nat → α) {n tail i k : Nat} {xs : List α} (ht : tail < n)
    (h1 : xs.length ≤ i) (h2 : i < n) (hk : k = (tail + i) % n) :
    scatter mem n tail xs k = mem k := by
  unfold scatter
  by_cases hw : tail + i < n
  · rw [Nat.mod_eq_of_lt hw] at hk
    rw [store_of_ge _ (by simp; omega), store_of_ge _ (by simp; omega)]
  · have hm : k = i - (n - tail) := by
      rw [hk, show tail + i = (i - (n - tail)) + n by omega, Nat.add_mod_right,
        Nat.mod_eq_of_lt (by omega)]
    rw [store_of_ge _ (by simp; omega), store_of_lt _ _ (by omega)]

/-- **Scattering behind a window appends to it.** -/
theorem window_scatter (mem : Nat → α) {n start len : Nat} {xs : List α} (hn : 0 < n)
    (h : len + xs.length ≤ n) :
    window (scatter mem n ((start + len) % n) xs) n start (len + xs.length) =
      window mem n start len ++ xs := by
  have ht : (start + len) % n < n := Nat.mod_lt _ hn
  rw [window_add]
  congr 1
  · apply window_congr
    intro i hi
    apply scatter_old mem ht (i := i + (n - len)) (by omega) (by omega)
    rw [Nat.mod_add_mod, show start + len + (i + (n - len)) = start + i + n by omega,
      Nat.add_mod_right]
  · apply List.ext_getElem (by simp)
    intro i hi hi'
    simp only [window, List.getElem_map, List.getElem_range]
    exact scatter_new mem ht (by omega) hi'

end Lib
