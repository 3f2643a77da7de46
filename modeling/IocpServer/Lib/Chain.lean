import Mathlib.Logic.Function.Basic
import Mathlib.Data.List.Nodup

/-!
# Singly linked chains in a heap

A heap is a partial map from addresses to cells, `nxt` reads a cell's successor, and address `0`
is null.  `IsChain nxt heap a l`: following successors from `a` visits exactly the addresses `l`
and ends at null.

* `IsChain.unique`, `IsChain.nodup` — a chain is determined by its start and never repeats an
  address, so a heap with a self-loop on the way has none.
* `IsChain.frame` — writes outside the chain do not matter.
* `IsChain.snoc` — writing a fresh cell's address into the last cell appends it.
* `IsChain.next_mem` — the chain is closed under successors.
-/

set_option autoImplicit false

namespace Lib

variable {ν : Type*} {nxt : ν → Nat} {heap : Nat → Option ν} {a b : Nat} {l : List Nat}
  {cell : ν}

def IsChain (nxt : ν → Nat) (heap : Nat → Option ν) : Nat → List Nat → Prop
  | a, [] => a = 0
  | a, b :: l => a = b ∧ a ≠ 0 ∧ ∃ cell, heap a = some cell ∧ IsChain nxt heap (nxt cell) l

theorem IsChain.start_eq (h : IsChain nxt heap a (b :: l)) : a = b := h.1

theorem IsChain.allocated (h : IsChain nxt heap a l) (hb : b ∈ l) : ∃ cell, heap b = some cell := by
  induction l generalizing a with
  | nil => cases hb
  | cons c l ih =>
    obtain ⟨rfl, _, cell, hcell, htail⟩ := h
    rcases List.mem_cons.mp hb with rfl | hb
    · exact ⟨cell, hcell⟩
    · exact ih htail hb

/-- A chain that does not start at null starts with its own start. -/
theorem IsChain.start_mem (h : IsChain nxt heap a l) (ha : a ≠ 0) : a ∈ l := by
  cases l with
  | nil => exact absurd h ha
  | cons b l => rw [h.start_eq]; exact List.mem_cons_self

theorem IsChain.unique {l' : List Nat} (h : IsChain nxt heap a l) (h' : IsChain nxt heap a l') :
    l = l' := by
  induction l generalizing a l' with
  | nil =>
    cases l' with
    | nil => rfl
    | cons c l' => exact absurd h h'.2.1
  | cons b l ih =>
    cases l' with
    | nil => exact absurd h' h.2.1
    | cons c l' =>
      obtain ⟨rfl, _, cell, hcell, htail⟩ := h
      obtain ⟨rfl, _, cell', hcell', htail'⟩ := h'
      rw [hcell] at hcell'
      cases hcell'
      rw [ih htail htail']

/-- From every address of a chain a chain starts that is no longer. -/
theorem IsChain.from_mem (h : IsChain nxt heap a l) (hb : b ∈ l) :
    ∃ l', IsChain nxt heap b l' ∧ l'.length ≤ l.length := by
  induction l generalizing a with
  | nil => cases hb
  | cons c l ih =>
    rcases List.mem_cons.mp hb with rfl | hb
    · exact ⟨b :: l, h.start_eq ▸ h, Nat.le_refl _⟩
    · obtain ⟨_, _, cell, _, htail⟩ := h
      obtain ⟨l', h', hlen⟩ := ih htail hb
      exact ⟨l', h', Nat.le_succ_of_le hlen⟩

/-- **A chain never repeats an address.** -/
theorem IsChain.nodup (h : IsChain nxt heap a l) : l.Nodup := by
  induction l generalizing a with
  | nil => exact List.nodup_nil
  | cons b l ih =>
    obtain ⟨hab, h0, cell, hcell, htail⟩ := id h
    refine List.nodup_cons.mpr ⟨fun hb => ?_, ih htail⟩
    obtain ⟨l', h', hlen⟩ := htail.from_mem hb
    obtain rfl := h.unique (hab ▸ h')
    exact absurd hlen (Nat.not_succ_le_self _)

/-- The successor of a cell of the chain is null or lies in the chain behind its first cell. -/
theorem IsChain.next_mem (h : IsChain nxt heap a l) (hb : b ∈ l) (hcell : heap b = some cell)
    (hn : nxt cell ≠ 0) : nxt cell ∈ l.tail := by
  induction l generalizing a with
  | nil => cases hb
  | cons c l ih =>
    obtain ⟨rfl, _, cell', hcell', htail⟩ := h
    rcases List.mem_cons.mp hb with rfl | hb
    · rw [hcell] at hcell'
      cases hcell'
      exact htail.start_mem hn
    · exact List.mem_of_mem_tail (ih htail hb)

/-- Writes outside the chain do not matter. -/
theorem IsChain.frame {heap' : Nat → Option ν} (h : IsChain nxt heap a l)
    (hsame : ∀ b ∈ l, heap' b = heap b) : IsChain nxt heap' a l := by
  induction l generalizing a with
  | nil => exact h
  | cons b l ih =>
    obtain ⟨hab, h0, cell, hcell, htail⟩ := h
    refine ⟨hab, h0, cell, ?_, ih htail fun c hc => hsame c (List.mem_cons_of_mem _ hc)⟩
    rw [hab] at hcell ⊢
    rw [hsame b List.mem_cons_self, hcell]

/-- **Linking a cell behind the last one.** -/
theorem IsChain.snoc {heap' : Nat → Option ν} {new : Nat} {cell' newCell : ν}
    (h : IsChain nxt heap a l) (hb : b ∈ l) (hcell : heap b = some cell) (hlast : nxt cell = 0)
    (hnew : new ≠ 0) (hb' : heap' b = some cell') (hlink : nxt cell' = new)
    (hnewCell : heap' new = some newCell) (hnull : nxt newCell = 0)
    (hsame : ∀ c ∈ l, c ≠ b → heap' c = heap c) : IsChain nxt heap' a (l ++ [new]) := by
  induction l generalizing a with
  | nil => cases hb
  | cons c l ih =>
    have hnodup := h.nodup
    obtain ⟨rfl, h0, cell₀, hcell₀, htail⟩ := h
    rcases List.mem_cons.mp hb with rfl | hbl
    · -- the last cell is the first one: nothing follows it
      rw [hcell] at hcell₀
      cases hcell₀
      rw [hlast] at htail
      cases l with
      | nil => exact ⟨rfl, h0, cell', hb', hlink, by rw [hlink]; exact hnew, newCell,
          by rw [hlink]; exact hnewCell, hnull⟩
      | cons c l => exact absurd rfl htail.2.1
    · have hne : a ≠ b := fun he => (List.nodup_cons.mp hnodup).1 (he ▸ hbl)
      refine ⟨rfl, h0, cell₀, ?_, ih htail hbl fun c hc => hsame c (List.mem_cons_of_mem _ hc)⟩
      rw [hsame a List.mem_cons_self hne, hcell₀]

end Lib
