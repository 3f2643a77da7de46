import IocpServer.GameLogic.Broadcast
import Mathlib.Data.List.Nodup

/-!
# The sectors around a sector

The double loops visit up to nine sectors.  `Around` says which: those whose row and column differ
by at most one.

* `mem_view` — the loops at a position visit the sectors around the position's sector;
  `nodup_view` — each once.
* `Differences` — two sets that are toggled hold what is in one list and not in the other;
  `sectorSets_spec` — **`prevSet` and `currSet` are the two differences of the old and the new
  view.**
* `count_sectors` — how often a player is met on a walk through the sets of some sectors.
-/

set_option autoImplicit false

namespace IocpServer

open Lib

namespace GameLogic

namespace Grid

variable (g : Grid)

/-- `j` is among the up to nine sectors around `i`. -/
def Around (i j : Nat) : Prop :=
  (i / g.sectorCol ≤ j / g.sectorCol + 1 ∧ j / g.sectorCol ≤ i / g.sectorCol + 1) ∧
    i % g.sectorCol ≤ j % g.sectorCol + 1 ∧ j % g.sectorCol ≤ i % g.sectorCol + 1

instance (i j : Nat) : Decidable (g.Around i j) :=
  inferInstanceAs (Decidable (_ ∧ _))

/-- The sectors a double loop over `block` visits at a position. -/
def view (x y : UInt16) : List Nat :=
  block.filterMap fun (h, w) =>
    g.getSectorIndex (x.toNat + w * g.sectorTileSize) (y.toNat + h * g.sectorTileSize)

/-- The sector `i` stands in row `r` and column `c`. -/
structure OnTile (i : Nat) (r c : Int) : Prop where
  row : 0 ≤ r ∧ r < g.sectorRow
  col : 0 ≤ c ∧ c < g.sectorCol
  index : (i : Int) = r * g.sectorCol + c

end Grid

variable {g : Grid} {i j : Nat} {r c r' c' : Int} {x y : UInt16} {X Y h w : Int}

theorem around_comm : g.Around i j ↔ g.Around j i :=
  and_congr and_comm and_comm

theorem getSectorIndex_iff :
    g.getSectorIndex X Y = some i ↔ g.OnTile i (Y / g.sectorTileSize) (X / g.sectorTileSize) := by
  have hpos : (0 : Int) < g.sectorTileSize := by exact_mod_cast g.tileSize_pos
  rw [getSectorIndex_eq_some]
  constructor
  · rintro ⟨hX, hY, hcol, hrow, rfl⟩
    have hx := Int.ediv_nonneg hX hpos.le
    have hy := Int.ediv_nonneg hY hpos.le
    exact ⟨⟨hy, hrow⟩, ⟨hx, hcol⟩,
      Int.toNat_of_nonneg (Int.add_nonneg (Int.mul_nonneg hy (Int.natCast_nonneg _)) hx)⟩
  · rintro ⟨⟨hy, hrow⟩, ⟨hx, hcol⟩, hindex⟩
    refine ⟨?_, ?_, hcol, hrow, ?_⟩
    · by_contra hX
      have := Int.ediv_neg_of_neg_of_pos (not_le.mp hX) hpos
      omega
    · by_contra hY
      have := Int.ediv_neg_of_neg_of_pos (not_le.mp hY) hpos
      omega
    · rw [← hindex, Int.toNat_natCast]

/-- Row and column are the index's quotient and remainder. -/
theorem Grid.OnTile.div_mod (t : g.OnTile i r c) :
    r = (i / g.sectorCol : Nat) ∧ c = (i % g.sectorCol : Nat) := by
  have hcol : (0 : Int) < g.sectorCol := by have := t.col; omega
  push_cast
  rw [t.index, add_comm]
  constructor
  · rw [Int.add_mul_ediv_right _ _ hcol.ne', Int.ediv_eq_zero_of_lt t.col.1 t.col.2, zero_add]
  · rw [Int.add_mul_emod_self_right, Int.emod_eq_of_lt t.col.1 t.col.2]

theorem Grid.OnTile.unique (t : g.OnTile i r c) (t' : g.OnTile i r' c') : r = r' ∧ c = c' := by
  obtain ⟨hr, hc⟩ := t.div_mod
  obtain ⟨hr', hc'⟩ := t'.div_mod
  exact ⟨hr.trans hr'.symm, hc.trans hc'.symm⟩

theorem around_iff (t : g.OnTile i r c) (t' : g.OnTile j r' c') :
    g.Around i j ↔ (r ≤ r' + 1 ∧ r' ≤ r + 1) ∧ c ≤ c' + 1 ∧ c' ≤ c + 1 := by
  obtain ⟨rfl, rfl⟩ := t.div_mod
  obtain ⟨rfl, rfl⟩ := t'.div_mod
  unfold Grid.Around
  norm_cast

/-- A step of `w` columns and `h` rows. -/
theorem getSectorIndex_step :
    g.getSectorIndex (X + w * g.sectorTileSize) (Y + h * g.sectorTileSize) = some j ↔
      g.OnTile j (Y / g.sectorTileSize + h) (X / g.sectorTileSize + w) := by
  have hpos : (g.sectorTileSize : Int) ≠ 0 := by exact_mod_cast g.tileSize_pos.ne'
  rw [getSectorIndex_iff, Int.add_mul_ediv_right _ _ hpos, Int.add_mul_ediv_right _ _ hpos]

theorem mem_block : (h, w) ∈ Grid.block ↔ (-1 ≤ h ∧ h ≤ 1) ∧ -1 ≤ w ∧ w ≤ 1 := by
  constructor
  · intro hmem
    simp only [Grid.block, List.mem_cons, Prod.mk.injEq, List.not_mem_nil, or_false] at hmem
    omega
  · rintro ⟨hh, hw⟩
    have hh : h = -1 ∨ h = 0 ∨ h = 1 := by omega
    have hw : w = -1 ∨ w = 0 ∨ w = 1 := by omega
    rcases hh with rfl | rfl | rfl <;> rcases hw with rfl | rfl | rfl <;> decide

/-- **The sectors visited are those around the position's sector.** -/
theorem mem_view (hi : g.getSectorIndex x.toNat y.toNat = some i) (hj : g.OnTile j r c) :
    j ∈ g.view x y ↔ g.Around i j := by
  have hi := getSectorIndex_iff.mp hi
  rw [around_iff hi hj, Grid.view, List.mem_filterMap]
  constructor
  · rintro ⟨⟨h, w⟩, hmem, hstep⟩
    obtain ⟨hr, hc⟩ := hj.unique (getSectorIndex_step.mp hstep)
    have := mem_block.mp hmem
    omega
  · rintro hnear
    refine ⟨(r - y.toNat / g.sectorTileSize, c - x.toNat / g.sectorTileSize),
      mem_block.mpr (by omega), getSectorIndex_step.mpr ?_⟩
    rw [add_sub_cancel, add_sub_cancel]
    exact hj

/-- No sector is visited twice. -/
theorem nodup_view : (g.view x y).Nodup := by
  refine List.Nodup.filterMap ?_ (by decide)
  rintro ⟨h, w⟩ ⟨h', w'⟩ j hj hj'
  obtain ⟨hr, hc⟩ := (getSectorIndex_step.mp hj).unique (getSectorIndex_step.mp hj')
  rw [Prod.mk.injEq]
  omega

/-- `SendAOI`'s two loops visit the same sectors. -/
theorem perm_view (hi : g.getSectorIndex x.toNat y.toNat = some i) :
    (g.view x y).Perm (i :: g.around x y) := by
  have hblock : Grid.block.Perm ((0, 0) :: Grid.block.filter (· ≠ (0, 0))) := by decide
  have hown : g.getSectorIndex (x.toNat + 0 * g.sectorTileSize) (y.toNat + 0 * g.sectorTileSize) =
      some i := by
    rw [zero_mul, add_zero, add_zero]
    exact hi
  exact (hblock.filterMap _).trans (.of_eq (List.filterMap_cons_some hown))

/-! ## Toggled sets -/

/-- `s` holds what is in `A` and not in `B`, and what is in `B` and not in `A`. -/
structure Differences (A B : List Nat) (s : List Nat × List Nat) : Prop where
  left : ∀ k, k ∈ s.1 ↔ k ∈ A ∧ k ∉ B
  right : ∀ k, k ∈ s.2 ↔ k ∈ B ∧ k ∉ A
  nodup : s.1.Nodup ∧ s.2.Nodup

variable {A B : List Nat} {s : List Nat × List Nat}

theorem Differences.swap (d : Differences A B s) : Differences B A (s.2, s.1) :=
  ⟨d.right, d.left, d.nodup.symm⟩

theorem nodup_setInsert {k : Nat} {players : List Nat} (hn : players.Nodup) :
    (g.setInsert k players).Nodup := by
  unfold Grid.setInsert
  split
  · exact hn
  · rename_i hk
    exact (g.insert_perm k players hk).nodup_iff.mpr (List.nodup_cons.mpr ⟨hk, hn⟩)

/-- One more sector is met in `A`. -/
theorem Differences.toggle {a : Option Nat} (d : Differences A B s) (ha : ∀ k ∈ a, k ∉ A) :
    Differences (A ++ a.toList) B (toggle g a s.1 s.2) := by
  cases a with
  | none =>
    simp only [Option.toList, List.append_nil, GameLogic.toggle]
    exact d
  | some k =>
    have hk := ha k rfl
    simp only [Option.toList, GameLogic.toggle]
    split
    · rename_i hright
      have hB := ((d.right k).mp hright).1
      refine ⟨fun l => ?_, fun l => ?_, d.nodup.1, d.nodup.2.filter _⟩
      · rw [d.left, List.mem_append, List.mem_singleton]
        constructor
        · rintro ⟨hA, hnot⟩
          exact ⟨Or.inl hA, hnot⟩
        · rintro ⟨hA | rfl, hnot⟩
          · exact ⟨hA, hnot⟩
          · exact absurd hB hnot
      · rw [List.mem_filter, d.right, List.mem_append, List.mem_singleton, not_or,
          decide_eq_true_iff, and_assoc]
    · rename_i hright
      have hB : k ∉ B := fun hB => hright ((d.right k).mpr ⟨hB, hk⟩)
      refine ⟨fun l => ?_, fun l => ?_, nodup_setInsert d.nodup.1, d.nodup.2⟩
      · rw [mem_setInsert, d.left, List.mem_append, List.mem_singleton]
        constructor
        · rintro (rfl | ⟨hA, hnot⟩)
          · exact ⟨Or.inr rfl, hB⟩
          · exact ⟨Or.inl hA, hnot⟩
        · rintro ⟨hA | rfl, hnot⟩
          · exact Or.inr ⟨hA, hnot⟩
          · exact Or.inl rfl
      · rw [d.right, List.mem_append, List.mem_singleton, not_or]
        constructor
        · rintro ⟨hl, hA⟩
          exact ⟨hl, hA, fun he => hB (he ▸ hl)⟩
        · rintro ⟨hl, hA, -⟩
          exact ⟨hl, hA⟩

/-- The loop of `SectorUpdate`, over any two families of sectors. -/
theorem differences_foldl {ι : Type} (a b : ι → Option Nat) (l : List ι)
    (hA : (l.filterMap a).Nodup) (hB : (l.filterMap b).Nodup) :
    Differences (l.filterMap a) (l.filterMap b)
      (l.foldl (fun s k =>
        let s := toggle g (a k) s.1 s.2
        let s := toggle g (b k) s.2 s.1
        (s.2, s.1)) ([], [])) := by
  induction l using List.reverseRecOn with
  | nil => exact ⟨fun k => by simp, fun k => by simp, List.nodup_nil, List.nodup_nil⟩
  | append_singleton l k ih =>
    have hcat : ∀ f : ι → Option Nat, (l ++ [k]).filterMap f = l.filterMap f ++ (f k).toList := by
      intro f
      rw [List.filterMap_append]
      cases hf : f k <;> simp [hf]
    rw [hcat] at hA hB ⊢
    rw [hcat, List.foldl_append]
    have hnew : ∀ {L M : List Nat}, (L ++ M).Nodup → ∀ k ∈ M, k ∉ L := by
      intro L M hn k hM hL
      exact (List.nodup_append.mp hn).2.2 k hL k hM rfl
    have d := ih (List.nodup_append.mp hA).1 (List.nodup_append.mp hB).1
    have d := d.toggle (g := g) fun n hn => hnew hA n (Option.mem_toList.mpr hn)
    have d := d.swap.toggle (g := g) fun n hn => hnew hB n (Option.mem_toList.mpr hn)
    exact d.swap

/-- **`prevSet` and `currSet`.** -/
theorem sectorSets_spec {prevX prevY : UInt16} :
    Differences (g.view prevX prevY) (g.view x y) (sectorSets g prevX prevY x y) :=
  differences_foldl _ _ Grid.block nodup_view nodup_view

/-! ## Walks through sets of players -/

/-- A player that is in one sector's set is met once if the walk comes to that sector. -/
theorem count_sectors {sectors : Nat → List Nat} {q : Nat} {L : List Nat}
    (hnodup : ∀ k, (sectors k).Nodup) (hq : ∀ k, q ∈ sectors k ↔ k = j) (hL : L.Nodup) :
    (L.flatMap sectors).count q = if j ∈ L then 1 else 0 := by
  induction L with
  | nil => rfl
  | cons k L ih =>
    obtain ⟨hk, hL⟩ := List.nodup_cons.mp hL
    rw [List.flatMap_cons, List.count_append, ih hL]
    by_cases hkj : k = j
    · subst hkj
      rw [List.count_eq_one_of_mem (hnodup k) ((hq k).mpr rfl), if_neg hk,
        if_pos List.mem_cons_self]
    · rw [List.count_eq_zero.mpr fun hmem => hkj ((hq k).mp hmem), zero_add]
      simp only [List.mem_cons, Ne.symm hkj, false_or]

end GameLogic

end IocpServer
