import IocpServer.GameLogic.Neighbourhood

/-!
# The double loop of `SectorUpdate` on `int`s

`World.Grid` takes the settings and the coordinates as numbers without a bound.  Here they are what
the source has: `int`s, whose sums and products wrap.

* `slot_getSectorIndex` — `GetSectorIndex` on any two `int`s is that of `Grid`.
* `Fits` — a tile further the coordinates are still `int`s.
* `sectorSets_exact` — **`prevSet` and `currSet` are the two differences of the 3x3 blocks around
  two positions that fit**; `far_tile_missed` — not so around others.
-/

set_option autoImplicit false

namespace IocpServer

open Lib

namespace GameLogic

/-- `sectorTileSize`, `sectorRow` and `sectorCol`, and the order of an `unordered_set`. -/
structure IntGrid where
  sectorTileSize : Int32
  sectorRow : Int32
  sectorCol : Int32
  insert : Nat → List Nat → List Nat
  tileSize_pos : 0 < sectorTileSize
  row_pos : 0 < sectorRow
  col_pos : 0 < sectorCol
  insert_perm : ∀ p players, p ∉ players → (insert p players).Perm (p :: players)

namespace IntGrid

variable (g : IntGrid)

/-- `GetSectorIndex`. -/
def getSectorIndex (x y : Int32) : Int32 :=
  let xIndex := x / g.sectorTileSize
  let yIndex := y / g.sectorTileSize
  if x < 0 ∨ y < 0 ∨ xIndex < 0 ∨ yIndex < 0 ∨ xIndex ≥ g.sectorCol ∨ yIndex ≥ g.sectorRow then -1
  else yIndex * g.sectorCol + xIndex

/-- The element of `sectors` with an index that is not -1; the index becomes a `size_t`. -/
def slot (index : Int32) : Option Nat :=
  if index = -1 then none else some (index.toInt % 2 ^ 64).toNat

theorem toInt_tileSize_pos : 0 < g.sectorTileSize.toInt := Int32.lt_iff_toInt_lt.mp g.tileSize_pos

theorem toInt_row_pos : 0 < g.sectorRow.toInt := Int32.lt_iff_toInt_lt.mp g.row_pos

theorem toInt_col_pos : 0 < g.sectorCol.toInt := Int32.lt_iff_toInt_lt.mp g.col_pos

/-- The same grid without `int`s. -/
def grid : Grid where
  sectorTileSize := g.sectorTileSize.toInt.toNat
  sectorRow := g.sectorRow.toInt.toNat
  sectorCol := g.sectorCol.toInt.toNat
  insert := g.insert
  tileSize_pos := by have := g.toInt_tileSize_pos; omega
  insert_perm := g.insert_perm

/-- An `unsigned short` as an `int`. -/
def coordinate (x : UInt16) : Int32 := Int32.ofNat x.toNat

/-- `prevSet` and `currSet` when the double loop ends. -/
def sectorSets (prevX prevY x y : UInt16) : List Nat × List Nat :=
  Grid.block.foldl (fun (prevSet, currSet) (h, w) =>
    let hv := Int32.ofInt h * g.sectorTileSize
    let wv := Int32.ofInt w * g.sectorTileSize
    let prevIndex := g.getSectorIndex (coordinate prevX + wv) (coordinate prevY + hv)
    let (prevSet, currSet) := toggle g.grid (slot prevIndex) prevSet currSet
    let currIndex := g.getSectorIndex (coordinate x + wv) (coordinate y + hv)
    let (currSet, prevSet) := toggle g.grid (slot currIndex) currSet prevSet
    (prevSet, currSet)) ([], [])

/-- `sectors.resize(sectorRow * sectorCol)` has made a sector for every tile. -/
def Allocated : Prop := g.sectorRow.toInt * g.sectorCol.toInt < 2 ^ 31

/-- The position has a sector. -/
def Inside (x y : UInt16) : Prop := g.getSectorIndex (coordinate x) (coordinate y) ≠ -1

/-- A tile to the right and a tile below the coordinates are still `int`s. -/
structure Fits (x y : UInt16) : Prop where
  x : x.toNat + g.sectorTileSize.toInt < 2 ^ 31
  y : y.toNat + g.sectorTileSize.toInt < 2 ^ 31

end IntGrid

/-- The sector `j` of the grid is in the 3x3 block around the tile of a position. -/
structure Grid.InBlock (g : Grid) (x y : UInt16) (j : Nat) : Prop where
  sector : j < g.sectorRow * g.sectorCol
  row : j / g.sectorCol ≤ y.toNat / g.sectorTileSize + 1 ∧
    y.toNat / g.sectorTileSize ≤ j / g.sectorCol + 1
  col : j % g.sectorCol ≤ x.toNat / g.sectorTileSize + 1 ∧
    x.toNat / g.sectorTileSize ≤ j % g.sectorCol + 1

/-- The two sets are the differences of the two blocks. -/
structure ExactSets (g : IntGrid) (prevX prevY x y : UInt16) : Prop where
  prev : ∀ j, j ∈ (g.sectorSets prevX prevY x y).1 ↔
    g.grid.InBlock prevX prevY j ∧ ¬g.grid.InBlock x y j
  curr : ∀ j, j ∈ (g.sectorSets prevX prevY x y).2 ↔
    g.grid.InBlock x y j ∧ ¬g.grid.InBlock prevX prevY j
  nodup : (g.sectorSets prevX prevY x y).1.Nodup ∧ (g.sectorSets prevX prevY x y).2.Nodup

variable {g : IntGrid} {x y prevX prevY : UInt16} {X Y : Int32} {h w : Int} {j : Nat}

/-! ## The block -/

theorem Grid.onTile_of_lt {g : Grid} (hj : j < g.sectorRow * g.sectorCol) :
    g.OnTile j (j / g.sectorCol : Nat) (j % g.sectorCol : Nat) := by
  have hcol : 0 < g.sectorCol := Nat.pos_of_mul_pos_left (Nat.zero_lt_of_lt hj)
  refine ⟨⟨Int.natCast_nonneg _, ?_⟩, ⟨Int.natCast_nonneg _, ?_⟩, ?_⟩
  · exact_mod_cast (Nat.div_lt_iff_lt_mul hcol).mpr hj
  · exact_mod_cast Nat.mod_lt j hcol
  · rw [mul_comm]
    exact_mod_cast (Nat.div_add_mod j g.sectorCol).symm

theorem Grid.OnTile.lt {g : Grid} {r c : Int} (t : g.OnTile j r c) :
    j < g.sectorRow * g.sectorCol := by
  have hrow : (r + 1) * g.sectorCol ≤ g.sectorRow * g.sectorCol :=
    Int.mul_le_mul_of_nonneg_right t.row.2 (Int.natCast_nonneg _)
  have hindex := t.index
  have hcol := t.col.2
  rw [add_mul, one_mul] at hrow
  have hlt : (j : Int) < g.sectorRow * g.sectorCol := by omega
  exact_mod_cast hlt

/-- **The sectors visited are those of the block.** -/
theorem mem_view_iff {g : Grid} : j ∈ g.view x y ↔ g.InBlock x y j := by
  rw [Grid.view, List.mem_filterMap]
  constructor
  · rintro ⟨⟨h, w⟩, hmem, hstep⟩
    have t := getSectorIndex_step.mp hstep
    obtain ⟨hr, hc⟩ := t.div_mod
    have hnear := mem_block.mp hmem
    exact ⟨t.lt, by omega, by omega⟩
  · rintro ⟨hlt, hrow, hcol⟩
    refine ⟨(((j / g.sectorCol : Nat) : Int) - y.toNat / g.sectorTileSize,
      ((j % g.sectorCol : Nat) : Int) - x.toNat / g.sectorTileSize),
      mem_block.mpr (by omega), getSectorIndex_step.mpr ?_⟩
    rw [add_sub_cancel, add_sub_cancel]
    exact Grid.onTile_of_lt hlt

/-! ## `int`s -/

theorem toInt_coordinate : (IntGrid.coordinate x).toInt = x.toNat := by
  have hx := x.toNat_lt
  exact Int32.toInt_ofNat_of_lt (by omega)

/-- A sum or a product that is an `int`. -/
theorem bmod_of_fits {n : Int} (hlo : -2 ^ 31 ≤ n) (hhi : n < 2 ^ 31) : n.bmod (2 ^ 32) = n :=
  Int.bmod_eq_of_le (by omega) (by omega)

/-- One tile further, if it fits. -/
theorem toInt_step (hw : -1 ≤ w ∧ w ≤ 1) (hfits : x.toNat + g.sectorTileSize.toInt < 2 ^ 31) :
    (IntGrid.coordinate x + Int32.ofInt w * g.sectorTileSize).toInt =
      x.toNat + w * g.sectorTileSize.toInt := by
  have hpos := g.toInt_tileSize_pos
  have hlt := g.sectorTileSize.toInt_lt
  have hwt : (Int32.ofInt w).toInt = w := Int32.toInt_ofInt_of_le (by omega) (by omega)
  have hbounds : -g.sectorTileSize.toInt ≤ w * g.sectorTileSize.toInt ∧
      w * g.sectorTileSize.toInt ≤ g.sectorTileSize.toInt := by
    have hcases : w = -1 ∨ w = 0 ∨ w = 1 := by omega
    rcases hcases with rfl | rfl | rfl <;> omega
  have hmul : (Int32.ofInt w * g.sectorTileSize).toInt = w * g.sectorTileSize.toInt := by
    rw [Int32.toInt_mul, hwt, bmod_of_fits (by omega) (by omega)]
  rw [Int32.toInt_add, hmul, toInt_coordinate, bmod_of_fits (by omega) (by omega)]

theorem toInt_div_tileSize : (X / g.sectorTileSize).toInt =
    X.toInt.tdiv g.sectorTileSize.toInt := by
  refine Int32.toInt_div_of_ne_right _ _ fun heq => ?_
  have hpos := g.toInt_tileSize_pos
  rw [heq] at hpos
  exact absurd hpos (by decide)

/-- **`GetSectorIndex` on `int`s.** -/
theorem slot_getSectorIndex (hsize : g.Allocated) :
    IntGrid.slot (g.getSectorIndex X Y) = g.grid.getSectorIndex X.toInt Y.toInt := by
  have hts : (g.grid.sectorTileSize : Int) = g.sectorTileSize.toInt :=
    Int.toNat_of_nonneg g.toInt_tileSize_pos.le
  have hcol : (g.grid.sectorCol : Int) = g.sectorCol.toInt :=
    Int.toNat_of_nonneg g.toInt_col_pos.le
  have hrow : (g.grid.sectorRow : Int) = g.sectorRow.toInt :=
    Int.toNat_of_nonneg g.toInt_row_pos.le
  unfold IntGrid.getSectorIndex Grid.getSectorIndex
  rw [hts, hcol, hrow]
  simp only [ge_iff_le, Int32.lt_iff_toInt_lt, Int32.le_iff_toInt_le, toInt_div_tileSize,
    Int32.toInt_zero]
  split
  · rfl
  · rename_i hin
    simp only [not_or, not_lt, not_le] at hin
    obtain ⟨-, -, hx, hy, hxcol, hyrow⟩ := hin
    generalize hX : X.toInt.tdiv g.sectorTileSize.toInt = c at hx hxcol
    generalize hY : Y.toInt.tdiv g.sectorTileSize.toInt = r at hy hyrow
    have hle : (r + 1) * g.sectorCol.toInt ≤ g.sectorRow.toInt * g.sectorCol.toInt :=
      Int.mul_le_mul_of_nonneg_right hyrow g.toInt_col_pos.le
    have hmul : 0 ≤ r * g.sectorCol.toInt := Int.mul_nonneg hy g.toInt_col_pos.le
    have hbound := lt_of_le_of_lt hle hsize
    rw [add_mul, one_mul] at hbound
    have hindex : (Y / g.sectorTileSize * g.sectorCol + X / g.sectorTileSize).toInt =
        r * g.sectorCol.toInt + c := by
      rw [Int32.toInt_add, Int32.toInt_mul, toInt_div_tileSize, toInt_div_tileSize, hX, hY,
        bmod_of_fits (n := r * _) (by omega) (by omega), bmod_of_fits (by omega) (by omega)]
    unfold IntGrid.slot
    rw [if_neg, hindex, Int.emod_eq_of_lt (by omega) (by omega)]
    intro heq
    rw [heq] at hindex
    have : (-1 : Int32).toInt = -1 := by decide
    omega

/-- The loop visits what it visits without `int`s. -/
theorem slot_step (hsize : g.Allocated) (hmem : (h, w) ∈ Grid.block) (hfits : g.Fits x y) :
    IntGrid.slot (g.getSectorIndex (IntGrid.coordinate x + Int32.ofInt w * g.sectorTileSize)
        (IntGrid.coordinate y + Int32.ofInt h * g.sectorTileSize)) =
      g.grid.getSectorIndex (x.toNat + w * g.grid.sectorTileSize)
        (y.toNat + h * g.grid.sectorTileSize) := by
  obtain ⟨hh, hw⟩ := mem_block.mp hmem
  have hts : (g.grid.sectorTileSize : Int) = g.sectorTileSize.toInt :=
    Int.toNat_of_nonneg g.toInt_tileSize_pos.le
  rw [slot_getSectorIndex hsize, toInt_step hw hfits.x, toInt_step hh hfits.y, hts]

theorem sectorSets_eq (hsize : g.Allocated) (hprev : g.Fits prevX prevY) (hcurr : g.Fits x y) :
    g.sectorSets prevX prevY x y = GameLogic.sectorSets g.grid prevX prevY x y := by
  refine List.foldl_ext _ _ _ fun sets k hk => ?_
  dsimp only
  rw [slot_step hsize hk hprev, slot_step hsize hk hcurr]

/-- **`prevSet` and `currSet` are the differences of the blocks.** -/
theorem sectorSets_exact (hsize : g.Allocated) (hprev : g.Fits prevX prevY) (hcurr : g.Fits x y) :
    ExactSets g prevX prevY x y := by
  have d := @sectorSets_spec g.grid x y prevX prevY
  rw [← sectorSets_eq hsize hprev hcurr] at d
  refine ⟨fun j => ?_, fun j => ?_, d.nodup⟩
  · rw [d.left, mem_view_iff, mem_view_iff]
  · rw [d.right, mem_view_iff, mem_view_iff]

/-- A grid whose sets grow at their end. -/
def IntGrid.appending (sectorTileSize sectorRow sectorCol : Int32)
    (tileSize_pos : 0 < sectorTileSize) (row_pos : 0 < sectorRow) (col_pos : 0 < sectorCol) :
    IntGrid where
  sectorTileSize := sectorTileSize
  sectorRow := sectorRow
  sectorCol := sectorCol
  insert := fun p players => players ++ [p]
  tileSize_pos := tileSize_pos
  row_pos := row_pos
  col_pos := col_pos
  insert_perm := fun p players _ => List.perm_append_singleton p players

/-- Over a corner of the grid of `config.txt`, where the blocks are cut off. -/
theorem sectorSets_exact_corner :
    ExactSets (.appending 128 50 50 (by decide) (by decide) (by decide)) 127 127 128 300 ∧
      (IntGrid.appending 128 50 50 (by decide) (by decide) (by decide)).sectorSets
        127 127 128 300 = ([0, 1], [52, 100, 101, 102, 150, 151, 152]) :=
  ⟨sectorSets_exact (by unfold IntGrid.Allocated; decide) ⟨by decide, by decide⟩
    ⟨by decide, by decide⟩, by decide⟩

/-- Two positions of one tile: `x + sectorTileSize` is an `int` at the first and wraps at the
second. -/
theorem far_tile_missed :
    ∃ g : IntGrid, g.Allocated ∧ g.Inside 0 0 ∧ g.Inside 65000 0 ∧
      g.sectorSets 0 0 65000 0 = ([1], []) ∧ ¬ExactSets g 0 0 65000 0 := by
  refine ⟨.appending 2147483600 1 2 (by decide) (by decide) (by decide),
    by unfold IntGrid.Allocated; decide, by unfold IntGrid.Inside; decide,
    by unfold IntGrid.Inside; decide, by decide, fun hexact => ?_⟩
  have hmem := (hexact.prev 1).mp (by decide)
  exact hmem.2 ⟨by decide, by decide, by decide⟩

end GameLogic

end IocpServer
