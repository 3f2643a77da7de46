import IocpServer.RingBuffer

/-!
# Copying and resizing a ring buffer

Model of the copy constructor, `operator=` and `Resize` (`RingBuffer.cpp`).  The copies ask
`malloc` for, and copy, as many bytes as the *destination* records before it takes over the
source's `bufferSize`: the member initializer `4000` in the copy constructor, the old size in an
assignment.  `Resize` moves no byte, so a region that wraps around the old end is read with
another modulus afterwards.  The block a buffer owns therefore carries its own size.

* `copyConstruct`, `assign`, `resize` — the three operations; `malloc` and `realloc` succeed.
* `unreadIndex_lt_iff` — when the unread bytes lie below a given physical index.
* `copyOf_iff` — when a copy into a block of `size` bytes is the source again.
* `copy_resize_iff` — the exact condition for each operation.
-/

set_option autoImplicit false

namespace IocpServer.RingBuffer

open Lib

/-- A ring and the size of the block behind `inBuffer`: what the last `malloc` or `realloc` was
asked for. -/
structure Allocated where
  ring : RingBuffer
  size : Nat

/-- A ring as its constructor allocates it. -/
def allocated (r : RingBuffer) : Allocated := ⟨r, r.bufferSize⟩

@[simp] theorem allocated_ring (r : RingBuffer) : r.allocated.ring = r := rfl

@[simp] theorem allocated_size (r : RingBuffer) : r.allocated.size = r.bufferSize := rfl

/-- The member initializer of `bufferSize`. -/
def bufferSize_INIT : Nat := 4000

/-- `memcpy_s(dest, count, ref.inBuffer, count)` into a block that holds `mem`.  `behind` is
the memory that follows the source's block, `none` where it cannot be read. -/
def memcpy_s (mem : Nat → UInt8) (ref : Allocated) (behind : Option (Nat → UInt8))
    (count : Nat) : Option (Nat → UInt8) :=
  if count ≤ ref.size then some (store mem 0 (block ref.ring.inBuffer 0 count))
  else behind.map fun past =>
    store mem 0 (block ref.ring.inBuffer 0 ref.size ++ block past 0 (count - ref.size))

/-- What both copies do, `bufferSize` being the size the destination records on entry. -/
def copyFrom (bufferSize : Nat) (ref : Allocated) (mem : Nat → UInt8)
    (behind : Option (Nat → UInt8)) : Option Allocated :=
  (memcpy_s mem ref behind bufferSize).map fun inBuffer =>
    ⟨⟨ref.ring.bufferSize, inBuffer, ref.ring.head, ref.ring.tail⟩, bufferSize⟩

/-- `RingBuffer(const RingBuffer& ref)`; `mem` is what `malloc` left in the block. -/
def copyConstruct (ref : Allocated) (mem : Nat → UInt8) (behind : Option (Nat → UInt8)) :
    Option Allocated :=
  copyFrom bufferSize_INIT ref mem behind

/-- `operator=`; `self` says that `ref` is the object assigned to. -/
def assign (self : Bool) (this ref : Allocated) (mem : Nat → UInt8)
    (behind : Option (Nat → UInt8)) : Option Allocated :=
  if self then some this else copyFrom this.ring.bufferSize ref mem behind

/-- `Resize`: `realloc` keeps the bytes the two blocks have in common, `mem` is what the rest of
the new block holds. -/
def resize (b : Allocated) (size : Nat) (mem : Nat → UInt8) : Allocated :=
  ⟨{ b.ring with
      inBuffer := store mem 0 (block b.ring.inBuffer 0 (min b.size size))
      bufferSize := size }, size⟩

/-! ## Where the unread bytes lie -/

/-- The physical index of the `i`-th unread byte. -/
def unreadIndex (r : RingBuffer) (i : Nat) : Nat := (r.head + i) % r.bufferSize

/-- The unread bytes lie inside the block and are `bytes`. -/
structure Allocated.Holds (b : Allocated) (bytes : List UInt8) : Prop where
  inside : ∀ i < b.ring.getUseSize, b.ring.unreadIndex i < b.size
  contents_eq : b.ring.contents = bytes

/-- `b` is `r` again: the same unread bytes and free size, both indices inside its block. -/
structure Allocated.CopyOf (b : Allocated) (r : RingBuffer) : Prop where
  holds : b.Holds r.contents
  free : b.ring.getFreeSize = r.getFreeSize
  head_lt : b.ring.head < b.size
  tail_lt : b.ring.tail < b.size

/-- `b` has kept the unread bytes of `r`, and both indices lie below its size. -/
structure Allocated.Keeps (b : Allocated) (r : RingBuffer) : Prop where
  holds : b.Holds r.contents
  head_lt : b.ring.head < b.ring.bufferSize
  tail_lt : b.ring.tail < b.ring.bufferSize

variable {r : RingBuffer}

theorem unreadIndex_of_le {i : Nat} (h : r.head ≤ r.tail) (ht : r.tail < r.bufferSize)
    (hi : i < r.getUseSize) : r.unreadIndex i = r.head + i := by
  unfold getUseSize at hi
  rw [if_pos h] at hi
  exact Nat.mod_eq_of_lt (by omega)

/-- A block shorter than the ring holds the unread bytes exactly when they do not wrap around
the ring's end and stop inside the block. -/
theorem unreadIndex_lt_iff (hr : r.Valid) {size : Nat} (hs : size < r.bufferSize)
    (ht : r.tail < size) :
    (∀ i < r.getUseSize, r.unreadIndex i < size) ↔ r.head ≤ r.tail := by
  have hh := hr.head_lt
  constructor
  · intro inside
    by_contra wrapped
    have used : r.getUseSize = r.bufferSize - (r.head - r.tail) := by
      unfold getUseSize; rw [if_neg (by omega)]
    have last := inside (r.bufferSize - 1 - r.head) (by omega)
    unfold unreadIndex at last
    rw [show r.head + (r.bufferSize - 1 - r.head) = r.bufferSize - 1 by omega,
      Nat.mod_eq_of_lt (by omega)] at last
    omega
  · intro h i hi
    rw [unreadIndex_of_le h hr.tail_lt hi]
    unfold getUseSize at hi
    rw [if_pos h] at hi
    omega

/-! ## What the copies read -/

/-- A cell below `n` of a block into which `n` cells of `src`, and perhaps more, were copied. -/
theorem store_block (mem src : Nat → UInt8) {n j : Nat} (rest : List UInt8) (h : j < n) :
    store mem 0 (block src 0 n ++ rest) j = src j := by
  have inside : j < (block src 0 n ++ rest).length := by simp; omega
  have copied : store mem 0 (block src 0 n ++ rest) (0 + j) = (block src 0 n ++ rest)[j] :=
    store_of_mem mem inside
  rw [Nat.zero_add] at copied
  rw [copied, List.getElem_append_left (by simpa using h)]
  simp [block]

/-- Where the copied bytes cover the unread ones, the contents are the source's. -/
theorem contents_congr {mem : Nat → UInt8} (size : Nat)
    (kept : ∀ j < size, mem j = r.inBuffer j)
    (inside : ∀ i < r.getUseSize, r.unreadIndex i < size) :
    contents { r with inBuffer := mem } = r.contents :=
  window_congr fun i hi => kept _ (inside i hi)

/-- What `memcpy_s` has written below both sizes. -/
theorem memcpy_s_kept {mem inBuffer : Nat → UInt8} {ref : Allocated}
    {behind : Option (Nat → UInt8)} {count : Nat}
    (h : memcpy_s mem ref behind count = some inBuffer) {j : Nat} (hj : j < min count ref.size) :
    inBuffer j = ref.ring.inBuffer j := by
  unfold memcpy_s at h
  by_cases hc : count ≤ ref.size
  · rw [if_pos hc] at h
    obtain rfl := Option.some.inj h
    simpa using store_block mem ref.ring.inBuffer [] (n := count) (by omega)
  · rw [if_neg hc] at h
    obtain ⟨past, -, rfl⟩ := Option.map_eq_some_iff.mp h
    exact store_block mem ref.ring.inBuffer _ (by omega)

theorem memcpy_s_isSome_iff (mem : Nat → UInt8) (ref : Allocated)
    (behind : Option (Nat → UInt8)) (count : Nat) :
    (memcpy_s mem ref behind count).isSome ↔ count ≤ ref.size ∨ behind.isSome := by
  unfold memcpy_s
  by_cases hc : count ≤ ref.size
  · simp [hc]
  · simp [hc]

/-- When a destination that records `size` becomes the source again. -/
def Copies (r : RingBuffer) (behind : Option (Nat → UInt8)) (size : Nat) : Prop :=
  size = r.bufferSize ∨ (size < r.bufferSize ∧ r.head ≤ r.tail ∧ r.tail < size) ∨
    (r.bufferSize < size ∧ behind.isSome)

/-- A copy into a block of `size` bytes, all of them copied. -/
theorem copyOf_of_kept (hr : r.Valid) {mem : Nat → UInt8} {size : Nat}
    (kept : ∀ j < min size r.bufferSize, mem j = r.inBuffer j)
    (inside : ∀ i < r.getUseSize, r.unreadIndex i < size)
    (hh : r.head < size) (ht : r.tail < size) :
    Allocated.CopyOf ⟨{ r with inBuffer := mem }, size⟩ r := by
  refine ⟨⟨inside, contents_congr _ kept fun i hi => ?_⟩, rfl, hh, ht⟩
  exact lt_min (inside i hi) (Nat.mod_lt _ hr.pos)

/-- **A copy is the source again exactly under `Copies`.** -/
theorem copyOf_iff (hr : r.Valid) (mem : Nat → UInt8) (behind : Option (Nat → UInt8))
    (size : Nat) :
    (∃ c, copyFrom size r.allocated mem behind = some c ∧ c.CopyOf r) ↔
      r.Copies behind size := by
  have hh := hr.head_lt; have ht := hr.tail_lt
  constructor
  · rintro ⟨c, hc, hcopy⟩
    obtain ⟨inBuffer, hmem, rfl⟩ := Option.map_eq_some_iff.mp hc
    have readable := (memcpy_s_isSome_iff mem r.allocated behind size).mp (by rw [hmem]; rfl)
    have tail_lt : r.tail < size := hcopy.tail_lt
    rcases Nat.lt_trichotomy size r.bufferSize with hs | hs | hs
    · have inside : ∀ i < r.getUseSize, r.unreadIndex i < size := hcopy.holds.inside
      exact .inr (.inl ⟨hs, (unreadIndex_lt_iff hr hs tail_lt).mp inside, tail_lt⟩)
    · exact .inl hs
    · exact .inr (.inr ⟨hs, readable.resolve_left (by simp; omega)⟩)
  · intro h
    have readable : (memcpy_s mem r.allocated behind size).isSome := by
      rw [memcpy_s_isSome_iff, allocated_size]
      rcases h with h | h | h
      · exact .inl (by omega)
      · exact .inl (by omega)
      · exact .inr h.2
    obtain ⟨inBuffer, hmem⟩ := Option.isSome_iff_exists.mp readable
    refine ⟨_, by rw [copyFrom, hmem]; rfl, ?_⟩
    have wide : r.bufferSize ≤ size → ∀ i < r.getUseSize, r.unreadIndex i < size :=
      fun hs i _ => Nat.lt_of_lt_of_le (Nat.mod_lt _ hr.pos) hs
    rcases h with h | ⟨hs, hle, hlt⟩ | ⟨hs, -⟩
    · exact copyOf_of_kept hr (fun j hj => memcpy_s_kept hmem hj) (wide (by omega))
        (by omega) (by omega)
    · exact copyOf_of_kept hr (fun j hj => memcpy_s_kept hmem hj)
        ((unreadIndex_lt_iff hr hs hlt).mpr hle) (by omega) hlt
    · exact copyOf_of_kept hr (fun j hj => memcpy_s_kept hmem hj) (wide (by omega))
        (by omega) (by omega)

/-! ## Resizing -/

/-- A region that does not wrap is the same block under every modulus above its end. -/
theorem contents_of_le (h : r.head ≤ r.tail) (ht : r.tail ≤ r.bufferSize) :
    r.contents = block r.inBuffer r.head (r.tail - r.head) := by
  have used : r.getUseSize = r.tail - r.head := by unfold getUseSize; rw [if_pos h]
  rw [contents, used, block_eq_window _ (n := r.bufferSize) (by omega)]

/-- **`Resize` keeps the unread bytes exactly when the size stays or the region does not wrap and
ends below the new size.** -/
theorem keeps_resize_iff (hr : r.Valid) {size : Nat} (mem : Nat → UInt8) :
    (resize r.allocated size mem).Keeps r ↔
      size = r.bufferSize ∨ (r.head ≤ r.tail ∧ r.tail < size) := by
  have hh := hr.head_lt; have ht := hr.tail_lt
  have kept : ∀ j < min r.bufferSize size,
      (resize r.allocated size mem).ring.inBuffer j = r.inBuffer j := fun j hj => by
    simpa [resize] using store_block mem r.inBuffer [] hj
  constructor
  · rintro ⟨⟨-, hcontents⟩, head_lt, tail_lt⟩
    have lengths := congrArg List.length hcontents
    rw [length_contents, length_contents] at lengths
    unfold getUseSize resize allocated at lengths
    change r.head < size at head_lt
    change r.tail < size at tail_lt
    by_cases hle : r.head ≤ r.tail
    · exact .inr ⟨hle, tail_lt⟩
    · left
      simp only [ge_iff_le, hle, if_false] at lengths
      omega
  · rintro (rfl | ⟨hle, hlt⟩)
    · exact ⟨⟨fun i _ => Nat.mod_lt _ hr.pos, contents_congr r.bufferSize
        (fun j hj => kept j (by omega)) fun i _ => Nat.mod_lt _ hr.pos⟩, hh, ht⟩
    · refine ⟨⟨fun i _ => Nat.mod_lt _ (Nat.zero_lt_of_lt hlt), ?_⟩,
        Nat.lt_of_le_of_lt hle hlt, hlt⟩
      rw [contents_of_le hle (Nat.le_of_lt ht)]
      refine (contents_of_le (r := (resize r.allocated size mem).ring) hle (Nat.le_of_lt hlt)).trans ?_
      refine List.map_congr_left fun i hi => kept (r.head + i) ?_
      have inside : i < r.tail - r.head := List.mem_range.mp hi
      omega

/-- **Copies and resizes that keep the contents.** -/
theorem copy_resize_iff (hr : r.Valid) (mem : Nat → UInt8) (behind : Option (Nat → UInt8)) :
    ((∃ c, copyConstruct r.allocated mem behind = some c ∧ c.CopyOf r) ↔
      r.Copies behind bufferSize_INIT) ∧
    (∀ d : Allocated, (∃ c, assign false d r.allocated mem behind = some c ∧ c.CopyOf r) ↔
      r.Copies behind d.ring.bufferSize) ∧
    ∀ size, r.getUseSize < size →
      ((resize r.allocated size mem).Keeps r ↔
        size = r.bufferSize ∨ (r.head ≤ r.tail ∧ r.tail < size)) :=
  ⟨copyOf_iff hr mem behind _, fun d => copyOf_iff hr mem behind d.ring.bufferSize,
    fun _ _ => keeps_resize_iff hr mem⟩

/-- The ring of `size` bytes `0, 1, 2, …` with the given indices. -/
def numbered (size head tail : Nat) : RingBuffer := ⟨size, UInt8.ofNat, head, tail⟩

/-- Eight bytes, the four unread ones at `6, 7, 0, 1`: an assignment onto a buffer of eight bytes
copies them, `Resize(16)` loses them. -/
theorem copy_resize_iff_numbered :
    (∃ c, assign false (numbered 8 0 0).allocated (numbered 8 6 2).allocated (fun _ => 0) none =
      some c ∧ c.CopyOf (numbered 8 6 2)) ∧
    ¬ (resize (numbered 8 6 2).allocated 16 fun _ => 0).Keeps (numbered 8 6 2) := by
  have hr : (numbered 8 6 2).Valid := ⟨by decide, by decide, by decide⟩
  have h := copy_resize_iff hr (fun _ => 0) none
  refine ⟨(h.2.1 _).mpr (.inl rfl), fun hkeeps => ?_⟩
  have := (h.2.2 16 (by decide)).mp hkeeps
  simp [numbered] at this

/-- Neither copy of a wrapped region into a smaller block is its source, nor is a copy that reads
behind the source's block, and a wrapped region does not survive `Resize`. -/
theorem copies_lose_contents :
    (¬ ∃ c, copyConstruct (numbered 5000 4500 100).allocated (fun _ => 0) none = some c ∧
      c.CopyOf (numbered 5000 4500 100)) ∧
    (¬ ∃ c, copyConstruct (numbered 3000 10 20).allocated (fun _ => 0) none = some c ∧
      c.CopyOf (numbered 3000 10 20)) ∧
    (¬ ∃ c, assign false (numbered 4 0 0).allocated (numbered 8 6 2).allocated (fun _ => 0) none =
      some c ∧ c.CopyOf (numbered 8 6 2)) ∧
    ¬ (resize (numbered 8 6 2).allocated 16 fun _ => 0).Keeps (numbered 8 6 2) := by
  have valid : ∀ {size head tail : Nat}, head < size → tail < size → size < 2 ^ 31 →
      (numbered size head tail).Valid := fun hh ht hs => ⟨hh, ht, hs⟩
  refine ⟨fun h => ?_, fun h => ?_, fun h => ?_, fun h => ?_⟩
  · have := (copyOf_iff (valid (by omega) (by omega) (by omega)) _ _ _).mp h
    simp [Copies, numbered, bufferSize_INIT] at this
  · have := (copyOf_iff (valid (by omega) (by omega) (by omega)) _ _ _).mp h
    simp [Copies, numbered, bufferSize_INIT] at this
  · have := (copyOf_iff (r := numbered 8 6 2) (valid (by omega) (by omega) (by omega)) _ none 4).mp h
    simp [Copies, numbered] at this
  · have := (keeps_resize_iff (valid (by omega) (by omega) (by omega)) _).mp h
    simp [numbered] at this

end IocpServer.RingBuffer
