import IocpServer.Lib.Window

/-!
# The receive ring buffer

Model of `RingBuffer.h` / `RingBuffer.cpp`.  One slot of `bufferSize` stays free, so that
`head = tail` means empty.  The indices are `size_t` and the sizes non-negative `int`s; both
are `Nat` here (no operation below goes under zero once the indices are inside the buffer).
`inBuffer` is the block `malloc` returned: its first contents are arbitrary.

* `contents` — the abstract value: the `getUseSize` bytes from `head` on, modulo `bufferSize`.
* `peek_eq`, `contents_dropHead`, `contents_received` — what the operations do to it.
* `directDequeueSize_eq` — the contiguous part is the smaller of the unread size and the
  distance from `head` to the physical end.
-/

set_option autoImplicit false

namespace IocpServer

open Lib

/-- `szRingBuffer_DEFAULT`. -/
def szRingBuffer_DEFAULT : Nat := 3000

structure RingBuffer where
  bufferSize : Nat
  inBuffer : Nat → UInt8
  head : Nat
  tail : Nat

namespace RingBuffer

/-- `RingBuffer(int size)`; `mem` is what `malloc` left in the block. -/
def new (size : Nat) (mem : Nat → UInt8) : RingBuffer := ⟨size, mem, 0, 0⟩

def getUseSize (r : RingBuffer) : Nat :=
  if r.tail ≥ r.head then r.tail - r.head else r.bufferSize - (r.head - r.tail)

def getFreeSize (r : RingBuffer) : Nat :=
  (r.head + r.bufferSize - r.tail - 1) % r.bufferSize

/-- The copy loop of `Peek` from physical index `peekIndex`: `targetSize` bytes, going back to
index `0` at the end of the buffer. -/
def copyLoop (r : RingBuffer) : Nat → Nat → List UInt8
  | 0, _ => []
  | targetSize + 1, peekIndex =>
    r.inBuffer peekIndex ::
      copyLoop r targetSize (if peekIndex + 1 = r.bufferSize then 0 else peekIndex + 1)

/-- `Peek`: the bytes written to `dest`; the return value is their number. -/
def peek (r : RingBuffer) (size : Nat) : List UInt8 :=
  if r.head = r.tail then []
  else r.copyLoop (if size < r.getUseSize then size else r.getUseSize) r.head

def directEnqueueSize (r : RingBuffer) : Nat :=
  if r.getFreeSize = 0 then 0
  else if r.head > r.tail then r.head - r.tail - 1
  else if r.head = 0 then r.bufferSize - r.tail - 1
  else r.bufferSize - r.tail

def directDequeueSize (r : RingBuffer) : Nat :=
  if r.head > r.tail then r.bufferSize - r.head else r.tail - r.head

/-- `MoveHead`: the return value and the buffer. -/
def moveHead (r : RingBuffer) (size : Nat) : Nat × RingBuffer :=
  if size > r.getUseSize then (0, r)
  else (size, { r with head := (r.head + size) % r.bufferSize })

/-- `MoveTail`: the return value and the buffer. -/
def moveTail (r : RingBuffer) (size : Nat) : Nat × RingBuffer :=
  if size > r.getFreeSize then (0, r)
  else (size, { r with tail := (r.tail + size) % r.bufferSize })

/-- The memory behind `GetHeadBufferPtr`. -/
def headBuffer (r : RingBuffer) : Nat → UInt8 := fun i => r.inBuffer (r.head + i)

/-! ## Valid buffers and their contents -/

/-- Both indices lie inside the allocation, whose size is an `int`. -/
structure Valid (r : RingBuffer) : Prop where
  head_lt : r.head < r.bufferSize
  tail_lt : r.tail < r.bufferSize
  size_lt : r.bufferSize < 2 ^ 31

/-- The unread bytes, oldest first. -/
def contents (r : RingBuffer) : List UInt8 :=
  window r.inBuffer r.bufferSize r.head r.getUseSize

variable {r : RingBuffer}

theorem Valid.pos (h : r.Valid) : 0 < r.bufferSize := Nat.lt_of_le_of_lt (Nat.zero_le _) h.head_lt

theorem new_valid {size : Nat} (h : 0 < size) (hs : size < 2 ^ 31) (mem : Nat → UInt8) :
    (new size mem).Valid := ⟨h, h, hs⟩

@[simp] theorem length_contents (r : RingBuffer) : r.contents.length = r.getUseSize :=
  length_window _ _ _ _

theorem getUseSize_lt (h : r.Valid) : r.getUseSize < r.bufferSize := by
  have := h.head_lt; have := h.tail_lt
  unfold getUseSize; split <;> omega

theorem getFreeSize_eq (h : r.Valid) : r.getFreeSize = r.bufferSize - 1 - r.getUseSize := by
  have := h.head_lt; have := h.tail_lt
  unfold getFreeSize getUseSize
  split
  · rw [Nat.mod_eq_of_lt (by omega)]; omega
  · rw [show r.head + r.bufferSize - r.tail - 1 = (r.head - r.tail - 1) + r.bufferSize by omega,
      Nat.add_mod_right, Nat.mod_eq_of_lt (by omega)]
    omega

/-- The spare slot: unread and free bytes add up to one less than the size. -/
theorem use_add_free (h : r.Valid) : r.getUseSize + r.getFreeSize = r.bufferSize - 1 := by
  have := getUseSize_lt h
  rw [getFreeSize_eq h]; omega

theorem tail_eq (h : r.Valid) : r.tail = (r.head + r.getUseSize) % r.bufferSize := by
  have := h.head_lt; have := h.tail_lt
  unfold getUseSize
  split
  · rw [Nat.mod_eq_of_lt (by omega)]; omega
  · rw [show r.head + (r.bufferSize - (r.head - r.tail)) = r.tail + r.bufferSize by omega,
      Nat.add_mod_right, Nat.mod_eq_of_lt (by omega)]

/-- A buffer whose indices are `len` apart holds `len` bytes. -/
theorem getUseSize_of_tail {len : Nat} (hh : r.head < r.bufferSize) (hl : len < r.bufferSize)
    (ht : r.tail = (r.head + len) % r.bufferSize) : r.getUseSize = len := by
  unfold getUseSize
  by_cases hw : r.head + len < r.bufferSize
  · rw [Nat.mod_eq_of_lt hw] at ht
    rw [if_pos (by omega)]; omega
  · rw [show r.head + len = (r.head + len - r.bufferSize) + r.bufferSize by omega,
      Nat.add_mod_right, Nat.mod_eq_of_lt (by omega)] at ht
    rw [if_neg (by omega)]; omega

/-! ## Reading -/

theorem next_eq_mod {n i : Nat} (h : i < n) : (if i + 1 = n then 0 else i + 1) = (i + 1) % n := by
  split
  · rename_i he
    rw [he, Nat.mod_self]
  · rw [Nat.mod_eq_of_lt (by omega)]

theorem copyLoop_eq (h : 0 < r.bufferSize) :
    ∀ (k i : Nat), i < r.bufferSize → r.copyLoop k i = window r.inBuffer r.bufferSize i k
  | 0, _, _ => rfl
  | k + 1, i, hi => by
    rw [copyLoop, next_eq_mod hi, copyLoop_eq h k _ (Nat.mod_lt _ h), Nat.add_comm k 1, window_add]
    simp [window, Nat.mod_eq_of_lt hi]

/-- `Peek` returns the first `min size used` unread bytes. -/
theorem peek_eq (h : r.Valid) (size : Nat) : r.peek size = r.contents.take size := by
  unfold peek contents
  split
  · rename_i he
    have : r.getUseSize = 0 := by unfold getUseSize; simp [he]
    simp [this]
  · rw [copyLoop_eq h.pos _ _ h.head_lt]
    split
    · rw [window_take _ (by omega)]
    · rw [List.take_of_length_le (by simp; omega)]

theorem directDequeueSize_eq (h : r.Valid) :
    r.directDequeueSize = min r.getUseSize (r.bufferSize - r.head) := by
  have := h.head_lt; have := h.tail_lt
  unfold directDequeueSize getUseSize
  split <;> split <;> omega

/-- The contiguous bytes at `GetHeadBufferPtr` are the first unread ones. -/
theorem block_headBuffer (h : r.Valid) {k : Nat} (hk : k ≤ r.directDequeueSize) :
    block r.headBuffer 0 k = r.contents.take k := by
  rw [directDequeueSize_eq h] at hk
  have := h.head_lt
  have hb : block r.headBuffer 0 k = block r.inBuffer r.head k := by
    unfold block headBuffer; simp
  rw [hb, contents, window_take _ (by omega), block_eq_window _ (n := r.bufferSize) (by omega)]

/-- The buffer `MoveHead` leaves when `size` bytes are there. -/
def dropHead (r : RingBuffer) (size : Nat) : RingBuffer :=
  { r with head := (r.head + size) % r.bufferSize }

theorem moveHead_eq {size : Nat} (hs : size ≤ r.getUseSize) :
    r.moveHead size = (size, r.dropHead size) := by
  unfold moveHead; rw [if_neg (by omega)]; rfl

theorem getUseSize_dropHead (h : r.Valid) {size : Nat} (hs : size ≤ r.getUseSize) :
    (r.dropHead size).getUseSize = r.getUseSize - size := by
  have hu := getUseSize_lt h
  refine getUseSize_of_tail (Nat.mod_lt _ h.pos) (show r.getUseSize - size < r.bufferSize by omega) ?_
  show r.tail = ((r.head + size) % r.bufferSize + (r.getUseSize - size)) % r.bufferSize
  rw [Nat.mod_add_mod, show r.head + size + (r.getUseSize - size) = r.head + r.getUseSize by omega]
  exact tail_eq h

theorem dropHead_valid (h : r.Valid) (size : Nat) : (r.dropHead size).Valid :=
  ⟨Nat.mod_lt _ h.pos, h.tail_lt, h.size_lt⟩

theorem dropHead_dropHead (r : RingBuffer) (a b : Nat) :
    (r.dropHead a).dropHead b = r.dropHead (a + b) := by
  simp only [dropHead, Nat.mod_add_mod, Nat.add_assoc]

theorem contents_dropHead (h : r.Valid) {size : Nat} (hs : size ≤ r.getUseSize) :
    (r.dropHead size).contents = r.contents.drop size := by
  rw [contents, getUseSize_dropHead h hs, contents, window_drop _ hs]
  rfl

/-! ## Receiving into the free region -/

/-- `WSABUF`: `len` bytes from offset `buf` of the ring's allocation. -/
structure WsaBuf where
  buf : Nat
  len : Nat

/-- The two buffers `RecvPost` hands to `WSARecv`. -/
def recvPost (r : RingBuffer) : WsaBuf × WsaBuf :=
  (⟨r.tail, r.directEnqueueSize⟩, ⟨0, r.getFreeSize - r.directEnqueueSize⟩)

/-- A completion of `chunk.length` bytes fills the first posted buffer, then the second. -/
def fillPosted (r : RingBuffer) (chunk : List UInt8) : RingBuffer :=
  let (first, second) := r.recvPost
  let mem := store r.inBuffer first.buf (chunk.take first.len)
  { r with inBuffer := store mem second.buf ((chunk.drop first.len).take second.len) }

theorem directEnqueueSize_eq (h : r.Valid) (h0 : r.getFreeSize ≠ 0) :
    r.directEnqueueSize = min r.getFreeSize (r.bufferSize - r.tail) := by
  have := h.head_lt; have := h.tail_lt
  rw [getFreeSize_eq h] at h0 ⊢
  unfold directEnqueueSize
  rw [getFreeSize_eq h, if_neg h0]
  unfold getUseSize at *
  by_cases hle : r.head ≤ r.tail
  · rw [if_pos hle] at *
    rw [if_neg (by omega)]
    split <;> omega
  · rw [if_neg hle] at *
    rw [if_pos (by omega)]
    omega

/-- The posted segments are filled exactly as a cyclic store would. -/
theorem fillPosted_eq (h : r.Valid) {chunk : List UInt8} (hc : chunk.length ≤ r.getFreeSize) :
    r.fillPosted chunk =
      { r with inBuffer := scatter r.inBuffer r.bufferSize r.tail chunk } := by
  unfold fillPosted recvPost scatter
  simp only
  by_cases h0 : r.getFreeSize = 0
  · obtain rfl : chunk = [] := List.eq_nil_of_length_eq_zero (by omega)
    simp only [List.take_nil, List.drop_nil, store_nil]
  · rw [directEnqueueSize_eq h h0]
    rw [List.take_of_length_le (l := chunk.drop _) (by simp; omega)]
    by_cases hle : r.getFreeSize ≤ r.bufferSize - r.tail
    · rw [Nat.min_eq_left hle, List.take_of_length_le hc, List.drop_eq_nil_of_le hc,
        List.take_of_length_le (by omega), List.drop_eq_nil_of_le (by omega)]
    · rw [Nat.min_eq_right (by omega)]

/-- The buffer after a receive completion has been stored and `MoveTail` called. -/
def received (r : RingBuffer) (chunk : List UInt8) : RingBuffer :=
  ((r.fillPosted chunk).moveTail chunk.length).2

theorem received_eq (h : r.Valid) {chunk : List UInt8} (hc : chunk.length ≤ r.getFreeSize) :
    r.received chunk =
      { r with
        inBuffer := scatter r.inBuffer r.bufferSize r.tail chunk
        tail := (r.tail + chunk.length) % r.bufferSize } := by
  have hf : ({ r with inBuffer := scatter r.inBuffer r.bufferSize r.tail chunk } :
      RingBuffer).getFreeSize = r.getFreeSize := rfl
  unfold received moveTail
  rw [fillPosted_eq h hc, hf, if_neg (by omega)]

theorem received_valid (h : r.Valid) {chunk : List UInt8} (hc : chunk.length ≤ r.getFreeSize) :
    (r.received chunk).Valid := by
  rw [received_eq h hc]
  exact ⟨h.head_lt, Nat.mod_lt _ h.pos, h.size_lt⟩

@[simp] theorem received_head (h : r.Valid) {chunk : List UInt8}
    (hc : chunk.length ≤ r.getFreeSize) : (r.received chunk).head = r.head := by
  rw [received_eq h hc]

@[simp] theorem received_bufferSize (h : r.Valid) {chunk : List UInt8}
    (hc : chunk.length ≤ r.getFreeSize) : (r.received chunk).bufferSize = r.bufferSize := by
  rw [received_eq h hc]

/-- **A receive completion appends its bytes to the unread ones.** -/
theorem contents_received (h : r.Valid) {chunk : List UInt8} (hc : chunk.length ≤ r.getFreeSize) :
    (r.received chunk).contents = r.contents ++ chunk := by
  have hu := getUseSize_lt h
  have hf := use_add_free h
  have hlen : (r.received chunk).getUseSize = r.getUseSize + chunk.length := by
    rw [received_eq h hc]
    refine getUseSize_of_tail h.head_lt
      (show r.getUseSize + chunk.length < r.bufferSize by omega) ?_
    show (r.tail + chunk.length) % r.bufferSize = _
    rw [tail_eq h, Nat.mod_add_mod, Nat.add_assoc]
  rw [contents, hlen, received_eq h hc]
  show window (scatter r.inBuffer r.bufferSize r.tail chunk) r.bufferSize r.head _ = _
  rw [tail_eq h, window_scatter _ h.pos (by omega), contents]

end RingBuffer

end IocpServer
