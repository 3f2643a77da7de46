import IocpServer.RingBufferQueue

/-!
# Scatter receive and `Enqueue`

`RecvPost` hands two segments of the ring's allocation to `WSARecv`; `RecvProc` then only moves the
tail.  `Enqueue` copies byte by byte.  Both put the same bytes into the buffer.

* `directEnqueueLength_eq` — the four cases of `DirectEnqueueSize` in signed arithmetic.
* `recvPost_inside`, `recvPost_unread` — the segments lie in the allocation and off the unread bytes.
* `recvPost_enqueue` — **the posted segments are sound, and a receive into them is an `Enqueue`.**
-/

set_option autoImplicit false

namespace IocpServer

open Lib

namespace RingBuffer

/-- The bytes of the allocation a posted buffer covers. -/
def WsaBuf.Covers (b : WsaBuf) (i : Nat) : Prop := b.buf ≤ i ∧ i < b.buf + b.len

/-- `DirectEnqueueSize` with the subtractions in signed arithmetic. -/
def directEnqueueLength (r : RingBuffer) : Int :=
  if r.getFreeSize = 0 then 0
  else if r.head > r.tail then (r.head : Int) - r.tail - 1
  else if r.head = 0 then (r.bufferSize : Int) - r.tail - 1
  else (r.bufferSize : Int) - r.tail

/-- The lengths `RecvPost` computes for its two buffers, in signed arithmetic. -/
def postedLengths (r : RingBuffer) : Int × Int :=
  (r.directEnqueueLength, (r.getFreeSize : Int) - r.directEnqueueLength)

/-- `i` is the place of an unread byte. -/
def Unread (r : RingBuffer) (i : Nat) : Prop := ∃ k < r.getUseSize, i = (r.head + k) % r.bufferSize

variable {r : RingBuffer}

/-! ## The two segments -/

theorem directEnqueueLength_eq (h : r.Valid) :
    r.directEnqueueLength = (r.directEnqueueSize : Int) := by
  have := h.head_lt; have := h.tail_lt
  unfold directEnqueueLength directEnqueueSize
  split
  · rfl
  · split
    · omega
    · split <;> omega

theorem directEnqueueSize_le (h : r.Valid) :
    r.directEnqueueSize ≤ r.getFreeSize ∧ r.directEnqueueSize ≤ r.bufferSize - r.tail := by
  by_cases h0 : r.getFreeSize = 0
  · have : r.directEnqueueSize = 0 := by unfold directEnqueueSize; rw [if_pos h0]
    omega
  · rw [directEnqueueSize_eq h h0]
    exact ⟨Nat.min_le_left _ _, Nat.min_le_right _ _⟩

theorem postedLengths_eq (h : r.Valid) :
    r.postedLengths = ((r.recvPost.1.len : Int), (r.recvPost.2.len : Int)) := by
  have := (directEnqueueSize_le h).1
  simp only [postedLengths, recvPost, directEnqueueLength_eq h, Prod.mk.injEq, true_and]
  omega

theorem recvPost_sum (h : r.Valid) : r.recvPost.1.len + r.recvPost.2.len = r.getFreeSize := by
  have := (directEnqueueSize_le h).1
  simp only [recvPost]
  omega

/-- The second segment is used only once the first has reached the physical end. -/
theorem recvPost_second (h : r.Valid) (h0 : 0 < r.recvPost.2.len) :
    r.recvPost.1.len = r.bufferSize - r.tail := by
  simp only [recvPost] at h0 ⊢
  have hfree : r.getFreeSize ≠ 0 := by omega
  rw [directEnqueueSize_eq h hfree] at h0 ⊢
  omega

theorem recvPost_inside (h : r.Valid) :
    r.recvPost.1.buf + r.recvPost.1.len ≤ r.bufferSize ∧
      r.recvPost.2.buf + r.recvPost.2.len ≤ r.bufferSize := by
  have := h.tail_lt
  have := (directEnqueueSize_le h).2
  have := getFreeSize_le h
  simp only [recvPost]
  omega

theorem recvPost_disjoint (h : r.Valid) (i : Nat) :
    ¬(r.recvPost.1.Covers i ∧ r.recvPost.2.Covers i) := by
  rintro ⟨⟨hlow, -⟩, -, hhigh⟩
  have hlen := recvPost_second h (by simp only [recvPost] at hhigh ⊢; omega)
  have := getFreeSize_le h
  have := h.tail_lt
  simp only [recvPost] at hlow hhigh hlen
  omega

/-- The place of an unread byte lies between `head` and `tail`, going round at the end. -/
theorem unread_cases (h : r.Valid) {i : Nat} (hi : r.Unread i) :
    (r.head ≤ r.tail ∧ r.head ≤ i ∧ i < r.tail) ∨
      (r.tail < r.head ∧ i < r.bufferSize ∧ (r.head ≤ i ∨ i < r.tail)) := by
  obtain ⟨k, hk, rfl⟩ := hi
  have := h.head_lt; have := h.tail_lt
  unfold getUseSize at hk
  by_cases hw : r.head + k < r.bufferSize
  · rw [Nat.mod_eq_of_lt hw]
    split at hk <;> omega
  · have hmod : (r.head + k) % r.bufferSize = r.head + k - r.bufferSize := by
      rw [Nat.mod_eq_sub_mod (by omega), Nat.mod_eq_of_lt (by split at hk <;> omega)]
    rw [hmod]
    split at hk <;> omega

theorem recvPost_unread (h : r.Valid) {i : Nat} (hi : r.Unread i) :
    ¬r.recvPost.1.Covers i ∧ ¬r.recvPost.2.Covers i := by
  have := h.head_lt; have := h.tail_lt
  have hfree := getFreeSize_eq h
  have hdirect := directEnqueueSize_le h
  have hsecond := recvPost_second h
  unfold getUseSize at hfree
  unfold WsaBuf.Covers
  simp only [recvPost] at hsecond ⊢
  rcases unread_cases h hi with ⟨hle, hlow, hhigh⟩ | ⟨hlt, hsize, hside⟩
  · rw [if_pos (show r.tail ≥ r.head from hle)] at hfree
    omega
  · rw [if_neg (show ¬r.tail ≥ r.head by omega)] at hfree
    omega

/-! ## Receiving and enqueueing -/

/-- The tail `Enqueue` leaves, for a request that fits. -/
theorem enqueue_tail (h : r.Valid) (data : Nat → UInt8) {n : Nat} (hn : n ≤ r.getFreeSize) :
    (r.enqueue data n).2.head = r.head ∧
      (r.enqueue data n).2.tail = (r.tail + n) % r.bufferSize := by
  unfold enqueue
  split
  · rename_i hfull
    obtain rfl : n = 0 := by
      have := (enqueue_full h).mp hfull
      omega
    exact ⟨rfl, (Nat.mod_eq_of_lt h.tail_lt).symm⟩
  · have hfree := getFreeSize_le h
    have htarget : (if r.getFreeSize < n then r.getFreeSize else n) = n := if_neg (by omega)
    have hloop := @writeLoop_spec r.bufferSize data h.pos n 0 r.tail r.head r.getUseSize r.inBuffer
      (by omega) (tail_eq h)
    refine ⟨rfl, ?_⟩
    dsimp only
    rw [htarget, hloop.1, ← Nat.add_assoc, ← Nat.mod_add_mod, ← tail_eq h]

/-- **The posted segments are sound, and a receive into them is an `Enqueue`.**  They lie inside the
allocation, apart from each other and from every unread byte; their lengths are not negative and add
up to the free size; and after `n` bytes written into them in order, `MoveTail` returns `n` and
leaves the contents, the head and the tail that `Enqueue` of these bytes leaves. -/
theorem recvPost_enqueue (h : r.Valid) :
    (r.recvPost.1.buf + r.recvPost.1.len ≤ r.bufferSize ∧
        r.recvPost.2.buf + r.recvPost.2.len ≤ r.bufferSize) ∧
      (∀ i, ¬(r.recvPost.1.Covers i ∧ r.recvPost.2.Covers i)) ∧
      (∀ i, r.Unread i → ¬r.recvPost.1.Covers i ∧ ¬r.recvPost.2.Covers i) ∧
      (r.postedLengths = ((r.recvPost.1.len : Int), (r.recvPost.2.len : Int)) ∧
        0 ≤ r.postedLengths.1 ∧ 0 ≤ r.postedLengths.2 ∧
        r.recvPost.1.len + r.recvPost.2.len = r.getFreeSize) ∧
      ∀ (data : Nat → UInt8) (n : Nat), n ≤ r.recvPost.1.len + r.recvPost.2.len →
        let moved := (r.fillPosted (block data 0 n)).moveTail n
        let queued := r.enqueue data n
        moved.1 = n ∧ queued.1 = n ∧ moved.2.contents = queued.2.contents ∧
          moved.2.head = queued.2.head ∧ moved.2.tail = queued.2.tail := by
  refine ⟨recvPost_inside h, recvPost_disjoint h, fun i hi => recvPost_unread h hi, ?_, ?_⟩
  · have hlen := postedLengths_eq h
    refine ⟨hlen, ?_, ?_, recvPost_sum h⟩
    · simp [hlen]
    · simp [hlen]
  · intro data n hn
    rw [recvPost_sum h] at hn
    have hchunk : (block data 0 n).length ≤ r.getFreeSize := by simpa using hn
    have hcontents := contents_received h hchunk
    have hreceived := received_eq h hchunk
    obtain ⟨hret, -, hqueued⟩ := enqueue_eq h data n
    obtain ⟨hhead, htail⟩ := enqueue_tail h data hn
    rw [Nat.min_eq_left hn] at hret hqueued
    have hmoved : (r.fillPosted (block data 0 n)).moveTail n = (n, r.received (block data 0 n)) := by
      have hfree : (r.fillPosted (block data 0 n)).getFreeSize = r.getFreeSize := rfl
      rw [received, length_block, moveTail, hfree, if_neg (by omega)]
    refine ⟨by rw [hmoved], hret, ?_, ?_, ?_⟩
    · rw [hmoved, hqueued, hcontents]
    · rw [hmoved, hhead, hreceived]
    · rw [hmoved, htail, hreceived, length_block]

/-- A ring of four bytes with both indices at `2`: the segments are `[2, 4)` and `[0, 1)`. -/
theorem recvPost_enqueue_wrap :
    (((RingBuffer.mk 4 (fun _ => 0) 2 2).fillPosted
      (block (fun i => UInt8.ofNat (i + 7)) 0 3)).moveTail 3).2.contents = [7, 8, 9] := by
  have hvalid : (RingBuffer.mk 4 (fun _ => 0) 2 2).Valid := ⟨by decide, by decide, by decide⟩
  have hsound := (recvPost_enqueue hvalid).2.2.2.2 (fun i => UInt8.ofNat (i + 7)) 3 (by decide)
  exact hsound.2.2.1.trans rfl

end RingBuffer

end IocpServer
