import IocpServer.RingBuffer

/-!
# The ring buffer as a bounded queue

The copying operations `Enqueue`, `Dequeue` and `ClearBuffer` beside those of the receive path, and
the queue the six of them implement: a list of bytes of a bounded length.

* `Queue.step` — the abstract queue.
* `writeLoop_spec`, `readLoop_eq` — the copy loops, one byte at a time, are cyclic windows.
* `exec_refines` — **every operation on a valid buffer does to its contents what the queue does,
  with the same results.**
* `run_refines` — **so does every sequence of operations on a new buffer of any size.**
-/

set_option autoImplicit false

namespace IocpServer

open Lib

namespace RingBuffer

/-- The copy loop of `Enqueue`: `n` bytes of `data` from `index` on into `inBuffer` from `temp` on;
the final `temp` and the memory. -/
def writeLoop (bufferSize : Nat) (data : Nat → UInt8) :
    Nat → Nat → Nat → (Nat → UInt8) → Nat × (Nat → UInt8)
  | 0, _, temp, inBuffer => (temp, inBuffer)
  | n + 1, index, temp, inBuffer =>
    writeLoop bufferSize data n (index + 1) (if temp + 1 = bufferSize then 0 else temp + 1)
      (Function.update inBuffer temp (data index))

/-- `Enqueue`: the return value and the buffer. -/
def enqueue (r : RingBuffer) (data : Nat → UInt8) (size : Nat) : Nat × RingBuffer :=
  if r.head = (r.tail + 1) % r.bufferSize then (0, r)
  else
    let enableSize := r.getFreeSize
    let targetSize := if enableSize < size then enableSize else size
    let (temp, inBuffer) := writeLoop r.bufferSize data targetSize 0 r.tail r.inBuffer
    (targetSize, { r with inBuffer := inBuffer, tail := temp })

/-- The copy loop of `Dequeue`: the bytes written to `dest` and the final `temp`. -/
def readLoop (r : RingBuffer) : Nat → Nat → List UInt8 × Nat
  | 0, temp => ([], temp)
  | n + 1, temp =>
    let (dest, last) := readLoop r n (if temp + 1 = r.bufferSize then 0 else temp + 1)
    (r.inBuffer temp :: dest, last)

/-- `Dequeue`: the bytes written to `dest`, whose number is the return value, and the buffer. -/
def dequeue (r : RingBuffer) (size : Nat) : List UInt8 × RingBuffer :=
  if r.head = r.tail then ([], r)
  else
    let (dest, temp) := r.readLoop (if size < r.getUseSize then size else r.getUseSize) r.head
    (dest, { r with head := temp })

def clearBuffer (r : RingBuffer) : RingBuffer := { r with head := 0, tail := 0 }

inductive Op where
  | enqueue (data : Nat → UInt8) (size : Nat)
  | dequeue (size : Nat)
  | peek (size : Nat)
  | moveHead (size : Nat)
  | moveTail (size : Nat)
  | clearBuffer

/-- What a call hands back: its return value and the bytes written to `dest`. -/
structure Result where
  ret : Nat
  dest : List UInt8
  deriving DecidableEq

/-- One call. -/
def exec (r : RingBuffer) : Op → Result × RingBuffer
  | .enqueue data size => let (ret, r) := r.enqueue data size; (⟨ret, []⟩, r)
  | .dequeue size => let (dest, r) := r.dequeue size; (⟨dest.length, dest⟩, r)
  | .peek size => (⟨(r.peek size).length, r.peek size⟩, r)
  | .moveHead size => let (ret, r) := r.moveHead size; (⟨ret, []⟩, r)
  | .moveTail size => let (ret, r) := r.moveTail size; (⟨ret, []⟩, r)
  | .clearBuffer => (⟨0, []⟩, r.clearBuffer)

/-! ## The abstract queue -/

namespace Queue

/-- One operation on a queue of at most `capacity` bytes.  `inPlace size` is what lies in the
memory behind the queue, which `moveTail` takes in as it is. -/
def step (capacity : Nat) (inPlace : Nat → List UInt8) (q : List UInt8) :
    Op → Result × List UInt8
  | .enqueue data size =>
    let n := min size (capacity - q.length)
    (⟨n, []⟩, q ++ block data 0 n)
  | .dequeue size => (⟨min size q.length, q.take size⟩, q.drop size)
  | .peek size => (⟨min size q.length, q.take size⟩, q)
  | .moveHead size => if size ≤ q.length then (⟨size, []⟩, q.drop size) else (⟨0, []⟩, q)
  | .moveTail size =>
    if size ≤ capacity - q.length then (⟨size, []⟩, q ++ inPlace size) else (⟨0, []⟩, q)
  | .clearBuffer => (⟨0, []⟩, [])

end Queue

/-- The `size` bytes from `tail` on, modulo `bufferSize`. -/
def behind (r : RingBuffer) (size : Nat) : List UInt8 := window r.inBuffer r.bufferSize r.tail size

/-! ## The loops -/

variable {r : RingBuffer}

theorem readLoop_eq (h : 0 < r.bufferSize) :
    ∀ (n temp : Nat), temp < r.bufferSize →
      r.readLoop n temp = (r.copyLoop n temp, (temp + n) % r.bufferSize)
  | 0, temp, ht => by rw [readLoop, copyLoop, Nat.add_zero, Nat.mod_eq_of_lt ht]
  | n + 1, temp, ht => by
    have hnext : (if temp + 1 = r.bufferSize then 0 else temp + 1) < r.bufferSize := by
      rw [next_eq_mod ht]
      exact Nat.mod_lt _ h
    rw [readLoop, copyLoop, readLoop_eq h n _ hnext]
    dsimp only
    rw [next_eq_mod ht, Nat.mod_add_mod, show temp + 1 + n = temp + (n + 1) by omega]

/-- Writing one byte behind a window appends it. -/
theorem window_update {mem : Nat → UInt8} {n start len temp : Nat} (hn : 0 < n) (hlen : len < n)
    (htemp : temp = (start + len) % n) (b : UInt8) :
    window (Function.update mem temp b) n start (len + 1) = window mem n start len ++ [b] := by
  have hlt : temp < n := by rw [htemp]; exact Nat.mod_lt _ hn
  have hstore : scatter mem n temp [b] = Function.update mem temp b := by
    have htake : [b].take (n - temp) = [b] := List.take_of_length_le (by simp; omega)
    have hdrop : [b].drop (n - temp) = [] := List.drop_eq_nil_of_le (by simp; omega)
    rw [scatter, htake, hdrop, store_nil]
    funext j
    unfold store
    by_cases hj : j = temp
    · rw [hj, Function.update_self, if_pos (Nat.le_refl _), Nat.sub_self]
      rfl
    · rw [Function.update_of_ne hj]
      split
      · rw [List.getElem?_eq_none (by simp; omega), Option.getD_none]
      · rfl
  have happend := @window_scatter _ mem n start len [b] hn
    (by simp only [List.length_singleton]; omega)
  rw [← htemp, hstore] at happend
  exact happend

/-- **The copy loop of `Enqueue`** extends a window by the bytes it copies. -/
theorem writeLoop_spec {n : Nat} {data : Nat → UInt8} (hn : 0 < n) :
    ∀ (k index temp start len : Nat) (mem : Nat → UInt8), len + k < n + 1 →
      temp = (start + len) % n →
      (writeLoop n data k index temp mem).1 = (start + (len + k)) % n ∧
        window (writeLoop n data k index temp mem).2 n start (len + k) =
          window mem n start len ++ block data index k
  | 0, index, temp, start, len, mem, _, ht => by
    simp only [writeLoop, Nat.add_zero, ht, block_zero, List.append_nil, and_self]
  | k + 1, index, temp, start, len, mem, hk, ht => by
    have hlt : temp < n := by rw [ht]; exact Nat.mod_lt _ hn
    have hnext : (if temp + 1 = n then 0 else temp + 1) = (start + (len + 1)) % n := by
      rw [next_eq_mod hlt, ht, Nat.mod_add_mod, Nat.add_assoc]
    obtain ⟨htemp, hwindow⟩ := writeLoop_spec hn k (index + 1) _ start (len + 1)
      (Function.update mem temp (data index)) (by omega) hnext
    rw [writeLoop, show len + (k + 1) = len + 1 + k by omega]
    refine ⟨htemp, ?_⟩
    rw [hwindow, window_update hn (by omega) ht, List.append_assoc, Nat.add_comm k 1, block_add]
    rfl

/-! ## The operations -/

theorem getFreeSize_le (h : r.Valid) : r.getUseSize + r.getFreeSize < r.bufferSize := by
  have := use_add_free h
  have := h.pos
  omega

/-- The early exit of `Enqueue` is taken exactly on a full buffer. -/
theorem enqueue_full (h : r.Valid) :
    r.head = (r.tail + 1) % r.bufferSize ↔ r.getFreeSize = 0 := by
  have hh := h.head_lt
  have ht := h.tail_lt
  rw [getFreeSize_eq h, ← next_eq_mod ht]
  unfold getUseSize
  split <;> split <;> omega

/-- A buffer whose tail has moved on by `n` holds the window that is longer by `n`. -/
theorem contents_of_tail {r' : RingBuffer} {n : Nat} (h : r.Valid)
    (hn : r.getUseSize + n < r.bufferSize) (hsize : r'.bufferSize = r.bufferSize)
    (hhead : r'.head = r.head) (htail : r'.tail = (r.head + (r.getUseSize + n)) % r.bufferSize) :
    r'.contents = window r'.inBuffer r.bufferSize r.head (r.getUseSize + n) := by
  have huse : r'.getUseSize = r.getUseSize + n := by
    refine getUseSize_of_tail ?_ ?_ ?_
    · rw [hhead, hsize]; exact h.head_lt
    · rw [hsize]; exact hn
    · rw [hhead, hsize]; exact htail
  rw [contents, huse, hsize, hhead]

theorem enqueue_eq (h : r.Valid) (data : Nat → UInt8) (size : Nat) :
    (r.enqueue data size).1 = min size r.getFreeSize ∧ (r.enqueue data size).2.Valid ∧
      (r.enqueue data size).2.contents = r.contents ++ block data 0 (min size r.getFreeSize) := by
  unfold enqueue
  split
  · rename_i hfull
    rw [(enqueue_full h).mp hfull, Nat.min_zero, block_zero, List.append_nil]
    exact ⟨rfl, h, rfl⟩
  · have htarget : (if r.getFreeSize < size then r.getFreeSize else size) =
        min size r.getFreeSize := by
      split <;> omega
    have hle : min size r.getFreeSize ≤ r.getFreeSize := Nat.min_le_right _ _
    have hfree := getFreeSize_le h
    dsimp only
    rw [htarget]
    generalize min size r.getFreeSize = n at *
    obtain ⟨htemp, hwindow⟩ := @writeLoop_spec r.bufferSize data h.pos n 0 r.tail r.head
      r.getUseSize r.inBuffer (by omega) (tail_eq h)
    refine ⟨rfl, ⟨h.head_lt, ?_, h.size_lt⟩, ?_⟩
    · dsimp only
      rw [htemp]
      exact Nat.mod_lt _ h.pos
    · refine Eq.trans (contents_of_tail h ?_ rfl rfl htemp) hwindow
      omega

theorem contents_of_empty (h : r.head = r.tail) : r.contents = [] := by
  have : r.getUseSize = 0 := by
    unfold getUseSize
    rw [if_pos (by omega)]
    omega
  rw [contents, this, window_zero]

/-- `Dequeue` is `Peek` followed by `MoveHead` of what it read. -/
theorem dequeue_eq (h : r.Valid) (size : Nat) :
    r.dequeue size = (r.peek size, r.dropHead (min size r.getUseSize)) := by
  have htarget : (if size < r.getUseSize then size else r.getUseSize) = min size r.getUseSize := by
    split <;> omega
  unfold dequeue peek
  split
  · rename_i hempty
    have hzero := congrArg List.length (contents_of_empty hempty)
    rw [length_contents, List.length_nil] at hzero
    have hmod : (r.head + 0) % r.bufferSize = r.head := Nat.mod_eq_of_lt h.head_lt
    rw [hzero, Nat.min_zero, dropHead, hmod]
  · rw [htarget, readLoop_eq h.pos _ _ h.head_lt]
    rfl

theorem moveTail_contents (h : r.Valid) {size : Nat} (hs : size ≤ r.getFreeSize) :
    ({ r with tail := (r.tail + size) % r.bufferSize } : RingBuffer).contents =
      r.contents ++ r.behind size := by
  have hfree := getFreeSize_le h
  have htail : (r.tail + size) % r.bufferSize =
      (r.head + (r.getUseSize + size)) % r.bufferSize := by
    rw [tail_eq h, Nat.mod_add_mod, Nat.add_assoc]
  have hsum : r.getUseSize + size < r.bufferSize := by omega
  refine Eq.trans (contents_of_tail h hsum rfl rfl htail) ?_
  rw [window_add, ← tail_eq h]
  rfl

theorem capacity_sub (h : r.Valid) : r.bufferSize - 1 - r.contents.length = r.getFreeSize := by
  rw [length_contents, getFreeSize_eq h]

/-- **One call does to the contents what the queue does**, with the queue's results. -/
theorem exec_refines (h : r.Valid) (op : Op) :
    (r.exec op).2.Valid ∧
      ((r.exec op).1, (r.exec op).2.contents) =
        Queue.step (r.bufferSize - 1) r.behind r.contents op := by
  cases op with
  | enqueue data size =>
    obtain ⟨hret, hvalid, hcontents⟩ := enqueue_eq h data size
    refine ⟨hvalid, ?_⟩
    rw [exec, Queue.step, capacity_sub h]
    dsimp only
    rw [hret, hcontents]
  | dequeue size =>
    rw [exec, Queue.step, dequeue_eq h]
    dsimp only
    refine ⟨dropHead_valid h _, ?_⟩
    rw [contents_dropHead h (Nat.min_le_right _ _), peek_eq h, List.length_take, length_contents]
    congr 1
    by_cases hs : size ≤ r.getUseSize
    · rw [Nat.min_eq_left hs]
    · rw [Nat.min_eq_right (by omega), List.drop_eq_nil_of_le (by simp),
        List.drop_eq_nil_of_le (by simp; omega)]
  | peek size =>
    refine ⟨h, ?_⟩
    rw [exec, Queue.step, peek_eq h, List.length_take]
  | moveHead size =>
    rw [exec, Queue.step, length_contents]
    dsimp only
    by_cases hs : size ≤ r.getUseSize
    · rw [moveHead_eq hs, if_pos hs, ← contents_dropHead h hs]
      exact ⟨dropHead_valid h _, rfl⟩
    · rw [moveHead, if_pos (by omega), if_neg hs]
      exact ⟨h, rfl⟩
  | moveTail size =>
    rw [exec, Queue.step, capacity_sub h]
    dsimp only
    by_cases hs : size ≤ r.getFreeSize
    · rw [moveTail, if_neg (by omega), if_pos hs, ← moveTail_contents h hs]
      exact ⟨⟨h.head_lt, Nat.mod_lt _ h.pos, h.size_lt⟩, rfl⟩
    · rw [moveTail, if_pos (by omega), if_neg hs]
      exact ⟨h, rfl⟩
  | clearBuffer =>
    refine ⟨⟨h.pos, h.pos, h.size_lt⟩, ?_⟩
    rw [exec, Queue.step, contents_of_empty rfl]

theorem bufferSize_exec (op : Op) : (r.exec op).2.bufferSize = r.bufferSize := by
  cases op with
  | enqueue data size =>
    simp only [exec, enqueue]
    split <;> rfl
  | dequeue size =>
    simp only [exec, dequeue]
    split <;> rfl
  | peek size => rfl
  | moveHead size =>
    simp only [exec, moveHead]
    split <;> rfl
  | moveTail size =>
    simp only [exec, moveTail]
    split <;> rfl
  | clearBuffer => rfl

/-! ## Sequences of calls -/

/-- The buffer after a sequence of calls. -/
def execAll (r : RingBuffer) (ops : List Op) : RingBuffer := ops.foldl (fun r op => (r.exec op).2) r

theorem execAll_valid (h : r.Valid) (ops : List Op) :
    (r.execAll ops).Valid ∧ (r.execAll ops).bufferSize = r.bufferSize := by
  induction ops generalizing r with
  | nil => exact ⟨h, rfl⟩
  | cons op ops ih =>
    obtain ⟨hvalid, hsize⟩ := ih (exec_refines h op).1
    exact ⟨hvalid, hsize.trans (bufferSize_exec op)⟩

/-- **A ring buffer of `size` bytes is a queue of at most `size - 1`.**  After every sequence of
calls on a new buffer the indices are inside it, used and free bytes add up to `size - 1`, and the
next call, whatever it is, does what it does to the queue of the contents. -/
theorem run_refines {size : Nat} (hsize : 1 ≤ size) (hint : size < 2 ^ 31) (mem : Nat → UInt8)
    (ops : List Op) (op : Op) :
    let r := (new size mem).execAll ops
    (r.head < size ∧ r.tail < size) ∧ r.getUseSize + r.getFreeSize = size - 1 ∧
      r.contents.length = r.getUseSize ∧
      ((r.exec op).1, (r.exec op).2.contents) = Queue.step (size - 1) r.behind r.contents op := by
  obtain ⟨hvalid, hbuffer⟩ := execAll_valid (new_valid hsize hint mem) ops
  intro r
  have hbuffer : r.bufferSize = size := hbuffer
  refine ⟨⟨hbuffer ▸ hvalid.head_lt, hbuffer ▸ hvalid.tail_lt⟩, ?_, length_contents r, ?_⟩
  · rw [use_add_free hvalid, hbuffer]
  · rw [(exec_refines hvalid op).2, hbuffer]

/-- Three bytes into a buffer of three: two fit. -/
theorem run_refines_three :
    ((new 3 fun _ => 0).exec (.enqueue (fun i => UInt8.ofNat (i + 7)) 3)).1 = ⟨2, []⟩ ∧
      ((new 3 fun _ => 0).exec (.enqueue (fun i => UInt8.ofNat (i + 7)) 3)).2.contents = [7, 8] := by
  have hstep := (@run_refines 3 (by decide) (by decide) (fun _ => 0) []
    (.enqueue (fun i => UInt8.ofNat (i + 7)) 3)).2.2.2
  exact ⟨congrArg Prod.fst hstep, congrArg Prod.snd hstep⟩

end RingBuffer

end IocpServer
