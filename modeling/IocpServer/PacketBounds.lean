import IocpServer.PacketStream
import IocpServer.Lib.Run

/-!
# Bounds of the packet buffer

The remaining cursor operations of `BufferClass.h`, and sequences of all seven.  `MoveReadPos` and
`MoveWritePos` compare with `bufferSize` only: the first can pass the write cursor, and the second
can fall behind the read cursor when its sum wraps.  `Resize` doubles once, whatever the value needs.

* `Good` — the cursors are ordered, and `GetUsedSize`, an `int`, is not negative.
* `Safe` — a call touches its buffer only and leaves the packet good.
* `Fits` — the condition on the packet and the call before it.
* `safe_iff_fits` — on a good packet the two agree, call by call.
* `run_safe_iff` — **a sequence of calls is safe throughout exactly when each of them fits.**
* `moveReadPos_passes` — a packet on which one does not.
-/

set_option autoImplicit false

namespace IocpServer

open Lib

namespace CPacket

/-- `CPacket(bufferSize)`. -/
def create (mem : Nat → UInt8) (bufferSize : UInt32) : CPacket :=
  ⟨mem, 0, 0, bufferSize, 1, false, false⟩

/-- What `GetUsedSize` returns, an `int`. -/
def usedSize (p : CPacket) : Int32 := (p.writePos - p.readPos).toInt32

/-- `MoveWritePos`. -/
def moveWritePos (p : CPacket) (size : UInt32) : Int32 × CPacket :=
  if p.writePos + size ≥ p.bufferSize then
    ((p.bufferSize - p.writePos).toInt32, { p with writePos := p.bufferSize })
  else (size.toInt32, { p with writePos := p.writePos + size })

/-- `MoveReadPos`. -/
def moveReadPos (p : CPacket) (size : UInt32) : Int32 × CPacket :=
  if p.readPos + size ≥ p.bufferSize then
    ((p.bufferSize - p.readPos).toInt32, { p with readPos := p.bufferSize })
  else (size.toInt32, { p with readPos := p.readPos + size })

/-- An `int retval` as the `size_t` count of a `memcpy_s`: its sign is extended. -/
def count (retval : UInt32) : Nat :=
  if retval.toNat < 2 ^ 31 then retval.toNat else 2 ^ 64 - 2 ^ 32 + retval.toNat

/-- `GetStructData`: what it returns, the bytes at `dest`, and the packet. -/
def getStructData (p : CPacket) (size : UInt32) : Int32 × List UInt8 × CPacket :=
  if p.writePos - p.readPos < size then
    let retval := p.writePos - p.readPos
    (retval.toInt32, block p.buffer p.readPos.toNat (count retval),
      { p with readPos := p.writePos })
  else
    (size.toInt32, block p.buffer p.readPos.toNat size.toNat,
      { p with readPos := p.readPos + size })

/-- A call on a packet; with `operator<<` comes what `malloc` would leave in a new block. -/
inductive Op where
  | insert (value : Value) (mem : Nat → UInt8)
  | extract (target : Value)
  | moveInsideStructData (src : Nat → UInt8) (size : UInt32)
  | getStructData (size : UInt32)
  | moveWritePos (size : UInt32)
  | moveReadPos (size : UInt32)
  | clearPacket

/-- The packet after a call. -/
def apply (p : CPacket) : Op → CPacket
  | .insert value mem => p.insertValue value mem
  | .extract target => (p.extractValue target).2
  | .moveInsideStructData src size => (p.moveInsideStructData src size).2
  | .getStructData size => (p.getStructData size).2.2
  | .moveWritePos size => (p.moveWritePos size).2
  | .moveReadPos size => (p.moveReadPos size).2
  | .clearPacket => p.clearPacket

/-- What a call touches of the packet's blocks. -/
def accesses (p : CPacket) : Op → List Access
  | .insert value mem => p.insertAccesses value.width mem
  | .extract target =>
    if p.readPos.toNat + target.width > p.writePos.toNat then []
    else [⟨p.readPos.toNat, target.width, p.allocated⟩]
  | .moveInsideStructData _ size =>
    if p.bufferSize - p.writePos < size then
      [⟨p.writePos.toNat, count (p.bufferSize - p.writePos), p.allocated⟩]
    else [⟨p.writePos.toNat, size.toNat, p.allocated⟩]
  | .getStructData size =>
    if p.writePos - p.readPos < size then
      [⟨p.readPos.toNat, count (p.writePos - p.readPos), p.allocated⟩]
    else [⟨p.readPos.toNat, size.toNat, p.allocated⟩]
  | .moveWritePos _ | .moveReadPos _ | .clearPacket => []

/-- The call would reach `Resize` on a packet that has been grown. -/
def ResizesAgain (p : CPacket) : Op → Prop
  | .insert value _ =>
    p.isExpand = true ∧ p.writePos.toNat + value.width ≥ p.bufferSize.toNat
  | _ => False

/-- A call that does not reach a second `Resize`. -/
def Step (p : CPacket) (op : Op) (q : CPacket) : Prop := ¬ p.ResizesAgain op ∧ q = p.apply op

structure Good (p : CPacket) : Prop where
  valid : p.Valid
  used : 0 ≤ p.usedSize

/-- The call stays inside the blocks of the packet and leaves it good. -/
structure Safe (p : CPacket) (op : Op) : Prop where
  inside : ∀ a ∈ p.accesses op, a.InBounds
  good : (p.apply op).Good

/-- The condition on the packet before a call: a value written over the end fits into twice the
size; `MoveWritePos` does not wrap below the read cursor; `MoveReadPos` stops at the write cursor
or is stopped there by the end of the buffer; nothing makes `2 ^ 31` bytes unread or copies as many
by a number that is an `int`. -/
def Fits (p : CPacket) : Op → Prop
  | .insert value _ =>
    (p.writePos.toNat + value.width ≥ p.bufferSize.toNat →
      p.writePos.toNat + value.width ≤ (p.bufferSize * 2).toNat) ∧
    p.getUsedSize + value.width < 2 ^ 31
  | .moveInsideStructData _ size =>
    (size.toNat ≤ p.room ∨ p.room < 2 ^ 31) ∧ p.getUsedSize + min size.toNat p.room < 2 ^ 31
  | .moveWritePos size =>
    p.readPos ≤ p.writePos + size ∧
      ((p.writePos + size).toNat < p.readPos.toNat + 2 ^ 31 ∨
        p.bufferSize.toNat < p.readPos.toNat + 2 ^ 31)
  | .moveReadPos size =>
    (p.readPos + size ≤ p.writePos ∨ p.writePos = p.bufferSize) ∧
      p.writePos.toNat < (p.readPos + size).toNat + 2 ^ 31
  | .extract _ | .getStructData _ | .clearPacket => True

/-! ## Good packets -/

variable {p : CPacket}

theorem usedSize_nonneg (p : CPacket) : 0 ≤ p.usedSize ↔ p.getUsedSize < 2 ^ 31 := by
  have value : p.usedSize.toInt = if 2 * p.getUsedSize < 2 ^ 32 then (p.getUsedSize : Int)
      else (p.getUsedSize : Int) - (2 ^ 32 : Nat) :=
    BitVec.toInt_eq_toNat_cond _
  have small : p.getUsedSize < 2 ^ 32 := UInt32.toNat_lt _
  rw [Int32.le_iff_toInt_le, value, Int32.toInt_zero]
  split <;> omega

/-- Good, in numbers. -/
theorem good_iff (p : CPacket) : p.Good ↔ p.readPos.toNat ≤ p.writePos.toNat ∧
    p.writePos.toNat ≤ p.bufferSize.toNat ∧ p.writePos.toNat < p.readPos.toNat + 2 ^ 31 := by
  constructor
  · intro h
    have read := UInt32.le_iff_toNat_le.mp h.valid.read_le
    have used := (usedSize_nonneg p).mp h.used
    rw [getUsedSize_eq h.valid] at used
    exact ⟨read, UInt32.le_iff_toNat_le.mp h.valid.write_le, by omega⟩
  · rintro ⟨read, write, used⟩
    have valid : p.Valid := ⟨UInt32.le_iff_toNat_le.mpr read, UInt32.le_iff_toNat_le.mpr write⟩
    refine ⟨valid, (usedSize_nonneg p).mpr ?_⟩
    rw [getUsedSize_eq valid]
    omega

theorem create_good (mem : Nat → UInt8) (bufferSize : UInt32) : (create mem bufferSize).Good := by
  rw [good_iff]
  simp [create]

theorem bufferSize_le_allocated (p : CPacket) : p.bufferSize.toNat ≤ p.allocated :=
  Nat.le_add_right _ _

theorem count_of_lt {retval : UInt32} (h : retval.toNat < 2 ^ 31) : count retval = retval.toNat :=
  if_pos h

/-- A count whose sign was extended is larger than any block. -/
theorem count_of_ge {retval : UInt32} (h : ¬ retval.toNat < 2 ^ 31) : 2 ^ 33 < count retval := by
  rw [count, if_neg h]
  omega

theorem allocated_le (p : CPacket) : p.allocated ≤ 2 ^ 32 := by
  have := p.bufferSize.toNat_lt
  rw [allocated]
  split <;> omega

/-! ## One call -/

/-- `MoveReadPos` stops at the end of the buffer. -/
theorem apply_moveReadPos (p : CPacket) (size : UInt32) :
    ∃ readPos, p.apply (.moveReadPos size) = { p with readPos := readPos } ∧
      readPos.toNat = min (p.readPos + size).toNat p.bufferSize.toNat := by
  simp only [apply, moveReadPos]
  split
  · rename_i past
    exact ⟨_, rfl, (min_eq_right (UInt32.le_iff_toNat_le.mp past)).symm⟩
  · rename_i within
    have := mt UInt32.le_iff_toNat_le.mpr within
    exact ⟨_, rfl, by omega⟩

/-- So does `MoveWritePos`. -/
theorem apply_moveWritePos (p : CPacket) (size : UInt32) :
    ∃ writePos, p.apply (.moveWritePos size) = { p with writePos := writePos } ∧
      writePos.toNat = min (p.writePos + size).toNat p.bufferSize.toNat := by
  simp only [apply, moveWritePos]
  split
  · rename_i past
    exact ⟨_, rfl, (min_eq_right (UInt32.le_iff_toNat_le.mp past)).symm⟩
  · rename_i within
    have := mt UInt32.le_iff_toNat_le.mpr within
    exact ⟨_, rfl, by omega⟩

/-- For a call that touches no buffer. -/
theorem safe_iff_good {op : Op} (h : p.accesses op = []) : p.Safe op ↔ (p.apply op).Good :=
  ⟨Safe.good, fun good => ⟨by simp [h], good⟩⟩

theorem safe_moveReadPos_iff (h : p.Good) (size : UInt32) :
    p.Safe (.moveReadPos size) ↔ p.Fits (.moveReadPos size) := by
  obtain ⟨read, write, used⟩ := (good_iff p).mp h
  obtain ⟨readPos, moved, stop⟩ := p.apply_moveReadPos size
  rw [safe_iff_good rfl, moved, good_iff]
  simp only [Fits, UInt32.le_iff_toNat_le, ← UInt32.toNat_inj]
  omega

theorem safe_moveWritePos_iff (h : p.Good) (size : UInt32) :
    p.Safe (.moveWritePos size) ↔ p.Fits (.moveWritePos size) := by
  obtain ⟨read, write, used⟩ := (good_iff p).mp h
  obtain ⟨writePos, moved, stop⟩ := p.apply_moveWritePos size
  rw [safe_iff_good rfl, moved, good_iff]
  simp only [Fits, UInt32.le_iff_toNat_le]
  omega

theorem safe_clearPacket (p : CPacket) : p.Safe .clearPacket := by
  rw [safe_iff_good rfl, good_iff]
  simp [apply, clearPacket]

theorem safe_getStructData (h : p.Good) (size : UInt32) : p.Safe (.getStructData size) := by
  obtain ⟨read, write, used⟩ := (good_iff p).mp h
  have unread : (p.writePos - p.readPos).toNat = p.writePos.toNat - p.readPos.toNat :=
    getUsedSize_eq h.valid
  have block := p.bufferSize_le_allocated
  by_cases short : p.writePos - p.readPos < size
  · have counted : count (p.writePos - p.readPos) = p.writePos.toNat - p.readPos.toNat := by
      rw [count_of_lt (by omega), unread]
    constructor
    · simp only [accesses, if_pos short, List.mem_singleton, forall_eq, Access.InBounds]
      omega
    · rw [good_iff]
      simp only [apply, getStructData, if_pos short]
      omega
  · have enough := mt UInt32.lt_iff_toNat_lt.mpr short
    have last := p.writePos.toNat_lt
    have advanced : (p.readPos + size).toNat = p.readPos.toNat + size.toNat := by
      rw [UInt32.toNat_add, Nat.mod_eq_of_lt (by omega)]
    constructor
    · simp only [accesses, if_neg short, List.mem_singleton, forall_eq, Access.InBounds]
      omega
    · rw [good_iff]
      simp only [apply, getStructData, if_neg short]
      omega

theorem safe_extract (h : p.Good) (target : Value) : p.Safe (.extract target) := by
  obtain ⟨read, write, used⟩ := (good_iff p).mp h
  have block := p.bufferSize_le_allocated
  by_cases short : p.readPos.toNat + target.width > p.writePos.toNat
  · constructor
    · simp [accesses, short]
    · rw [good_iff]
      simp only [apply, extractValue, extract, if_pos short]
      omega
  · have last := p.writePos.toNat_lt
    have advanced : (p.readPos + UInt32.ofNat target.width).toNat
        = p.readPos.toNat + target.width := by
      rw [UInt32.toNat_add, UInt32.toNat_ofNat', Nat.mod_eq_of_lt (by omega),
        Nat.mod_eq_of_lt (by omega)]
    constructor
    · simp only [accesses, if_neg short, List.mem_singleton, forall_eq, Access.InBounds]
      omega
    · rw [good_iff]
      simp only [apply, extractValue, extract, if_neg short]
      omega

theorem safe_moveInsideStructData_iff (h : p.Good) (src : Nat → UInt8) (size : UInt32) :
    p.Safe (.moveInsideStructData src size) ↔ p.Fits (.moveInsideStructData src size) := by
  obtain ⟨read, write, used⟩ := (good_iff p).mp h
  have block := p.bufferSize_le_allocated
  have limit := p.allocated_le
  have behind : (p.bufferSize - p.writePos).toNat = p.bufferSize.toNat - p.writePos.toNat :=
    toNat_room h.valid
  simp only [Fits, getUsedSize_eq h.valid, room]
  by_cases short : p.bufferSize - p.writePos < size
  · have less := UInt32.lt_iff_toNat_lt.mp short
    have good : (p.apply (.moveInsideStructData src size)).Good ↔
        p.bufferSize.toNat < p.readPos.toNat + 2 ^ 31 := by
      rw [good_iff]
      simp only [apply, moveInsideStructData, if_pos short]
      omega
    have inside : (∀ a ∈ p.accesses (.moveInsideStructData src size), a.InBounds) ↔
        p.writePos.toNat + count (p.bufferSize - p.writePos) ≤ p.allocated := by
      simp only [accesses, if_pos short, List.mem_singleton, forall_eq, Access.InBounds]
    by_cases small : (p.bufferSize - p.writePos).toNat < 2 ^ 31
    · have counted := count_of_lt small
      constructor
      · intro safe
        have := good.mp safe.good
        omega
      · intro fits
        exact ⟨inside.mpr (by omega), good.mpr (by omega)⟩
    · have counted := count_of_ge small
      constructor
      · intro safe
        have := inside.mp safe.inside
        omega
      · intro fits
        omega
  · have enough := mt UInt32.lt_iff_toNat_lt.mpr short
    have last := p.bufferSize.toNat_lt
    have advanced : (p.writePos + size).toNat = p.writePos.toNat + size.toNat := by
      rw [UInt32.toNat_add, Nat.mod_eq_of_lt (by omega)]
    have good : (p.apply (.moveInsideStructData src size)).Good ↔
        p.writePos.toNat + size.toNat < p.readPos.toNat + 2 ^ 31 := by
      rw [good_iff]
      simp only [apply, moveInsideStructData, if_neg short]
      omega
    have inside : ∀ a ∈ p.accesses (.moveInsideStructData src size), a.InBounds := by
      simp only [accesses, if_neg short, List.mem_singleton, forall_eq, Access.InBounds]
      omega
    constructor
    · intro safe
      have := good.mp safe.good
      omega
    · intro fits
      exact ⟨inside, good.mpr (by omega)⟩

/-- A store of `width` bytes into a block that is `bufferSize`, or one more, bytes long. -/
theorem good_put {width value : Nat} (hw : width ≤ 8) (read : p.readPos.toNat ≤ p.writePos.toNat)
    (inside : p.writePos.toNat + width ≤ p.bufferSize.toNat + 1)
    (noWrap : p.writePos.toNat + width < 2 ^ 32) :
    (p.put width value).Good ↔ p.writePos.toNat + width ≤ p.bufferSize.toNat ∧
      p.writePos.toNat + width < p.readPos.toNat + 2 ^ 31 := by
  have last := p.bufferSize.toNat_lt
  have small : (UInt32.ofNat width).toNat = width := by
    rw [UInt32.toNat_ofNat', Nat.mod_eq_of_lt (by omega)]
  rw [good_iff]
  simp only [put, UInt32.toNat_add, small]
  omega

/-- What the first `Resize` does to the cursors and the block. -/
theorem resize_of_fresh (mem : Nat → UInt8) (fresh : p.isExpand = false) :
    ∃ q, p.resize mem = (true, q) ∧ q.readPos = p.readPos ∧ q.writePos = p.writePos ∧
      q.bufferSize = p.bufferSize * 2 ∧ q.allocated = (p.bufferSize * 2).toNat + 1 := by
  rw [resize, if_neg (by simp [fresh])]
  exact ⟨_, rfl, rfl, rfl, rfl, rfl⟩

theorem copyAccesses_inside (p q : CPacket) : ∀ a ∈ p.copyAccesses q, a.InBounds := by
  have source := p.bufferSize_le_allocated
  have target := q.bufferSize_le_allocated
  rw [copyAccesses]
  split
  · simpa [Access.InBounds] using target
  · simp only [List.mem_cons, List.not_mem_nil, or_false, forall_eq_or_imp, forall_eq,
      Access.InBounds]
    omega

theorem safe_insert_iff (h : p.Good) (value : Value) (mem : Nat → UInt8)
    (once : ¬ p.ResizesAgain (.insert value mem)) :
    p.Safe (.insert value mem) ↔ p.Fits (.insert value mem) := by
  obtain ⟨read, write, used⟩ := (good_iff p).mp h
  have hw := value.width_le
  have last := p.bufferSize.toNat_lt
  have block := p.bufferSize_le_allocated
  simp only [Fits, getUsedSize_eq h.valid]
  by_cases full : p.writePos.toNat + value.width ≥ p.bufferSize.toNat
  · have fresh : p.isExpand = false := by
      simpa [ResizesAgain, full] using once
    obtain ⟨q, resized, hread, hwrite, hsize, hblock⟩ := p.resize_of_fresh mem fresh
    have inside : (∀ a ∈ p.accesses (.insert value mem), a.InBounds) ↔
        p.writePos.toNat + value.width ≤ (p.bufferSize * 2).toNat + 1 := by
      have copied := p.copyAccesses_inside q
      rw [accesses, insertAccesses, if_pos full, resized]
      simp only [List.mem_append, or_imp, forall_and, List.mem_singleton, forall_eq, hwrite, hblock]
      exact and_iff_right copied
    have doubled : (p.bufferSize * 2).toNat = p.bufferSize.toNat * 2 % 2 ^ 32 := UInt32.toNat_mul _ _
    have moved : p.apply (.insert value mem) = q.put value.width value.bits := by
      rw [apply, insertValue, insert, if_pos full, resized]
    have good := @good_put q value.width value.bits hw
    rw [← moved, hread, hwrite, hsize] at good
    constructor
    · intro safe
      have within := inside.mp safe.inside
      have := (good read within (by omega)).mp safe.good
      omega
    · intro fits
      have within := fits.1 full
      exact ⟨inside.mpr (by omega), (good read (by omega) (by omega)).mpr ⟨within, by omega⟩⟩
  · have inside : ∀ a ∈ p.accesses (.insert value mem), a.InBounds := by
      simp only [accesses, insertAccesses, if_neg full, List.mem_singleton, forall_eq,
        Access.InBounds]
      omega
    have moved : p.apply (.insert value mem) = p.put value.width value.bits := by
      rw [apply, insertValue, insert, if_neg full]
    have good := @good_put p value.width value.bits hw read (by omega) (by omega)
    rw [← moved] at good
    constructor
    · intro safe
      have := good.mp safe.good
      omega
    · intro fits
      exact ⟨inside, good.mpr (by omega)⟩

/-- **On a good packet a call is safe exactly when it fits.** -/
theorem safe_iff_fits {q : CPacket} {op : Op} (h : p.Good) (hs : Step p op q) :
    p.Safe op ↔ p.Fits op := by
  cases op with
  | insert value mem => exact safe_insert_iff h value mem hs.1
  | extract target => exact iff_of_true (safe_extract h target) trivial
  | moveInsideStructData src size => exact safe_moveInsideStructData_iff h src size
  | getStructData size => exact iff_of_true (safe_getStructData h size) trivial
  | moveWritePos size => exact safe_moveWritePos_iff h size
  | moveReadPos size => exact safe_moveReadPos_iff h size
  | clearPacket => exact iff_of_true p.safe_clearPacket trivial

/-! ## Sequences of calls -/

/-- **A sequence of calls that does not reach a second `Resize` keeps the cursors ordered, the used
size not negative and every access inside the buffer, throughout, if and only if each call fits.** -/
theorem run_safe_iff (mem : Nat → UInt8) (bufferSize : UInt32) (ops : List Op) (p : CPacket) :
    ((create mem bufferSize).Good ∧ Run Step Safe (create mem bufferSize) ops p) ↔
      Run Step Fits (create mem bufferSize) ops p := by
  have first := create_good mem bufferSize
  rw [and_iff_right first]
  apply run_congr_of_invariant (I := Good) first
  · intro p op q good hs
    exact safe_iff_fits good hs
  · intro p op q _ safe hs
    rw [hs.2]
    exact safe.good

/-- `MoveReadPos` on an empty default packet: the read cursor passes the write cursor, the used size
is `-1399`, and the `GetStructData` after it reads behind the block. -/
theorem moveReadPos_passes :
    ∃ p, Run Step anyStep (create (fun _ => 0) 1400) [.moveReadPos 1399] p ∧
      p.writePos < p.readPos ∧ p.usedSize = -1399 ∧
      ∃ a ∈ p.accesses (.getStructData 4), ¬ a.InBounds := by
  have step : Step (create (fun _ => 0) 1400) (.moveReadPos 1399)
      { create (fun _ => 0) 1400 with readPos := 1399 } := ⟨not_false, rfl⟩
  refine ⟨_, .cons step trivial .nil, by decide, by decide, ?_⟩
  exact ⟨⟨1399, 4, 1400⟩, List.mem_singleton.mpr rfl, by decide⟩

end CPacket

end IocpServer
