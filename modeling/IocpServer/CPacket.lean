import IocpServer.Lib.Window

/-!
# The serialisation buffer `CPacket`

Model of `BufferClass.h`.  The cursors, the size and the reference count are `unsigned int`
and wrap modulo `2 ^ 32`, so they are `UInt32` here.  `buffer` is the `malloc`ed block; its
first contents are arbitrary.

* `payload` — the bytes between the read and the write cursor.
* `moveInsideStructData_of_fits`, `payload_appended` — a raw append that fits returns its
  size and appends exactly the source bytes.
* `moveInsideStructData_short` — one that does not fit returns a smaller number.
* `extract_of_short` — an extraction from too few bytes leaves its target alone.
-/

set_option autoImplicit false

namespace IocpServer

open Lib

structure CPacket where
  buffer : Nat → UInt8
  readPos : UInt32
  writePos : UInt32
  bufferSize : UInt32
  referenceCount : UInt32
  isExpand : Bool
  errorFlag : Bool

namespace CPacket

/-- `CPacket()`: 1400 bytes, one reference; `mem` is what `malloc` left in the block. -/
def new (mem : Nat → UInt8) : CPacket := ⟨mem, 0, 0, 1400, 1, false, false⟩

/-- `ClearPacket`. -/
def clearPacket (p : CPacket) : CPacket := { p with readPos := 0, writePos := 0 }

/-- `GetUsedSize`. -/
def getUsedSize (p : CPacket) : Nat := (p.writePos - p.readPos).toNat

/-- `MoveInsideStructData`: the return value and the packet. -/
def moveInsideStructData (p : CPacket) (src : Nat → UInt8) (size : UInt32) : Nat × CPacket :=
  if p.bufferSize - p.writePos < size then
    let retval := (p.bufferSize - p.writePos).toNat
    (retval, { p with
      buffer := store p.buffer p.writePos.toNat (block src 0 retval)
      writePos := p.bufferSize })
  else
    (size.toNat, { p with
      buffer := store p.buffer p.writePos.toNat (block src 0 size.toNat)
      writePos := p.writePos + size })

/-- A default packet into which `bytes` have been copied. -/
def ofBytes (bytes : List UInt8) : CPacket :=
  ((new fun _ => 0).moveInsideStructData (fun i => bytes.getD i 0) (UInt32.ofNat bytes.length)).2

/-- The little-endian value of a byte sequence. -/
def littleEndian : List UInt8 → Nat
  | [] => 0
  | b :: bs => b.toNat + 256 * littleEndian bs

/-- `operator>>` for a value of `width = sizeof(value)` bytes (a 64-bit `size_t`, so the
comparison does not wrap).  Too few bytes: `errorFlag` is raised and the target keeps the
value it had. -/
def extract (width : Nat) (p : CPacket) (target : Nat) : Nat × CPacket :=
  if p.readPos.toNat + width > p.writePos.toNat then (target, { p with errorFlag := true })
  else (littleEndian (block p.buffer p.readPos.toNat width),
    { p with readPos := p.readPos + UInt32.ofNat width })

/-- `operator>>(unsigned char&)`. -/
def extractUInt8 (p : CPacket) (value : UInt8) : UInt8 × CPacket :=
  let (v, p) := extract 1 p value.toNat
  (UInt8.ofNat v, p)

/-- `operator>>(unsigned short&)`. -/
def extractUInt16 (p : CPacket) (value : UInt16) : UInt16 × CPacket :=
  let (v, p) := extract 2 p value.toNat
  (UInt16.ofNat v, p)

/-- `operator>>(unsigned long&)` (`DWORD`). -/
def extractUInt32 (p : CPacket) (value : UInt32) : UInt32 × CPacket :=
  let (v, p) := extract 4 p value.toNat
  (UInt32.ofNat v, p)

/-! ## Lemmas -/

/-- The unread bytes of the packet. -/
def payload (p : CPacket) : List UInt8 := block p.buffer p.readPos.toNat p.getUsedSize

/-- The cursors are ordered and inside the allocation. -/
structure Valid (p : CPacket) : Prop where
  read_le : p.readPos ≤ p.writePos
  write_le : p.writePos ≤ p.bufferSize

theorem new_valid (mem : Nat → UInt8) : (new mem).Valid :=
  ⟨by simp [new], by simp [new, UInt32.le_iff_toNat_le]⟩

@[simp] theorem payload_new (mem : Nat → UInt8) : (new mem).payload = [] := by
  simp [payload, getUsedSize, new]

variable {p : CPacket}

theorem getUsedSize_eq (h : p.Valid) : p.getUsedSize = p.writePos.toNat - p.readPos.toNat := by
  unfold getUsedSize
  rw [UInt32.toNat_sub_of_le _ _ h.read_le]

/-- The room left behind the write cursor. -/
def room (p : CPacket) : Nat := p.bufferSize.toNat - p.writePos.toNat

theorem toNat_room (h : p.Valid) : (p.bufferSize - p.writePos).toNat = p.room :=
  UInt32.toNat_sub_of_le _ _ h.write_le

theorem room_new (mem : Nat → UInt8) : (new mem).room = 1400 := rfl

/-- What a raw append that fits leaves behind. -/
def appended (p : CPacket) (src : Nat → UInt8) (size : UInt32) : CPacket :=
  { p with
    buffer := store p.buffer p.writePos.toNat (block src 0 size.toNat)
    writePos := p.writePos + size }

theorem moveInsideStructData_of_fits (h : p.Valid) (src : Nat → UInt8) {size : UInt32}
    (hs : size.toNat ≤ p.room) :
    p.moveInsideStructData src size = (size.toNat, p.appended src size) := by
  unfold moveInsideStructData
  rw [if_neg]
  · rfl
  · rw [UInt32.lt_iff_toNat_lt, toNat_room h]; omega

theorem moveInsideStructData_short (h : p.Valid) (src : Nat → UInt8) {size : UInt32}
    (hs : p.room < size.toNat) : (p.moveInsideStructData src size).1 = p.room := by
  unfold moveInsideStructData
  rw [if_pos]
  · exact toNat_room h
  · rw [UInt32.lt_iff_toNat_lt, toNat_room h]; exact hs

theorem toNat_writePos_appended (h : p.Valid) (src : Nat → UInt8) {size : UInt32}
    (hs : size.toNat ≤ p.room) :
    (p.appended src size).writePos.toNat = p.writePos.toNat + size.toNat := by
  have hb := p.bufferSize.toNat_lt
  have hw := UInt32.le_iff_toNat_le.mp h.write_le
  unfold room at hs
  show (p.writePos + size).toNat = _
  rw [UInt32.toNat_add, Nat.mod_eq_of_lt (by omega)]

theorem appended_valid (h : p.Valid) (src : Nat → UInt8) {size : UInt32}
    (hs : size.toNat ≤ p.room) : (p.appended src size).Valid := by
  have ht := toNat_writePos_appended h src hs
  have hr := UInt32.le_iff_toNat_le.mp h.read_le
  have hw := UInt32.le_iff_toNat_le.mp h.write_le
  unfold room at hs
  constructor <;> rw [UInt32.le_iff_toNat_le, ht]
  · show p.readPos.toNat ≤ _; omega
  · show _ ≤ p.bufferSize.toNat; omega

theorem room_appended (h : p.Valid) (src : Nat → UInt8) {size : UInt32}
    (hs : size.toNat ≤ p.room) : (p.appended src size).room = p.room - size.toNat := by
  have ht := toNat_writePos_appended h src hs
  unfold room at *
  rw [ht]
  show p.bufferSize.toNat - _ = _
  omega

/-- **A raw append that fits appends exactly its source bytes.** -/
theorem payload_appended (h : p.Valid) (src : Nat → UInt8) {size : UInt32}
    (hs : size.toNat ≤ p.room) :
    (p.appended src size).payload = p.payload ++ block src 0 size.toNat := by
  have ht := toNat_writePos_appended h src hs
  have hr := UInt32.le_iff_toNat_le.mp h.read_le
  have hlen : (block src 0 size.toNat).length = size.toNat := length_block _ _ _
  have hu : (p.appended src size).getUsedSize = p.getUsedSize + size.toNat := by
    rw [getUsedSize_eq (appended_valid h src hs), ht, getUsedSize_eq h]
    show _ - p.readPos.toNat = _
    omega
  have hpos : p.readPos.toNat + p.getUsedSize = p.writePos.toNat := by
    rw [getUsedSize_eq h]; omega
  rw [payload, hu]
  show block (store p.buffer p.writePos.toNat (block src 0 size.toNat)) p.readPos.toNat _ = _
  rw [block_add, hpos, block_store_before _ _ (by omega), payload]
  congr 1
  have hs := block_store p.buffer p.writePos.toNat (block src 0 size.toNat)
  rwa [hlen] at hs

/-- Whether it fits or is cut off. -/
theorem moveInsideStructData_valid (h : p.Valid) (src : Nat → UInt8) (size : UInt32) :
    (p.moveInsideStructData src size).2.Valid := by
  by_cases hs : size.toNat ≤ p.room
  · rw [moveInsideStructData_of_fits h src hs]
    exact appended_valid h src hs
  · have short : p.bufferSize - p.writePos < size := by
      rw [UInt32.lt_iff_toNat_lt, toNat_room h]
      omega
    rw [moveInsideStructData, if_pos short]
    exact ⟨UInt32.le_trans h.read_le h.write_le, UInt32.le_refl _⟩

/-- Underflow of `operator>>`. -/
theorem extract_of_short {width : Nat} (target : Nat)
    (h : p.readPos.toNat + width > p.writePos.toNat) :
    extract width p target = (target, { p with errorFlag := true }) := if_pos h

end CPacket

end IocpServer
