import IocpServer.CPacket

/-!
# Values in a packet: `operator<<` and `operator>>`

Model of the growing half of `BufferClass.h`.  The thirteen overloads of each operator differ in
`sizeof(value)` only, so each is `insert` or `extract` at the width of its type.

`operator<<` calls `Resize` as soon as the value would *reach* the end of the buffer, and `Resize`
doubles it once.

* `Value` — a value of one of the thirteen types, floating-point values by their bits.
* `Access`, `insertAccesses` — the bytes an `operator<<` touches, and the block they belong to.
* `Filling.insert` — **a value below 2800 bytes in all is appended, inside the buffer.**
* `round_trip` — **what is written in order is read in order.**
-/

set_option autoImplicit false

namespace IocpServer

open Lib

namespace CPacket

/-! ## Growing and writing -/

/-- `memcpy_s(dest, destSize, src, count)`; a destination that is too small is cleared. -/
def memcpyS (dest : Nat → UInt8) (destSize : Nat) (src : Nat → UInt8) (count : Nat) : Nat → UInt8 :=
  if destSize < count then store dest 0 (List.replicate destSize 0)
  else store dest 0 (block src 0 count)

/-- `Resize`: what it returns, and the packet.  `mem` is what `malloc` left in the new block. -/
def resize (mem : Nat → UInt8) (p : CPacket) : Bool × CPacket :=
  if p.isExpand then (false, p)
  else (true, { p with
    buffer := memcpyS mem (p.bufferSize * 2).toNat p.buffer p.bufferSize.toNat
    bufferSize := p.bufferSize * 2
    isExpand := true })

/-- The bytes of a value, the lowest first. -/
def toBytes : Nat → Nat → List UInt8
  | 0, _ => []
  | width + 1, value => UInt8.ofNat value :: toBytes width (value / 256)

/-- The store at the write cursor. -/
def put (width value : Nat) (p : CPacket) : CPacket :=
  { p with
    buffer := store p.buffer p.writePos.toNat (toBytes width value)
    writePos := p.writePos + UInt32.ofNat width }

/-- `operator<<` for a value of `width = sizeof(value)` bytes; `sizeof` makes the sum a 64-bit one. -/
def insert (width value : Nat) (mem : Nat → UInt8) (p : CPacket) : CPacket :=
  if p.writePos.toNat + width ≥ p.bufferSize.toNat then
    match p.resize mem with
    | (false, p) => { p with errorFlag := true }
    | (true, p) => p.put width value
  else p.put width value

/-- A value of a type `operator<<` takes. -/
inductive Value where
  | uchar (value : UInt8)
  | char (value : Int8)
  | ushort (value : UInt16)
  | short (value : Int16)
  | uint (value : UInt32)
  | int (value : Int32)
  | uint64 (value : UInt64)
  | int64 (value : Int64)
  | ulong (value : UInt32)
  | long (value : Int32)
  | float (bits : UInt32)
  | double (bits : UInt64)
  | wchar (value : UInt16)
  deriving DecidableEq

namespace Value

/-- `sizeof(value)`. -/
def width : Value → Nat
  | uchar _ | char _ => 1
  | ushort _ | short _ | wchar _ => 2
  | uint _ | int _ | ulong _ | long _ | float _ => 4
  | uint64 _ | int64 _ | double _ => 8

/-- The value as a number of `width` bytes. -/
def bits : Value → Nat
  | uchar value => value.toNat
  | char value => value.toUInt8.toNat
  | ushort value => value.toNat
  | short value => value.toUInt16.toNat
  | uint value => value.toNat
  | int value => value.toUInt32.toNat
  | uint64 value => value.toNat
  | int64 value => value.toUInt64.toNat
  | ulong value => value.toNat
  | long value => value.toUInt32.toNat
  | float bits => bits.toNat
  | double bits => bits.toNat
  | wchar value => value.toNat

/-- The value of the same type with these bits. -/
def withBits (n : Nat) : Value → Value
  | uchar _ => uchar (.ofNat n)
  | char _ => char (UInt8.ofNat n).toInt8
  | ushort _ => ushort (.ofNat n)
  | short _ => short (UInt16.ofNat n).toInt16
  | uint _ => uint (.ofNat n)
  | int _ => int (UInt32.ofNat n).toInt32
  | uint64 _ => uint64 (.ofNat n)
  | int64 _ => int64 (UInt64.ofNat n).toInt64
  | ulong _ => ulong (.ofNat n)
  | long _ => long (UInt32.ofNat n).toInt32
  | float _ => float (.ofNat n)
  | double _ => double (.ofNat n)
  | wchar _ => wchar (.ofNat n)

/-- Two values of one type. -/
def SameType (value target : Value) : Prop := value.withBits 0 = target.withBits 0

end Value

/-- `operator<<`. -/
def insertValue (value : Value) (mem : Nat → UInt8) (p : CPacket) : CPacket :=
  p.insert value.width value.bits mem

/-- `operator>>`, into a variable that held `target`. -/
def extractValue (target : Value) (p : CPacket) : Value × CPacket :=
  let (bits, p) := p.extract target.width target.bits
  (target.withBits bits, p)

/-- `*this << v1 << v2 ...`; with each value comes what `malloc` would leave in a new block. -/
def insertAll (p : CPacket) : List (Value × (Nat → UInt8)) → CPacket
  | [] => p
  | (value, mem) :: values => insertAll (p.insertValue value mem) values

/-- `*this >> v1 >> v2 ...`. -/
def extractAll (p : CPacket) : List Value → List Value × CPacket
  | [] => ([], p)
  | target :: targets =>
    let (value, p) := p.extractValue target
    let (values, p) := extractAll p targets
    (value :: values, p)

/-! ## What is touched -/

/-- `length` bytes at `offset` of a block of `size` bytes are read or written. -/
structure Access where
  offset : Nat
  length : Nat
  size : Nat

def Access.InBounds (a : Access) : Prop := a.offset + a.length ≤ a.size

instance (a : Access) : Decidable a.InBounds := inferInstanceAs (Decidable (_ ≤ _))

/-- How much is allocated: `Resize` asks for one byte more than it says in `bufferSize`. -/
def allocated (p : CPacket) : Nat := p.bufferSize.toNat + if p.isExpand then 1 else 0

/-- The copy in `Resize` from the block of `p` into that of `grown`: the old block is read, the new
one written. -/
def copyAccesses (p grown : CPacket) : List Access :=
  if grown.bufferSize.toNat < p.bufferSize.toNat then
    [⟨0, grown.bufferSize.toNat, grown.allocated⟩]
  else [⟨0, p.bufferSize.toNat, p.allocated⟩, ⟨0, p.bufferSize.toNat, grown.allocated⟩]

/-- What `operator<<` touches. -/
def insertAccesses (width : Nat) (mem : Nat → UInt8) (p : CPacket) : List Access :=
  if p.writePos.toNat + width ≥ p.bufferSize.toNat then
    match p.resize mem with
    | (false, _) => []
    | (true, grown) => p.copyAccesses grown ++ [⟨grown.writePos.toNat, width, grown.allocated⟩]
  else [⟨p.writePos.toNat, width, p.allocated⟩]

/-- What a sequence of `operator<<` touches. -/
def insertAllAccesses (p : CPacket) : List (Value × (Nat → UInt8)) → List Access
  | [] => []
  | (value, mem) :: values =>
    p.insertAccesses value.width mem ++ insertAllAccesses (p.insertValue value mem) values

/-- The bytes a list of values takes. -/
def totalWidth (values : List Value) : Nat := (values.map Value.width).sum

/-! ## Bytes of values -/

variable {p : CPacket} {width value : Nat} {mem : Nat → UInt8} {bytes : List UInt8} {v target : Value}

@[simp] theorem length_toBytes (width value : Nat) : (toBytes width value).length = width := by
  induction width generalizing value with
  | zero => rfl
  | succ width ih => simp [toBytes, ih]

/-- Reading back the bytes of a number. -/
theorem littleEndian_toBytes (width value : Nat) :
    littleEndian (toBytes width value) = value % 256 ^ width := by
  induction width generalizing value with
  | zero => simp [toBytes, littleEndian, Nat.mod_one]
  | succ width ih =>
    have byte : (UInt8.ofNat value).toNat = value % 256 := by simp
    rw [toBytes, littleEndian, ih, byte, Nat.pow_succ', Nat.mod_mul]

theorem Value.bits_lt (v : Value) : v.bits < 256 ^ v.width := by
  cases v with
  | uchar value => exact value.toNat_lt
  | char value => exact value.toUInt8.toNat_lt
  | ushort value => exact value.toNat_lt
  | short value => exact value.toUInt16.toNat_lt
  | uint value => exact value.toNat_lt
  | int value => exact value.toUInt32.toNat_lt
  | uint64 value => exact value.toNat_lt
  | int64 value => exact value.toUInt64.toNat_lt
  | ulong value => exact value.toNat_lt
  | long value => exact value.toUInt32.toNat_lt
  | float bits => exact bits.toNat_lt
  | double bits => exact bits.toNat_lt
  | wchar value => exact value.toNat_lt

theorem Value.withBits_bits (v : Value) : v.withBits v.bits = v := by
  cases v <;> simp [withBits, bits]

theorem Value.width_le (v : Value) : v.width ≤ 8 := by
  cases v <;> simp [width]

theorem Value.SameType.withBits (h : v.SameType target) (n : Nat) :
    target.withBits n = v.withBits n := by
  cases v <;> cases target <;> simp [SameType, Value.withBits] at h ⊢

theorem Value.SameType.width_eq (h : v.SameType target) : target.width = v.width := by
  cases v <;> cases target <;> simp [SameType, Value.withBits, Value.width] at h ⊢

/-- A value is read back from its bytes, into any variable of its type. -/
theorem Value.SameType.withBits_toBytes (h : v.SameType target) :
    target.withBits (littleEndian (toBytes v.width v.bits)) = v := by
  rw [littleEndian_toBytes, Nat.mod_eq_of_lt v.bits_lt, h.withBits, v.withBits_bits]

/-! ## Filling a default packet -/

/-- A packet that has been written to only: `bytes` are in it, all of them unread. -/
structure Filling (bytes : List UInt8) (p : CPacket) : Prop where
  valid : p.Valid
  payload : p.payload = bytes
  unread : p.readPos = 0
  noError : p.errorFlag = false
  size : p.bufferSize = if p.isExpand then 2800 else 1400

theorem Filling.new (mem : Nat → UInt8) : Filling [] (CPacket.new mem) :=
  ⟨new_valid mem, payload_new mem, rfl, rfl, rfl⟩

theorem Filling.writePos (h : Filling bytes p) : p.writePos.toNat = bytes.length := by
  have used : p.payload.length = p.getUsedSize := length_block _ _ _
  have unread : p.readPos.toNat = 0 := by rw [h.unread]; rfl
  rw [← h.payload, used, getUsedSize_eq h.valid, unread, Nat.sub_zero]

theorem Filling.appended (h : Filling bytes p) (src : Nat → UInt8) {size : UInt32}
    (fits : bytes.length + size.toNat ≤ p.bufferSize.toNat) :
    Filling (bytes ++ block src 0 size.toNat) (p.appended src size) := by
  have hroom : size.toNat ≤ p.room := by
    rw [room, h.writePos]; omega
  refine ⟨appended_valid h.valid src hroom, ?_, h.unread, h.noError, h.size⟩
  rw [payload_appended h.valid src hroom, h.payload]

/-- A raw append that fits. -/
theorem Filling.moveInsideStructData (h : Filling bytes p) (src : Nat → UInt8) {size : UInt32}
    (fits : bytes.length + size.toNat ≤ p.bufferSize.toNat) :
    Filling (bytes ++ block src 0 size.toNat) (p.moveInsideStructData src size).2 := by
  have hroom : size.toNat ≤ p.room := by
    rw [room, h.writePos]; omega
  rw [moveInsideStructData_of_fits h.valid src hroom]
  exact h.appended src fits

/-- What `operator<<` stores where there is room for it. -/
theorem Filling.put (h : Filling bytes p) (hw : width < 2 ^ 32)
    (fits : bytes.length + width ≤ p.bufferSize.toNat) :
    Filling (bytes ++ toBytes width value) (p.put width value) := by
  have hsize : (UInt32.ofNat width).toNat = width := by
    rw [UInt32.toNat_ofNat', Nat.mod_eq_of_lt hw]
  have source : block ((toBytes width value).getD · 0) 0 (UInt32.ofNat width).toNat
      = toBytes width value := by
    rw [hsize]
    have stored := block_getD (toBytes width value) 0
    rwa [length_toBytes] at stored
  have same : p.put width value
      = p.appended ((toBytes width value).getD · 0) (UInt32.ofNat width) := by
    rw [CPacket.put, CPacket.appended, source]
  have within : bytes.length + (UInt32.ofNat width).toNat ≤ p.bufferSize.toNat := by
    rw [hsize]
    exact fits
  have filling := h.appended ((toBytes width value).getD · 0) within
  rwa [source, ← same] at filling

theorem memcpyS_of_le {dest src : Nat → UInt8} {destSize count : Nat} (h : count ≤ destSize) :
    memcpyS dest destSize src count = store dest 0 (block src 0 count) := by
  rw [memcpyS, if_neg (by omega)]

/-- The one doubling keeps what has been written. -/
theorem Filling.resize (h : Filling bytes p) (hx : p.isExpand = false) :
    ∃ p', p.resize mem = (true, p') ∧ Filling bytes p' ∧ p'.bufferSize = 2800 := by
  have size : p.bufferSize = 1400 := by simpa [hx] using h.size
  have single : p.bufferSize.toNat = 1400 := by rw [size]; rfl
  have doubled : (p.bufferSize * 2).toNat = 2800 := by rw [size]; rfl
  have written : p.writePos.toNat ≤ 1400 := by
    rw [← single]
    exact UInt32.le_iff_toNat_le.mp h.valid.write_le
  refine ⟨_, by rw [CPacket.resize, if_neg (by simp [hx])], ?_, by simp [size]⟩
  refine ⟨⟨h.valid.read_le, ?_⟩, ?_, h.unread, h.noError, by simp [size]⟩
  · rw [UInt32.le_iff_toNat_le]
    show p.writePos.toNat ≤ (p.bufferSize * 2).toNat
    omega
  · have unread : p.readPos.toNat + p.getUsedSize ≤ p.bufferSize.toNat := by
      have read := UInt32.le_iff_toNat_le.mp h.valid.read_le
      rw [getUsedSize_eq h.valid]
      omega
    rw [← h.payload]
    show block (memcpyS mem (p.bufferSize * 2).toNat p.buffer p.bufferSize.toNat) _ _ = _
    rw [memcpyS_of_le (by omega)]
    exact block_copy mem p.buffer unread

/-- **A value that keeps the total below 2800 bytes is appended.** -/
theorem Filling.insert (h : Filling bytes p) (hw : width ≤ 8)
    (fits : bytes.length + width < 2800) :
    Filling (bytes ++ toBytes width value) (p.insert width value mem) := by
  have written := h.writePos
  rw [CPacket.insert]
  split
  · cases hx : p.isExpand with
    | false =>
      obtain ⟨p', resized, filling, size⟩ := h.resize hx
      have doubled : p'.bufferSize.toNat = 2800 := by rw [size]; rfl
      rw [resized]
      exact filling.put (by omega) (by omega)
    | true =>
      have doubled : p.bufferSize.toNat = 2800 := by rw [h.size, hx]; rfl
      omega
  · exact h.put (by omega) (by omega)

/-- **No byte outside the block is touched meanwhile.** -/
theorem Filling.insertAccesses (h : Filling bytes p)
    (fits : bytes.length + width < 2800) : ∀ a ∈ p.insertAccesses width mem, a.InBounds := by
  have written := h.writePos
  have hsize := h.size
  cases hx : p.isExpand with
  | false =>
    have single : p.bufferSize.toNat = 1400 := by rw [hsize, hx]; rfl
    have doubled : (p.bufferSize * 2).toNat = 2800 := by rw [hsize, hx]; rfl
    intro a ha
    have grown : p.resize mem = (true, { p with
        buffer := memcpyS mem (p.bufferSize * 2).toNat p.buffer p.bufferSize.toNat
        bufferSize := p.bufferSize * 2
        isExpand := true }) := by
      rw [CPacket.resize, hx]
      rfl
    simp only [CPacket.insertAccesses, grown, copyAccesses, allocated, hx] at ha
    split at ha
    · rw [doubled, single] at ha
      simp at ha
      rcases ha with rfl | rfl | rfl <;> simp [Access.InBounds]
      omega
    · simp at ha
      subst ha
      simp only [Access.InBounds]
      omega
  | true =>
    have doubled : p.bufferSize.toNat = 2800 := by rw [hsize, hx]; rfl
    intro a ha
    simp only [CPacket.insertAccesses, allocated, hx] at ha
    rw [if_neg (by omega)] at ha
    simp at ha
    subst ha
    simp only [Access.InBounds]
    omega

/-- The bytes of a list of values. -/
def encode (values : List Value) : List UInt8 := values.flatMap fun v => toBytes v.width v.bits

theorem length_encode (values : List Value) : (encode values).length = totalWidth values := by
  induction values with
  | nil => rfl
  | cons v values ih =>
    simp only [encode, totalWidth] at ih
    simp [encode, totalWidth, ih]

/-- A whole sequence of `operator<<`. -/
theorem Filling.insertAll {p : CPacket} {bytes : List UInt8} (h : Filling bytes p)
    (values : List (Value × (Nat → UInt8)))
    (fits : bytes.length + totalWidth (values.map Prod.fst) < 2800) :
    Filling (bytes ++ encode (values.map Prod.fst)) (p.insertAll values) ∧
      ∀ a ∈ p.insertAllAccesses values, a.InBounds := by
  induction values generalizing p bytes with
  | nil => simpa [encode, CPacket.insertAll, insertAllAccesses] using h
  | cons entry values ih =>
    obtain ⟨v, mem⟩ := entry
    have total : totalWidth (((v, mem) :: values).map Prod.fst)
        = v.width + totalWidth (values.map Prod.fst) := by simp [totalWidth]
    have width := v.width_le
    have step : Filling (bytes ++ toBytes v.width v.bits) (p.insertValue v mem) :=
      h.insert width (by omega)
    obtain ⟨filling, inside⟩ := ih step (by rw [List.length_append, length_toBytes]; omega)
    constructor
    · simpa [encode, CPacket.insertAll, List.append_assoc] using filling
    · intro a ha
      rcases List.mem_append.mp ha with ha | ha
      · exact h.insertAccesses (by omega) a ha
      · exact inside a ha

/-! ## Reading it back -/

/-- `operator>>` where the bytes of the value come next. -/
theorem extract_of_payload {rest : List UInt8} (h : p.Valid) (hw : width ≤ 8)
    (next : p.payload = toBytes width value ++ rest) (target : Nat) :
    ∃ p', p.extract width target = (littleEndian (toBytes width value), p') ∧ p'.Valid ∧
      p'.payload = rest ∧ p'.errorFlag = p.errorFlag := by
  have used : p.payload.length = p.getUsedSize := length_block _ _ _
  have counted : p.getUsedSize = width + rest.length := by
    rw [← used, next, List.length_append, length_toBytes]
  have cursors := getUsedSize_eq h
  have ordered := UInt32.le_iff_toNat_le.mp h.read_le
  have written := p.writePos.toNat_lt
  have advanced : (p.readPos + UInt32.ofNat width).toNat = p.readPos.toNat + width := by
    have small : (UInt32.ofNat width).toNat = width := by
      rw [UInt32.toNat_ofNat', Nat.mod_eq_of_lt (by omega)]
    rw [UInt32.toNat_add, small, Nat.mod_eq_of_lt (by omega)]
  have halves : block p.buffer p.readPos.toNat width = toBytes width value ∧
      block p.buffer (p.readPos.toNat + width) rest.length = rest := by
    rw [payload, counted, block_add] at next
    exact List.append_inj next (by simp)
  refine ⟨{ p with readPos := p.readPos + UInt32.ofNat width }, ?_, ?_, ?_, rfl⟩
  · rw [extract, if_neg (by omega), halves.1]
  · refine ⟨?_, h.write_le⟩
    rw [UInt32.le_iff_toNat_le]
    show (p.readPos + UInt32.ofNat width).toNat ≤ p.writePos.toNat
    omega
  · show block p.buffer (p.readPos + UInt32.ofNat width).toNat
      (p.writePos - (p.readPos + UInt32.ofNat width)).toNat = rest
    have below : p.readPos + UInt32.ofNat width ≤ p.writePos := by
      rw [UInt32.le_iff_toNat_le]; omega
    have left : (p.writePos - (p.readPos + UInt32.ofNat width)).toNat = rest.length := by
      rw [UInt32.toNat_sub_of_le _ _ below]; omega
    rw [left, advanced, halves.2]

/-- A whole sequence of `operator>>`, into variables of the types that were written. -/
theorem extractAll_encode {p : CPacket} {values targets : List Value} {rest : List UInt8}
    (h : p.Valid) (types : List.Forall₂ Value.SameType values targets)
    (next : p.payload = encode values ++ rest) :
    ∃ p', p.extractAll targets = (values, p') ∧ p'.Valid ∧ p'.payload = rest ∧
      p'.errorFlag = p.errorFlag := by
  induction types generalizing p with
  | nil => exact ⟨p, rfl, h, by simpa [encode] using next, rfl⟩
  | @cons v target values targets same types ih =>
    have first : p.payload = toBytes v.width v.bits ++ (encode values ++ rest) := by
      simpa [encode] using next
    obtain ⟨p₁, read, valid, payload, flag⟩ :=
      extract_of_payload h v.width_le first target.bits
    obtain ⟨p₂, readAll, valid', payload', flag'⟩ := ih valid payload
    refine ⟨p₂, ?_, valid', payload', flag'.trans flag⟩
    rw [extractAll, extractValue, same.width_eq, read]
    simp only [readAll, same.withBits_toBytes]

/-- **Round trip: what `operator<<` puts into a default packet, below 2800 bytes, `operator>>` takes
out again.** -/
theorem round_trip (mem : Nat → UInt8) (values : List (Value × (Nat → UInt8)))
    (targets : List Value) (types : List.Forall₂ Value.SameType (values.map Prod.fst) targets)
    (fits : totalWidth (values.map Prod.fst) < 2800) :
    ∃ p, ((new mem).insertAll values).extractAll targets = (values.map Prod.fst, p) ∧
      p.getUsedSize = 0 ∧ p.errorFlag = false ∧
      ∀ a ∈ (new mem).insertAllAccesses values, a.InBounds := by
  obtain ⟨filling, inside⟩ := (Filling.new mem).insertAll values (by simpa using fits)
  have written : ((new mem).insertAll values).payload = encode (values.map Prod.fst) ++ [] := by
    simpa using filling.payload
  obtain ⟨p, read, valid, payload, flag⟩ := extractAll_encode filling.valid types written
  refine ⟨p, read, ?_, flag.trans filling.noError, inside⟩
  have used : p.payload.length = p.getUsedSize := length_block _ _ _
  rw [← used, payload, List.length_nil]

theorem round_trip_growing :
    ∃ p, ((new fun _ => 0).insertAll (List.replicate 200 (.uint64 7, fun _ => 1))).extractAll
        (List.replicate 200 (.uint64 0)) = (List.replicate 200 (.uint64 7), p) ∧
      p.getUsedSize = 0 := by
  obtain ⟨p, read, used, -⟩ := round_trip (fun _ => 0) (List.replicate 200 (.uint64 7, fun _ => 1))
    (List.replicate 200 (.uint64 0))
    (by
      simp only [List.map_replicate, List.forall₂_iff_zip, List.zip_replicate]
      refine ⟨by rw [List.length_replicate, List.length_replicate], fun h => ?_⟩
      obtain ⟨rfl, rfl⟩ := Prod.mk.inj (List.eq_of_mem_replicate h)
      rfl)
    (by simp only [totalWidth, List.map_replicate, List.sum_replicate_nat, Value.width]; omega)
  rw [List.map_replicate] at read
  exact ⟨p, read, used⟩

end CPacket

end IocpServer
