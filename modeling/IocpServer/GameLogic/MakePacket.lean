import IocpServer.PacketStream
import IocpServer.Framing
import IocpServer.GameLogic.World

/-!
# The packets the server sends

Model of the `MakePacket...` functions of `GameLogic.h` and of the layouts of `PacketDefine.h`.

* `ScMessage.make` — the packet built for a message, by its own `MakePacket...` function.
* `layout`, `parseMessage` — the fields documented for a packet type, read from a payload.
* `makePacket_payload` — a header and fields that fit are exactly what the packet holds.
* `messages_round_trip` — **a stream of messages is cut back into the messages.**
-/

set_option autoImplicit false

namespace IocpServer

open Lib CPacket

namespace GameLogic

/-! ## Building -/

/-- `PacketHeaderInfo` with `byCode = 0x89`. -/
def header (bySize byType : UInt8) : List UInt8 := [packetCode, bySize, byType]

/-- The header, then `*packetBuffer << field << field ...`.  `mem` is what `malloc` would leave in
the block of a `Resize`. -/
def makePacket (bySize byType : UInt8) (fields : List Value) (mem : Nat → UInt8) (p : CPacket) :
    CPacket :=
  (p.moveInsideStructData ((header bySize byType).getD · 0) (UInt32.ofNat headerSize)).2.insertAll
    (fields.map (·, mem))

def makePacketCreateMyCharacter (id : UInt32) (direction : UInt8) (x y : UInt16) (hp : UInt8) :
    (Nat → UInt8) → CPacket → CPacket :=
  makePacket 10 0 [.ulong id, .uchar direction, .ushort x, .ushort y, .uchar hp]

def makePacketCreateOtherCharacter (id : UInt32) (direction : UInt8) (x y : UInt16) (hp : UInt8) :
    (Nat → UInt8) → CPacket → CPacket :=
  makePacket 10 1 [.ulong id, .uchar direction, .ushort x, .ushort y, .uchar hp]

def makePacketSCMoveStart (id : UInt32) (direction : UInt8) (x y : UInt16) :
    (Nat → UInt8) → CPacket → CPacket :=
  makePacket 9 11 [.ulong id, .uchar direction, .ushort x, .ushort y]

def makePacketDeleteCharacter (id : UInt32) : (Nat → UInt8) → CPacket → CPacket :=
  makePacket 4 2 [.ulong id]

def makePacketSync (id : UInt32) (x y : UInt16) : (Nat → UInt8) → CPacket → CPacket :=
  makePacket 8 251 [.ulong id, .ushort x, .ushort y]

def makePacketSCMoveStop (id : UInt32) (direction : UInt8) (x y : UInt16) :
    (Nat → UInt8) → CPacket → CPacket :=
  makePacket 9 13 [.ulong id, .uchar direction, .ushort x, .ushort y]

def makePacketSCAttck1 (id : UInt32) (direction : UInt8) (x y : UInt16) :
    (Nat → UInt8) → CPacket → CPacket :=
  makePacket 9 21 [.ulong id, .uchar direction, .ushort x, .ushort y]

def makePacketSCAttck2 (id : UInt32) (direction : UInt8) (x y : UInt16) :
    (Nat → UInt8) → CPacket → CPacket :=
  makePacket 9 23 [.ulong id, .uchar direction, .ushort x, .ushort y]

def makePacketSCAttck3 (id : UInt32) (direction : UInt8) (x y : UInt16) :
    (Nat → UInt8) → CPacket → CPacket :=
  makePacket 9 25 [.ulong id, .uchar direction, .ushort x, .ushort y]

def makePacketSCDamage (attackId damageId : UInt32) (hp : UInt8) :
    (Nat → UInt8) → CPacket → CPacket :=
  makePacket 9 30 [.ulong attackId, .ulong damageId, .uchar hp]

/-- The only one that clears the packet first. -/
def makePacketSCEcho (time : UInt32) (mem : Nat → UInt8) (p : CPacket) : CPacket :=
  makePacket 4 253 [.ulong time] mem p.clearPacket

/-- The `MakePacket...` function of a message. -/
def ScMessage.make : ScMessage → (Nat → UInt8) → CPacket → CPacket
  | createMyCharacter id direction x y hp => makePacketCreateMyCharacter id direction x y hp
  | createOtherCharacter id direction x y hp => makePacketCreateOtherCharacter id direction x y hp
  | deleteCharacter id => makePacketDeleteCharacter id
  | moveStart id direction x y => makePacketSCMoveStart id direction x y
  | moveStop id direction x y => makePacketSCMoveStop id direction x y
  | attack1 id direction x y => makePacketSCAttck1 id direction x y
  | attack2 id direction x y => makePacketSCAttck2 id direction x y
  | attack3 id direction x y => makePacketSCAttck3 id direction x y
  | damage attackId damageId hp => makePacketSCDamage attackId damageId hp
  | sync id x y => makePacketSync id x y
  | echo time => makePacketSCEcho time

/-! ## The documented layouts -/

/-- The widths of the fields of a packet, as `PacketDefine.h` lists them for its type. -/
def layout (byType : UInt8) : Option (List Nat) :=
  match byType.toNat with
  | 0 | 1 => some [4, 1, 2, 2, 1]
  | 2 => some [4]
  | 11 | 13 | 21 | 23 | 25 => some [4, 1, 2, 2]
  | 30 => some [4, 4, 1]
  | 251 => some [4, 2, 2]
  | 253 => some [4]
  | _ => none

/-- Fields of the given widths that take up exactly these bytes. -/
def readFields : List Nat → List UInt8 → Option (List Nat)
  | [], bytes => if bytes = [] then some [] else none
  | width :: widths, bytes =>
    if width ≤ bytes.length then
      (readFields widths (bytes.drop width)).map (littleEndian (bytes.take width) :: ·)
    else none

/-- The message with these fields. -/
def ofFields (byType : UInt8) (fields : List Nat) : Option ScMessage :=
  match byType.toNat, fields with
  | 0, [id, dir, x, y, hp] =>
    some (.createMyCharacter (.ofNat id) (.ofNat dir) (.ofNat x) (.ofNat y) (.ofNat hp))
  | 1, [id, dir, x, y, hp] =>
    some (.createOtherCharacter (.ofNat id) (.ofNat dir) (.ofNat x) (.ofNat y) (.ofNat hp))
  | 2, [id] => some (.deleteCharacter (.ofNat id))
  | 11, [id, dir, x, y] => some (.moveStart (.ofNat id) (.ofNat dir) (.ofNat x) (.ofNat y))
  | 13, [id, dir, x, y] => some (.moveStop (.ofNat id) (.ofNat dir) (.ofNat x) (.ofNat y))
  | 21, [id, dir, x, y] => some (.attack1 (.ofNat id) (.ofNat dir) (.ofNat x) (.ofNat y))
  | 23, [id, dir, x, y] => some (.attack2 (.ofNat id) (.ofNat dir) (.ofNat x) (.ofNat y))
  | 25, [id, dir, x, y] => some (.attack3 (.ofNat id) (.ofNat dir) (.ofNat x) (.ofNat y))
  | 30, [attackId, damageId, hp] =>
    some (.damage (.ofNat attackId) (.ofNat damageId) (.ofNat hp))
  | 251, [id, x, y] => some (.sync (.ofNat id) (.ofNat x) (.ofNat y))
  | 253, [time] => some (.echo (.ofNat time))
  | _, _ => none

/-- Reading a payload by the layout of its type. -/
def parseMessage (byType : UInt8) (payload : List UInt8) : Option ScMessage := do
  let widths ← layout byType
  let fields ← readFields widths payload
  ofFields byType fields

/-! ## Lemmas -/

/-- Fields are read back from their bytes. -/
theorem readFields_encode (fields : List Value) :
    readFields (fields.map Value.width) (encode fields) = some (fields.map Value.bits) := by
  induction fields with
  | nil => rfl
  | cons v fields ih =>
    have split : encode (v :: fields) = toBytes v.width v.bits ++ encode fields := rfl
    have first : (encode (v :: fields)).take v.width = toBytes v.width v.bits := by
      rw [split, List.take_left' (length_toBytes _ _)]
    have others : (encode (v :: fields)).drop v.width = encode fields := by
      rw [split, List.drop_left' (length_toBytes _ _)]
    have long : v.width ≤ (encode (v :: fields)).length := by
      rw [split, List.length_append, length_toBytes]; omega
    rw [List.map_cons, readFields, if_pos long, first, others, ih, littleEndian_toBytes,
      Nat.mod_eq_of_lt v.bits_lt]
    rfl

theorem parseMessage_encode {byType : UInt8} {fields : List Value}
    (documented : layout byType = some (fields.map Value.width)) :
    parseMessage byType (encode fields) = ofFields byType (fields.map Value.bits) := by
  rw [parseMessage, documented]
  simp [readFields_encode]

/-- The packet is filled with the header and the fields. -/
theorem makePacket_filling (bySize byType : UInt8) {fields : List Value} (block mem : Nat → UInt8)
    (fits : totalWidth fields < 2797) :
    Filling (header bySize byType ++ encode fields)
      (makePacket bySize byType fields mem (CPacket.new block)) := by
  have room : ([] : List UInt8).length + (UInt32.ofNat headerSize).toNat
      ≤ (CPacket.new block).bufferSize.toNat := by
    show 3 ≤ 1400
    omega
  have started : Filling (header bySize byType) _ :=
    (Filling.new block).moveInsideStructData ((header bySize byType).getD · 0) room
  have fieldsOnly : (fields.map fun field => (field, mem)).map Prod.fst = fields := by
    simp [Function.comp_def]
  obtain ⟨filled, -⟩ := started.insertAll (fields.map (·, mem)) (by
    have : (header bySize byType).length = 3 := rfl
    rw [fieldsOnly]
    omega)
  rw [fieldsOnly] at filled
  exact filled

/-- **The packet holds the header and the fields, nothing else.** -/
theorem makePacket_payload (bySize byType : UInt8) {fields : List Value} (block mem : Nat → UInt8)
    (fits : totalWidth fields < 2797) :
    (makePacket bySize byType fields mem (CPacket.new block)).payload =
      header bySize byType ++ encode fields :=
  (makePacket_filling bySize byType block mem fits).payload

/-- The frame at the front of a stream that begins with a packet. -/
theorem peelFrame_packet {bySize byType : UInt8} {fields : List Value} (rest : List UInt8)
    (size : totalWidth fields = bySize.toNat) :
    peelFrame (header bySize byType ++ encode fields ++ rest) =
      some (⟨bySize, byType, encode fields, (length_encode fields).trans size⟩, rest) := by
  rw [List.append_assoc]
  exact peelFrame_append ⟨bySize, byType, encode fields, _⟩ rest

/-- What each of the builders does, whichever its message: the size in the header is that of the
fields, and the layout of the type gives the message back. -/
theorem ScMessage.make_eq (message : ScMessage) (block mem : Nat → UInt8) :
    ∃ bySize byType fields,
      message.make mem (CPacket.new block) = makePacket bySize byType fields mem (CPacket.new block) ∧
      totalWidth fields = bySize.toNat ∧ parseMessage byType (encode fields) = some message := by
  cases message <;>
    exact ⟨_, _, _, rfl, rfl, (parseMessage_encode rfl).trans (by simp [ofFields, Value.bits])⟩

/-- The bytes of a list of messages, each built in a packet of its own; with each come what
`malloc` left in its block and what it would leave in a grown one. -/
def stream (messages : List (ScMessage × (Nat → UInt8) × (Nat → UInt8))) : List UInt8 :=
  messages.flatMap fun entry => (entry.1.make entry.2.2 (CPacket.new entry.2.1)).payload

/-- **The byte stream of the messages is cut into one frame for each, none left over, and the
documented layouts give the messages back.** -/
theorem messages_round_trip (messages : List (ScMessage × (Nat → UInt8) × (Nat → UInt8))) :
    ∃ frames, greedy (stream messages) = (frames, []) ∧ frames.length = messages.length ∧
      frames.map (fun f => parseMessage f.byType f.payload) =
        messages.map (fun entry => some entry.1) := by
  induction messages with
  | nil => exact ⟨[], greedy_none rfl, rfl, rfl⟩
  | cons entry messages ih =>
    obtain ⟨message, block, mem⟩ := entry
    obtain ⟨frames, cut, count, parsed⟩ := ih
    obtain ⟨bySize, byType, fields, built, size, read⟩ := message.make_eq block mem
    have small := bySize.toNat_lt
    have first : stream ((message, block, mem) :: messages)
        = header bySize byType ++ encode fields ++ stream messages := by
      rw [← makePacket_payload bySize byType block mem (by omega), ← built]
      rfl
    refine ⟨⟨bySize, byType, encode fields, (length_encode fields).trans size⟩ :: frames, ?_, ?_, ?_⟩
    · rw [first, greedy_some (peelFrame_packet _ size), cut]
    · simp [count]
    · simp [parsed, read]

end GameLogic

end IocpServer
