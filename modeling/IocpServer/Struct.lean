import IocpServer.CPacket

/-!
# Identifiers and packet headers

Model of the parts of `Struct.h` and `PacketDefine.h` shared by the network and the logic
layer: the packed session id, the player id, the three-byte packet header and what a worker
hands to the logic thread.
-/

set_option autoImplicit false

namespace IocpServer

/-- `SESSIONID`: a 16-bit slot index and a 48-bit unique id in one word.  Two ids have the same
`originValue` exactly when both parts agree. -/
structure SessionId where
  index : Nat
  uniqueId : Nat
  deriving DecidableEq, Repr

/-- Storing into the bit fields truncates. -/
def SessionId.pack (index uniqueId : Nat) : SessionId := ⟨index % 2 ^ 16, uniqueId % 2 ^ 48⟩

/-- `PLAYERID`. -/
structure PlayerId where
  index : Nat
  characterId : UInt32
  deriving DecidableEq, Repr

/-- `IncomingPacketInfo`. -/
structure IncomingPacketInfo where
  playerId : PlayerId
  packetBuffer : CPacket
  packetType : UInt8

/-- The code byte of every packet. -/
def packetCode : UInt8 := 0x89

/-- `sizeof(PacketHeaderInfo)`: `byCode`, `bySize`, `byType`, packed. -/
def headerSize : Nat := 3

end IocpServer
