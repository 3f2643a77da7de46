import IocpServer.RingBuffer
import IocpServer.Struct
import IocpServer.Lib.Peel

/-!
# Receiving: `RecvPost`, `MoveTail`, `OnMessage`

Model of the receive half of `GameServer::WorkerThread` and of `GameServer::OnMessage`.  A
completion of `n` bytes is stored into the two posted buffers, `MoveTail(n)` publishes it and
`OnMessage` takes packets off the ring until there is no complete one.

`onMessageStep` is one pass of the `while (1)` loop; `none` is one of its `break`s.  The loop
itself runs on fuel; by `onMessage_cases` the fuel is never used up.

* `peelFrame` — the wire format: `[0x89, bySize, byType]` and `bySize` payload bytes.
* `onMessageStep_none`, `onMessageStep_some`, `onMessageStep_trap` — what one pass does, in terms
  of the unread bytes and of `reach`, the number of contiguous bytes behind the header.
* `RecvInv` — what every completion keeps.
-/

set_option autoImplicit false

namespace IocpServer

open Lib RingBuffer

/-- The three `__debugbreak` sites of `OnMessage`. -/
inductive DebugBreak where
  | shortPeek
  | shortMoveHead
  | copiedLength
  deriving DecidableEq, Repr

inductive RecvFault where
  | debugBreak (site : DebugBreak)
  | outOfFuel
  /-- More bytes than the posted buffers hold: not something a completion can report. -/
  | notPosted
  deriving DecidableEq, Repr

/-- The payload part of `OnMessage`, behind the header: the contiguous and the wrapped branch.
`mem` is what `malloc` left in the packet's block. -/
def takePayload (mem : Nat → UInt8) (r : RingBuffer) (bySize : Nat) :
    Except DebugBreak (RingBuffer × CPacket) :=
  let packetBuffer := CPacket.new mem
  if r.directDequeueSize ≥ bySize then
    let (retval, packetBuffer) :=
      packetBuffer.moveInsideStructData r.headBuffer (UInt32.ofNat r.directDequeueSize)
    if retval ≠ r.directDequeueSize then .error .copiedLength
    else .ok ((r.moveHead retval).2, packetBuffer)
  else
    let temp := r.directDequeueSize
    let (retval, packetBuffer) :=
      packetBuffer.moveInsideStructData r.headBuffer (UInt32.ofNat temp)
    let r := (r.moveHead retval).2
    let (retval, packetBuffer) :=
      packetBuffer.moveInsideStructData r.headBuffer (UInt32.ofNat (bySize - retval))
    .ok ((r.moveHead retval).2, packetBuffer)

/-- One pass of the loop of `OnMessage`. -/
def onMessageStep (mem : Nat → UInt8) (playerId : PlayerId) (r : RingBuffer) :
    Except DebugBreak (Option (RingBuffer × IncomingPacketInfo)) :=
  if r.getUseSize < headerSize then .ok none
  else
    match r.peek headerSize with
    | [byCode, bySize, byType] =>
      if byCode ≠ packetCode then .ok none
      else if headerSize + bySize.toNat > r.getUseSize then .ok none
      else
        let (recvDequeueRetval, r) := r.moveHead headerSize
        if recvDequeueRetval ≠ headerSize then .error .shortMoveHead
        else
          match takePayload mem r bySize.toNat with
          | .error site => .error site
          | .ok (r, packetBuffer) => .ok (some (r, ⟨playerId, packetBuffer, byType⟩))
    | _ => .error .shortPeek

/-- What the rest of the server contributes to a session's receives, packet by packet: the
contents of the block `malloc` returns and the value of `session->playerId`. -/
structure RecvEnv where
  mem : Nat → Nat → UInt8
  playerId : Nat → PlayerId

/-- The receive side of a session: its ring and the calls of `PushIncomingPacket`, oldest
first. -/
structure RecvState where
  recvRingBuffer : RingBuffer
  pushed : List IncomingPacketInfo

def onMessageLoop (env : RecvEnv) : Nat → RecvState → Except RecvFault RecvState
  | 0, _ => .error .outOfFuel
  | fuel + 1, s =>
    match onMessageStep (env.mem s.pushed.length) (env.playerId s.pushed.length)
        s.recvRingBuffer with
    | .error site => .error (.debugBreak site)
    | .ok none => .ok s
    | .ok (some (r, ipi)) => onMessageLoop env fuel ⟨r, s.pushed ++ [ipi]⟩

/-- `OnMessage`. -/
def onMessage (env : RecvEnv) (s : RecvState) : Except RecvFault RecvState :=
  onMessageLoop env (s.recvRingBuffer.getUseSize + 1) s

/-- A receive completion of `chunk.length` bytes: the posted buffers are filled, `MoveTail`,
`OnMessage`. -/
def receive (env : RecvEnv) (s : RecvState) (chunk : List UInt8) : Except RecvFault RecvState :=
  if chunk.length > s.recvRingBuffer.getFreeSize then .error .notPosted
  else onMessage env { s with recvRingBuffer := s.recvRingBuffer.received chunk }

/-! ## The wire format -/

/-- A complete packet. -/
structure Frame where
  bySize : UInt8
  byType : UInt8
  payload : List UInt8
  size_eq : payload.length = bySize.toNat
  deriving DecidableEq

/-- The frame at the front of a byte stream, if its header is valid and it is complete. -/
def peelFrame : List UInt8 → Option (Frame × List UInt8)
  | byCode :: bySize :: byType :: rest =>
    if h : byCode = packetCode ∧ bySize.toNat ≤ rest.length then
      some (⟨bySize, byType, rest.take bySize.toNat, by simp [h.2]⟩, rest.drop bySize.toNat)
    else none
  | _ => none

theorem peelFrame_some {xs ys : List UInt8} {f : Frame} (h : peelFrame xs = some (f, ys)) :
    xs = packetCode :: f.bySize :: f.byType :: (f.payload ++ ys) := by
  unfold peelFrame at h
  split at h
  · rename_i byCode bySize byType rest
    split at h
    · rename_i hc
      simp only [Option.some.injEq, Prod.mk.injEq] at h
      obtain ⟨rfl, rfl⟩ := h
      simp [hc.1]
    · cases h
  · cases h

theorem peelFrame_append (f : Frame) (ys : List UInt8) :
    peelFrame (packetCode :: f.bySize :: f.byType :: (f.payload ++ ys)) = some (f, ys) := by
  obtain ⟨bySize, byType, payload, hs⟩ := f
  have hle : bySize.toNat ≤ (payload ++ ys).length := by
    rw [List.length_append, hs]; omega
  simp only [peelFrame]
  rw [dif_pos ⟨trivial, hle⟩]
  simp only [← hs, List.take_left', List.drop_left']

/-- Frames are taken off a stream greedily. -/
def framePeeler : Peeler UInt8 Frame where
  peel := peelFrame
  shrinks h := by
    have := congrArg List.length (peelFrame_some h)
    simp only [List.length_cons, List.length_append] at this
    omega
  stable zs h := by
    rw [peelFrame_some h]
    simpa [List.append_assoc] using peelFrame_append _ _

/-- The unread bytes that a complete frame at their front occupies. -/
theorem peelFrame_length {xs ys : List UInt8} {f : Frame} (h : peelFrame xs = some (f, ys)) :
    xs.length = headerSize + f.bySize.toNat + ys.length := by
  have := congrArg List.length (peelFrame_some h)
  simp only [List.length_cons, List.length_append, f.size_eq] at this
  simp only [headerSize]
  omega

/-! ## One pass of the loop -/

variable {mem : Nat → UInt8} {playerId : PlayerId} {r : RingBuffer} {f : Frame} {ys : List UInt8}

/-- The contiguous unread bytes behind a three-byte header at `head`. -/
def reach (r : RingBuffer) : Nat := (r.dropHead headerSize).directDequeueSize

theorem reach_eq (h : r.Valid) (hu : headerSize ≤ r.getUseSize) :
    reach r = min (r.getUseSize - headerSize)
      (r.bufferSize - (r.head + headerSize) % r.bufferSize) := by
  rw [reach, directDequeueSize_eq (dropHead_valid h _), getUseSize_dropHead h hu]
  rfl

/-- No complete frame in front: the loop is left. -/
theorem onMessageStep_none (h : r.Valid) (hp : peelFrame r.contents = none) :
    onMessageStep mem playerId r = .ok none := by
  unfold onMessageStep
  split
  · rfl
  rename_i hu
  rw [peek_eq h, ← length_contents] at *
  match hc : r.contents with
  | [] | [_] | [_, _] => rw [hc] at hu; simp [headerSize] at hu
  | byCode :: bySize :: byType :: rest =>
    rw [hc] at hp
    simp only [peelFrame, dite_eq_right_iff, reduceCtorEq, imp_false, not_and] at hp
    simp only [headerSize, List.take_succ_cons, List.take_zero, List.length_cons]
    split
    · rfl
    · rename_i hcode
      have := hp (by simpa using hcode)
      have hshort : 3 + bySize.toNat > rest.length + 1 + 1 + 1 := by omega
      simp only [hshort, if_true]

/-- A complete frame in front: the header is consumed and the payload taken. -/
theorem onMessageStep_frame (h : r.Valid) (hp : peelFrame r.contents = some (f, ys)) :
    onMessageStep mem playerId r =
      match takePayload mem (r.dropHead headerSize) f.bySize.toNat with
      | .error site => .error site
      | .ok (r, packetBuffer) => .ok (some (r, ⟨playerId, packetBuffer, f.byType⟩)) := by
  have hlen := peelFrame_length hp
  rw [length_contents] at hlen
  unfold onMessageStep
  rw [if_neg (by omega), peek_eq h, peelFrame_some hp, moveHead_eq (by omega)]
  simp only [headerSize, List.take_succ_cons, List.take_zero, ne_eq, not_true_eq_false, if_false]
  rw [if_neg (by simp only [headerSize] at hlen; omega)]

/-- What the contiguous branch copies. -/
theorem takePayload_direct (h : r.Valid) {bySize : Nat} (hd : bySize ≤ r.directDequeueSize)
    (hc : r.directDequeueSize ≤ 1400) :
    ∃ packetBuffer, takePayload mem r bySize = .ok (r.dropHead r.directDequeueSize, packetBuffer) ∧
      packetBuffer.payload = r.contents.take r.directDequeueSize := by
  have hu : r.directDequeueSize ≤ r.getUseSize := by rw [directDequeueSize_eq h]; omega
  have hn : (UInt32.ofNat r.directDequeueSize).toNat = r.directDequeueSize :=
    UInt32.toNat_ofNat_of_lt' (by simp only [UInt32.size]; omega)
  have hroom : (UInt32.ofNat r.directDequeueSize).toNat ≤ (CPacket.new mem).room := by
    rw [hn]; exact hc
  have hv := CPacket.new_valid mem
  refine ⟨(CPacket.new mem).appended r.headBuffer (UInt32.ofNat r.directDequeueSize), ?_, ?_⟩
  · unfold takePayload
    simp only
    rw [if_pos hd, CPacket.moveInsideStructData_of_fits hv _ hroom, hn, if_neg (by simp),
      moveHead_eq hu]
  · rw [CPacket.payload_appended hv _ hroom, hn, CPacket.payload_new, List.nil_append,
      block_headBuffer h (Nat.le_refl _)]

/-- More contiguous bytes than a default packet holds: the copied length differs. -/
theorem takePayload_trap (h : r.Valid) {bySize : Nat} (hd : bySize ≤ r.directDequeueSize)
    (hc : 1400 < r.directDequeueSize) : takePayload mem r bySize = .error .copiedLength := by
  have hlt : r.directDequeueSize < 2 ^ 31 := by
    have := getUseSize_lt h; have := h.size_lt
    rw [directDequeueSize_eq h]; omega
  have hn : (UInt32.ofNat r.directDequeueSize).toNat = r.directDequeueSize :=
    UInt32.toNat_ofNat_of_lt' (by simp only [UInt32.size]; omega)
  have hroom : (CPacket.new mem).room < (UInt32.ofNat r.directDequeueSize).toNat := by
    rw [hn]; exact hc
  have hs := CPacket.moveInsideStructData_short (CPacket.new_valid mem) r.headBuffer hroom
  unfold takePayload
  simp only
  rw [if_pos hd, if_pos]
  rw [hs, CPacket.room_new]; omega

/-- The wrapped branch copies exactly the payload. -/
theorem takePayload_wrapped (h : r.Valid) {bySize : Nat} (hu : bySize ≤ r.getUseSize)
    (hb : bySize < 256) (hd : r.directDequeueSize < bySize) :
    ∃ packetBuffer, takePayload mem r bySize = .ok (r.dropHead bySize, packetBuffer) ∧
      packetBuffer.payload = r.contents.take bySize := by
  have hde := directDequeueSize_eq h
  have hlt := getUseSize_lt h
  have hhd := h.head_lt
  generalize hD : r.directDequeueSize = d at *
  have hn : (UInt32.ofNat d).toNat = d := UInt32.toNat_ofNat_of_lt' (by simp only [UInt32.size]; omega)
  have hm : (UInt32.ofNat (bySize - d)).toNat = bySize - d :=
    UInt32.toNat_ofNat_of_lt' (by simp only [UInt32.size]; omega)
  have hv := CPacket.new_valid mem
  have hroom : (UInt32.ofNat d).toNat ≤ (CPacket.new mem).room := by
    rw [hn, CPacket.room_new]; omega
  -- behind the first piece the head is back at index 0
  have hv1 := dropHead_valid h d
  have hhead : (r.dropHead d).head = 0 := by
    show (r.head + d) % r.bufferSize = 0
    rw [show r.head + d = r.bufferSize by omega, Nat.mod_self]
  have hmove : r.moveHead d = (d, r.dropHead d) := moveHead_eq (by omega)
  have hu1 : (r.dropHead d).getUseSize = r.getUseSize - d := getUseSize_dropHead h (by omega)
  have hd1 : bySize - d ≤ (r.dropHead d).directDequeueSize := by
    rw [directDequeueSize_eq hv1, hhead, hu1]
    show _ ≤ min _ (r.bufferSize - 0)
    omega
  let first := (CPacket.new mem).appended r.headBuffer (UInt32.ofNat d)
  have hvf : first.Valid := CPacket.appended_valid hv _ hroom
  have hroom1 : (UInt32.ofNat (bySize - d)).toNat ≤ first.room := by
    rw [CPacket.room_appended hv _ hroom, hm, hn, CPacket.room_new]; omega
  refine ⟨first.appended (r.dropHead d).headBuffer (UInt32.ofNat (bySize - d)), ?_, ?_⟩
  · unfold takePayload
    simp only
    rw [if_neg (by omega), hD, CPacket.moveInsideStructData_of_fits hv _ hroom, hn]
    dsimp only
    rw [hmove]
    dsimp only
    rw [CPacket.moveInsideStructData_of_fits hvf _ hroom1, hm]
    dsimp only
    rw [moveHead_eq (by omega), dropHead_dropHead, show d + (bySize - d) = bySize by omega]
  · rw [CPacket.payload_appended hvf _ hroom1, CPacket.payload_appended hv _ hroom, hn, hm,
      CPacket.payload_new, List.nil_append, block_headBuffer h (by omega),
      block_headBuffer hv1 hd1, contents_dropHead h (by omega)]
    rw [← List.take_add, show d + (bySize - d) = bySize by omega]

/-- **One pass on a complete frame** whose contiguous bytes fit a default packet.  All of them
go into the packet, not only the `bySize` bytes of the payload. -/
theorem onMessageStep_some (h : r.Valid) (hp : peelFrame r.contents = some (f, ys))
    (hc : reach r ≤ 1400) :
    ∃ packetBuffer, onMessageStep mem playerId r =
        .ok (some (r.dropHead (headerSize + max (reach r) f.bySize.toNat),
          ⟨playerId, packetBuffer, f.byType⟩)) ∧
      packetBuffer.payload =
        (r.contents.drop headerSize).take (max (reach r) f.bySize.toNat) := by
  have hlen := peelFrame_length hp
  rw [length_contents] at hlen
  have hv := dropHead_valid h headerSize
  have hcon : (r.dropHead headerSize).contents = r.contents.drop headerSize :=
    contents_dropHead h (by omega)
  have hu := getUseSize_dropHead h (show headerSize ≤ r.getUseSize by omega)
  have hb := f.bySize.toNat_lt
  rw [onMessageStep_frame h hp]
  by_cases hd : f.bySize.toNat ≤ reach r
  · obtain ⟨pk, htake, hpay⟩ := takePayload_direct hv hd hc
    refine ⟨pk, ?_, ?_⟩
    · rw [htake, dropHead_dropHead, Nat.max_eq_left hd]; rfl
    · rw [hpay, hcon, Nat.max_eq_left hd]; rfl
  · obtain ⟨pk, htake, hpay⟩ :=
      takePayload_wrapped hv (show f.bySize.toNat ≤ _ by omega) (by omega) (Nat.lt_of_not_le hd)
    refine ⟨pk, ?_, ?_⟩
    · rw [htake, dropHead_dropHead, Nat.max_eq_right (by omega)]
    · rw [hpay, hcon, Nat.max_eq_right (by omega)]

/-- **One pass that traps**: more contiguous bytes than a default packet holds. -/
theorem onMessageStep_trap (h : r.Valid) (hp : peelFrame r.contents = some (f, ys))
    (hc : 1400 < reach r) : onMessageStep mem playerId r = .error .copiedLength := by
  have hb := f.bySize.toNat_lt
  rw [onMessageStep_frame h hp,
    takePayload_trap (dropHead_valid h _) (show _ ≤ reach r by omega) hc]

/-- The unread bytes after a pass. -/
theorem consumed_le (h : r.Valid) (hp : peelFrame r.contents = some (f, ys)) :
    headerSize + max (reach r) f.bySize.toNat ≤ r.getUseSize := by
  have hlen := peelFrame_length hp
  rw [length_contents] at hlen
  rw [reach_eq h (by omega)]
  omega

/-! ## The loop -/

variable {env : RecvEnv} {s t : RecvState}

theorem onMessageLoop_done {fuel : Nat} (h : s.recvRingBuffer.Valid)
    (hp : peelFrame s.recvRingBuffer.contents = none) :
    onMessageLoop env (fuel + 1) s = .ok s := by
  rw [onMessageLoop, onMessageStep_none h hp]

theorem onMessageLoop_pass {fuel : Nat} {ipi : IncomingPacketInfo}
    (h : onMessageStep (env.mem s.pushed.length) (env.playerId s.pushed.length) s.recvRingBuffer =
      .ok (some (r, ipi))) :
    onMessageLoop env (fuel + 1) s = onMessageLoop env fuel ⟨r, s.pushed ++ [ipi]⟩ := by
  rw [onMessageLoop, h]

theorem onMessageLoop_trap {fuel : Nat} {site : DebugBreak}
    (h : onMessageStep (env.mem s.pushed.length) (env.playerId s.pushed.length) s.recvRingBuffer =
      .error site) :
    onMessageLoop env (fuel + 1) s = .error (.debugBreak site) := by
  rw [onMessageLoop, h]

/-- **The loop only moves the head and only appends packets, and it never runs out of fuel.** -/
theorem onMessageLoop_cases :
    ∀ (fuel : Nat) (s : RecvState), s.recvRingBuffer.Valid →
      s.recvRingBuffer.getUseSize < fuel →
      onMessageLoop env fuel s = .error (.debugBreak .copiedLength) ∨
      ∃ size more, size ≤ s.recvRingBuffer.getUseSize ∧ onMessageLoop env fuel s =
        .ok ⟨s.recvRingBuffer.dropHead size, s.pushed ++ more⟩
  | 0, _, _, hf => absurd hf (Nat.not_lt_zero _)
  | fuel + 1, s, h, hf => by
    cases hp : peelFrame s.recvRingBuffer.contents with
    | none =>
      rw [onMessageLoop_done h hp]
      refine Or.inr ⟨0, [], Nat.zero_le _, ?_⟩
      simp [dropHead, Nat.mod_eq_of_lt h.head_lt]
    | some v =>
      obtain ⟨f, ys⟩ := v
      by_cases hc : reach s.recvRingBuffer ≤ 1400
      · obtain ⟨pk, hstep, _⟩ : ∃ pk, onMessageStep (env.mem s.pushed.length)
            (env.playerId s.pushed.length) s.recvRingBuffer = _ ∧ _ := onMessageStep_some h hp hc
        have hle := consumed_le h hp
        have hpos : 0 < headerSize + max (reach s.recvRingBuffer) f.bySize.toNat := by
          simp only [headerSize]; omega
        generalize headerSize + max (reach s.recvRingBuffer) f.bySize.toNat = n at hstep hle hpos
        have hu := getUseSize_dropHead h hle
        rw [onMessageLoop_pass hstep]
        rcases onMessageLoop_cases fuel ⟨s.recvRingBuffer.dropHead n, s.pushed ++ [⟨_, pk, f.byType⟩]⟩
          (dropHead_valid h n) (show (s.recvRingBuffer.dropHead n).getUseSize < fuel by omega) with
          hbad | ⟨size, more, hsize, hok⟩
        · exact Or.inl hbad
        · refine Or.inr ⟨n + size, ⟨env.playerId s.pushed.length, pk, f.byType⟩ :: more, ?_, ?_⟩
          · dsimp only at hsize; omega
          simp only [hok, dropHead_dropHead, List.append_assoc, List.singleton_append]
      · exact Or.inl (onMessageLoop_trap (onMessageStep_trap h hp (Nat.lt_of_not_le hc)))

theorem onMessage_cases (h : s.recvRingBuffer.Valid) :
    onMessage env s = .error (.debugBreak .copiedLength) ∨
      ∃ size more, size ≤ s.recvRingBuffer.getUseSize ∧ onMessage env s =
        .ok ⟨s.recvRingBuffer.dropHead size, s.pushed ++ more⟩ :=
  onMessageLoop_cases _ s h (Nat.lt_succ_self _)

/-- The session's ring as it is created, before any byte has come. -/
def RecvState.init (mem : Nat → UInt8) : RecvState :=
  ⟨RingBuffer.new szRingBuffer_DEFAULT mem, []⟩

/-- What every receive keeps: the ring is valid and of the default size, `tail` counts the
bytes received so far, and no more than these are unread. -/
structure RecvInv (s : RecvState) (received : Nat) : Prop where
  valid : s.recvRingBuffer.Valid
  size : s.recvRingBuffer.bufferSize = szRingBuffer_DEFAULT
  tail : s.recvRingBuffer.tail = received % szRingBuffer_DEFAULT
  unread_le : s.recvRingBuffer.getUseSize ≤ received

theorem RecvInv.init (mem : Nat → UInt8) : RecvInv (RecvState.init mem) 0 :=
  ⟨new_valid (by decide) (by decide) mem, rfl, rfl, Nat.le_refl 0⟩

theorem RecvInv.receive {n : Nat} (I : RecvInv s n) {chunk : List UInt8}
    (h : IocpServer.receive env s chunk = .ok t) : RecvInv t (n + chunk.length) := by
  unfold IocpServer.receive at h
  split at h
  · cases h
  rename_i hfree
  have hc : chunk.length ≤ s.recvRingBuffer.getFreeSize := by omega
  have hv := received_valid I.valid hc
  rcases @onMessage_cases env ⟨s.recvRingBuffer.received chunk, s.pushed⟩ hv with
    hbad | ⟨size, more, hsize, hok⟩
  · rw [hbad] at h; cases h
  · rw [hok] at h
    cases h
    have heq := received_eq I.valid hc
    have hcontents := congrArg List.length (contents_received I.valid hc)
    refine ⟨dropHead_valid hv _, ?_, ?_, ?_⟩
    · show (s.recvRingBuffer.received chunk).bufferSize = _
      rw [heq]; exact I.size
    · show (s.recvRingBuffer.received chunk).tail = _
      rw [heq]
      show (s.recvRingBuffer.tail + chunk.length) % s.recvRingBuffer.bufferSize = _
      rw [I.tail, I.size, Nat.mod_add_mod]
    · have := I.unread_le
      rw [length_contents, List.length_append, length_contents] at hcontents
      dsimp only at hsize ⊢
      rw [getUseSize_dropHead hv hsize]
      omega

/-- The position of the head, from the bytes received and the bytes still unread. -/
theorem RecvInv.head_eq {n : Nat} (I : RecvInv s n) :
    s.recvRingBuffer.head = (n - s.recvRingBuffer.getUseSize) % szRingBuffer_DEFAULT := by
  have hn := I.unread_le
  have ht := tail_eq I.valid
  have hh := I.valid.head_lt
  rw [I.tail, I.size] at ht
  rw [I.size] at hh
  unfold szRingBuffer_DEFAULT at *
  omega

end IocpServer
