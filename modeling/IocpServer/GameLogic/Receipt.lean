import IocpServer.Framing
import IocpServer.GameLogic.Dispatch
import IocpServer.PacketStream

/-!
# From a client to the handlers

A client sends messages one behind the other, each with its header and in the layout of
`PacketDefine.h`.  The bytes arrive in completions that are cut anywhere; `OnMessage` takes packets
off the ring and hands them over, and `ProcessPackets` calls a handler by the packet's type, which
reads the fields with `operator>>` into variables that hold anything.

* `CsMessage` — what a client sends; `bytes` is how.
* `handled_valid` — every packet handed over has its cursors in order.
* `readBy_of_payload` — the fields are read from their bytes.
* `run_received` — **as long as completions find their frames flush, the packets handed over are the
  complete messages, in order, and each handler reads the fields of its message.**
-/

set_option autoImplicit false

namespace IocpServer

open Lib CPacket

namespace GameLogic

/-- A message of a client. -/
inductive CsMessage where
  | moveStart (move : CSMoveInfo)
  | moveStop (move : CSMoveInfo)
  | attack (kind : AttackType) (move : CSMoveInfo)
  | echo (time : UInt32)

def CSMoveInfo.fields (move : CSMoveInfo) : List Value :=
  [.uchar move.direction, .ushort move.x, .ushort move.y]

namespace CsMessage

def packetType : CsMessage → UInt8
  | moveStart _ => dfPacketCsMoveStart
  | moveStop _ => dfPacketCsMoveStop
  | attack kind _ => kind.packetType
  | echo _ => dfPacketCsEcho

/-- The documented fields. -/
def fields : CsMessage → List Value
  | moveStart move | moveStop move | attack _ move => move.fields
  | echo time => [.ulong time]

theorem length_fields (message : CsMessage) :
    (encode message.fields).length = (UInt8.ofNat (totalWidth message.fields)).toNat := by
  cases message <;> exact length_encode _

def frame (message : CsMessage) : Frame where
  bySize := .ofNat (totalWidth message.fields)
  byType := message.packetType
  payload := encode message.fields
  size_eq := message.length_fields

end CsMessage

/-- A header and its payload. -/
def frameBytes (f : Frame) : List UInt8 := packetCode :: f.bySize :: f.byType :: f.payload

/-- The bytes of a message. -/
def CsMessage.bytes (message : CsMessage) : List UInt8 := frameBytes message.frame

/-- The handler `ProcessPackets` calls for a message. -/
def CsMessage.handler (g : Grid) (w : World) (p : Nat) :
    CsMessage → CPacket → Locals → Except Fault World
  | moveStart _ => packetProcMoveStart g w p
  | moveStop _ => packetProcMoveStop g w p
  | attack kind _ => packetProcAttack kind g w p
  | echo _ => packetProcEcho w p

/-- What the handler reads are the message's fields. -/
def CsMessage.ReadBy (packetBuffer : CPacket) (locals : Locals) : CsMessage → Prop
  | moveStart move | moveStop move | attack _ move => readMove packetBuffer locals = move
  | echo time => (packetBuffer.extractUInt32 locals.time).1 = time

/-- A packet that carries a message. -/
structure Carries (ipi : IncomingPacketInfo) (message : CsMessage) : Prop where
  dispatched : ∀ g w p locals, dispatch g w p ipi.packetType ipi.packetBuffer locals =
    message.handler g w p ipi.packetBuffer locals
  read : ∀ locals, message.ReadBy ipi.packetBuffer locals

/-! ## Reading the fields -/

variable {p : CPacket} {message : CsMessage} {locals : Locals}

theorem extractUInt8_of_payload {value : UInt8} {rest : List UInt8} (h : p.Valid)
    (next : p.payload = toBytes 1 value.toNat ++ rest) (target : UInt8) :
    ∃ p', p.extractUInt8 target = (value, p') ∧ p'.Valid ∧ p'.payload = rest := by
  obtain ⟨p', read, valid, payload, -⟩ := extract_of_payload h (by decide) next target.toNat
  refine ⟨p', ?_, valid, payload⟩
  rw [extractUInt8, read, littleEndian_toBytes,
    Nat.mod_eq_of_lt (show value.toNat < 256 ^ 1 from value.toNat_lt)]
  simp only [UInt8.ofNat_toNat]

theorem extractUInt16_of_payload {value : UInt16} {rest : List UInt8} (h : p.Valid)
    (next : p.payload = toBytes 2 value.toNat ++ rest) (target : UInt16) :
    ∃ p', p.extractUInt16 target = (value, p') ∧ p'.Valid ∧ p'.payload = rest := by
  obtain ⟨p', read, valid, payload, -⟩ := extract_of_payload h (by decide) next target.toNat
  refine ⟨p', ?_, valid, payload⟩
  rw [extractUInt16, read, littleEndian_toBytes,
    Nat.mod_eq_of_lt (show value.toNat < 256 ^ 2 from value.toNat_lt)]
  simp only [UInt16.ofNat_toNat]

theorem extractUInt32_of_payload {value : UInt32} {rest : List UInt8} (h : p.Valid)
    (next : p.payload = toBytes 4 value.toNat ++ rest) (target : UInt32) :
    ∃ p', p.extractUInt32 target = (value, p') ∧ p'.Valid ∧ p'.payload = rest := by
  obtain ⟨p', read, valid, payload, -⟩ := extract_of_payload h (by decide) next target.toNat
  refine ⟨p', ?_, valid, payload⟩
  rw [extractUInt32, read, littleEndian_toBytes,
    Nat.mod_eq_of_lt (show value.toNat < 256 ^ 4 from value.toNat_lt)]
  simp only [UInt32.ofNat_toNat]

theorem readMove_of_payload {move : CSMoveInfo} (h : p.Valid)
    (payload : p.payload = encode move.fields) : readMove p locals = move := by
  have next : p.payload = toBytes 1 move.direction.toNat ++ (toBytes 2 move.x.toNat ++
      (toBytes 2 move.y.toNat ++ [])) := payload
  obtain ⟨p₁, direction, valid₁, next₁⟩ := extractUInt8_of_payload h next locals.direction
  obtain ⟨p₂, x, valid₂, next₂⟩ := extractUInt16_of_payload valid₁ next₁ locals.x
  obtain ⟨p₃, y, -, -⟩ := extractUInt16_of_payload valid₂ next₂ locals.y
  simp only [readMove, direction, x, y]

/-- **The fields are read from their bytes, whatever the variables held.** -/
theorem readBy_of_payload (h : p.Valid) (payload : p.payload = encode message.fields) :
    message.ReadBy p locals := by
  cases message with
  | moveStart move | moveStop move | attack _ move => exact readMove_of_payload h payload
  | echo time =>
    obtain ⟨p', read, -, -⟩ := extractUInt32_of_payload h
      (show p.payload = toBytes 4 time.toNat ++ [] from payload) locals.time
    simp only [CsMessage.ReadBy, read]

theorem dispatch_handler (g : Grid) (w : World) (i : Nat) (message : CsMessage) :
    dispatch g w i message.packetType p locals = message.handler g w i p locals := by
  cases message with
  | moveStart move => rfl
  | moveStop move => rfl
  | attack kind move => cases kind <;> rfl
  | echo time => rfl

/-! ## What is handed over -/

/-- Every packet handed over has its cursors in order. -/
def AllValid (pushed : List IncomingPacketInfo) : Prop := ∀ ipi ∈ pushed, ipi.packetBuffer.Valid

theorem takePayload_valid {mem : Nat → UInt8} {r r' : RingBuffer} {bySize : Nat}
    (h : takePayload mem r bySize = .ok (r', p)) : p.Valid := by
  have fresh := new_valid mem
  unfold takePayload at h
  dsimp only at h
  split at h
  · split at h
    · cases h
    · cases h
      exact moveInsideStructData_valid fresh _ _
  · cases h
    exact moveInsideStructData_valid (moveInsideStructData_valid fresh _ _) _ _

theorem onMessageStep_valid {mem : Nat → UInt8} {playerId : PlayerId} {r r' : RingBuffer}
    {ipi : IncomingPacketInfo} (h : onMessageStep mem playerId r = .ok (some (r', ipi))) :
    ipi.packetBuffer.Valid := by
  unfold onMessageStep at h
  split at h
  · cases h
  · split at h
    · split at h
      · cases h
      · split at h
        · cases h
        · dsimp only at h
          split at h
          · cases h
          · split at h
            · cases h
            · rename_i htake
              cases h
              exact takePayload_valid htake
    · cases h

variable {env : RecvEnv} {s t : RecvState}

theorem onMessageLoop_valid (fuel : Nat) (hs : AllValid s.pushed)
    (h : onMessageLoop env fuel s = .ok t) : AllValid t.pushed := by
  induction fuel generalizing s with
  | zero => cases h
  | succ fuel ih =>
    simp only [onMessageLoop] at h
    split at h
    · cases h
    · cases h
      exact hs
    · rename_i r ipi hstep
      refine ih (fun other hother => ?_) h
      rcases List.mem_append.1 hother with old | new
      · exact hs other old
      · rw [List.mem_singleton] at new
        exact new ▸ onMessageStep_valid hstep

/-- **Every packet handed over has its cursors in order**, after every completion. -/
theorem handled_valid {chunks : List (List UInt8)} (hs : AllValid s.pushed)
    (h : runFn (receive env) s chunks = .ok t) : AllValid t.pushed := by
  induction chunks generalizing s with
  | nil =>
    cases h
    exact hs
  | cons chunk chunks ih =>
    simp only [runFn] at h
    split at h
    · cases h
    · rename_i u hu
      refine ih ?_ h
      unfold receive at hu
      split at hu
      · cases hu
      · exact onMessageLoop_valid
          (s := { s with recvRingBuffer := s.recvRingBuffer.received chunk }) _ hs hu

/-- Completions that find their frames flush keep packets and ring together with the parse. -/
theorem run_agrees {mem : Nat → UInt8} {chunks : List (List UInt8)}
    (posted : Posted env (RecvState.init mem) chunks) (flush : CompletionsFlush chunks) :
    ∃ t, runFn (receive env) (RecvState.init mem) chunks = .ok t ∧ Agrees t chunks.flatten := by
  induction chunks using List.reverseRecOn with
  | nil => exact ⟨_, rfl, Agrees.init mem⟩
  | append_singleton chunks chunk ih =>
    obtain ⟨s, hs, A⟩ := ih (fun pre c h => posted pre c (h.trans (List.prefix_append _ _)))
      fun pre c h => flush pre c (h.trans (List.prefix_append _ _))
    have I := runFn_recvInv (RecvInv.init mem) hs
    rw [Nat.zero_add] at I
    obtain ⟨t, ht, A'⟩ := (receive_agrees_iff I A (posted _ _ (List.prefix_refl _) s hs)).mpr
      (flush _ _ (List.prefix_refl _))
    refine ⟨t, ?_, ?_⟩
    · rw [runFn_snoc, hs]
      exact ht
    · rw [List.flatten_concat]
      exact A'

/-! ## Messages -/

theorem peel_frameBytes (f : Frame) (ys : List UInt8) :
    framePeeler.peel (frameBytes f ++ ys) = some (f, ys) :=
  peelFrame_append f ys

theorem flatMap_bytes (messages : List CsMessage) :
    messages.flatMap CsMessage.bytes = (messages.map CsMessage.frame).flatMap frameBytes := by
  rw [List.flatMap_map]
  rfl

/-- A well-formed packet with a message's type and payload carries it. -/
theorem carries_of_pair {ipi : IncomingPacketInfo} (h : ipi.packetBuffer.Valid)
    (pair : (ipi.packetType, ipi.packetBuffer.payload) = message.frame.pair) :
    Carries ipi message := by
  obtain ⟨type, payload⟩ := Prod.mk.inj pair
  refine ⟨fun g w i locals => ?_, fun locals => readBy_of_payload h payload⟩
  rw [type]
  exact dispatch_handler g w i message

theorem carries_of_pairs {pushed : List IncomingPacketInfo} {messages : List CsMessage}
    (h : AllValid pushed)
    (pairs : pushed.map (fun ipi => (ipi.packetType, ipi.packetBuffer.payload)) =
      messages.map fun message => message.frame.pair) :
    List.Forall₂ Carries pushed messages := by
  induction pushed generalizing messages with
  | nil =>
    cases messages with
    | nil => exact .nil
    | cons => cases pairs
  | cons ipi pushed ih =>
    cases messages with
    | nil => cases pairs
    | cons message messages =>
      obtain ⟨first, rest⟩ := List.cons.inj pairs
      exact .cons (carries_of_pair (h ipi List.mem_cons_self) first)
        (ih (fun other hother => h other (List.mem_cons_of_mem _ hother)) rest)

/-- The packets handed over are the first messages; the ring holds the beginning of the next. -/
theorem frames_of_agrees {messages : List CsMessage} {bytes : List UInt8} (A : Agrees s bytes)
    (sent : bytes <+: messages.flatMap CsMessage.bytes) :
    pushedFrames s = (messages.take s.pushed.length).map (fun message => message.frame.pair) ∧
      bytes = (messages.take s.pushed.length).flatMap CsMessage.bytes ++
        s.recvRingBuffer.contents ∧
      ∀ next, messages[s.pushed.length]? = some next →
        s.recvRingBuffer.contents.length < next.bytes.length := by
  rw [flatMap_bytes] at sent
  obtain ⟨frames, split, rest⟩ := framePeeler.parse_encoded peel_frameBytes sent
  obtain ⟨complete, first, hframes⟩ := List.prefix_map_iff.1 frames
  have pairs : pushedFrames s = complete.map fun message => message.frame.pair := by
    rw [A.frames, greedy, hframes, List.map_map]
    rfl
  have count : s.pushed.length = complete.length := by
    simpa only [pushedFrames, List.length_map] using congrArg List.length pairs
  rw [count, ← List.prefix_iff_eq_take.1 first, A.rest]
  refine ⟨pairs, ?_, fun next hnext => rest next.frame ?_⟩
  · rw [flatMap_bytes, ← hframes]
    exact split
  · rw [hframes, List.length_map, List.getElem?_map, hnext]
    rfl

/-- **From a client to the handlers.**  However the stream of a client's messages is cut into
completions that fit the posted space and find their frames flush, the packets handed over are the
complete messages, each once and in order: each goes to its own handler, which reads its fields
whatever the variables held; the ring holds the beginning of the next message. -/
theorem run_received (env : RecvEnv) (mem : Nat → UInt8) {messages : List CsMessage}
    {chunks : List (List UInt8)} (sent : chunks.flatten <+: messages.flatMap CsMessage.bytes)
    (posted : Posted env (RecvState.init mem) chunks) (flush : CompletionsFlush chunks) :
    ∃ t complete, runFn (receive env) (RecvState.init mem) chunks = .ok t ∧
      complete <+: messages ∧ List.Forall₂ Carries t.pushed complete ∧
      chunks.flatten = complete.flatMap CsMessage.bytes ++ t.recvRingBuffer.contents ∧
      ∀ next, messages[complete.length]? = some next →
        t.recvRingBuffer.contents.length < next.bytes.length := by
  obtain ⟨t, ht, A⟩ := run_agrees posted flush
  have valid : AllValid t.pushed := handled_valid (s := RecvState.init mem) nofun ht
  obtain ⟨pairs, split, rest⟩ := frames_of_agrees A sent
  have carried : List.Forall₂ Carries t.pushed (messages.take t.pushed.length) :=
    carries_of_pairs valid pairs
  exact ⟨t, _, ht, List.take_prefix _ _, carried, split, carried.length_eq ▸ rest⟩

theorem completionsFlush_snoc {chunks : List (List UInt8)} {chunk : List UInt8}
    (before : CompletionsFlush chunks) (last : CompletionFlush chunks.flatten chunk) :
    CompletionsFlush (chunks ++ [chunk]) := by
  intro pre c hpre
  rcases List.prefix_concat_iff.mp hpre with heq | hold
  · obtain ⟨rfl, hc⟩ := List.append_inj' heq rfl
    obtain rfl : c = chunk := by simpa using hc
    exact last
  · exact before pre c hold

theorem completionsFlush_nil : CompletionsFlush [] := by
  intro pre chunk h
  cases pre <;> cases List.prefix_nil.mp h

/-- A move in one completion, the first byte of an echo in the next. -/
theorem run_received_move :
    ∃ t complete, runFn (receive ⟨fun _ _ => 0, fun _ => ⟨0, 0⟩⟩) (RecvState.init fun _ => 0)
        [[0x89, 5, 10, 4, 100, 0, 100, 0], [0x89]] = .ok t ∧
      complete <+: [.moveStart ⟨4, 100, 100⟩, .echo 7] ∧
      List.Forall₂ Carries t.pushed complete ∧
      [[0x89, 5, 10, 4, 100, 0, 100, 0], [0x89]].flatten =
        complete.flatMap CsMessage.bytes ++ t.recvRingBuffer.contents ∧
      ∀ next, [CsMessage.moveStart ⟨4, 100, 100⟩, .echo 7][complete.length]? = some next →
        t.recvRingBuffer.contents.length < next.bytes.length := by
  have sent : [[0x89, 5, 10, 4, 100, 0, 100, 0], [0x89]].flatten <+:
      [CsMessage.moveStart ⟨4, 100, 100⟩, .echo 7].flatMap CsMessage.bytes :=
    ⟨[4, 252, 7, 0, 0, 0], by decide⟩
  have move : greedy [0x89, 5, 10, 4, 100, 0, 100, 0] =
      ([⟨5, 10, [4, 100, 0, 100, 0], rfl⟩], []) := by
    rw [greedy_some (show peelFrame [0x89, 5, 10, 4, 100, 0, 100, 0] =
      some (⟨5, 10, [4, 100, 0, 100, 0], rfl⟩, []) from rfl), greedy_none rfl]
  have whole : CompletionFlush [] [0x89, 5, 10, 4, 100, 0, 100, 0] := by
    rw [CompletionFlush, greedy_none rfl, List.nil_append, move]
    decide
  have first : CompletionFlush [0x89, 5, 10, 4, 100, 0, 100, 0] [0x89] := by
    rw [CompletionFlush, move, List.nil_append, greedy_none rfl]
    trivial
  exact run_received _ _ sent (posted_of_short (by decide))
    (completionsFlush_snoc (completionsFlush_snoc completionsFlush_nil whole) first)

end GameLogic

end IocpServer
