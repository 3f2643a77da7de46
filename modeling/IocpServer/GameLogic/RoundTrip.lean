import IocpServer.GameLogic.Delivery
import IocpServer.GameLogic.PacketOwnership
import IocpServer.GameLogic.Receipt

/-!
# From wire to wire

One session with both its sides: completions fill its ring, `OnMessage` hands its packets over,
`ProcessPackets` takes them in their order between any other calls of the logic thread, and what the
logic thread sends goes through `SendPacket`, the send thread and the send completions.

* `asked` — the times of the `CS_ECHO`s among a client's messages.
* `echoed` — the times of the `SC_ECHO`s a client reads from the bytes it has received.
* `Settled` — nothing of the session is under way.
* `Inv.step` — what each step keeps.
* `run_echoed` — **a client reads the times it has asked with, in their order, each at most once.
  None is missing before one that it reads, and none at all when nothing is under way, unless a
  packet came too early or too late for its player or a message for its session.**
-/

set_option autoImplicit false

namespace IocpServer

open Lib

namespace GameLogic

namespace RoundTrip

/-- The time of a `CS_ECHO`. -/
def asks : CsMessage → Option UInt32
  | .echo time => some time
  | _ => none

/-- The time of an `SC_ECHO`. -/
def echoes : ScMessage → Option UInt32
  | .echo time => some time
  | _ => none

def asked (messages : List CsMessage) : List UInt32 := messages.filterMap asks

def echoed (wire : List UInt8) : List UInt32 :=
  (Delivery.decoded wire).filterMap fun message => message.bind echoes

structure State where
  recv : RecvState
  /-- The bytes received. -/
  bytes : List UInt8
  /-- How many of the session's packets `ProcessPackets` has taken. -/
  processed : Nat
  /-- For how many of them the player was not current. -/
  dropped : Nat
  out : Delivery.State

inductive Action where
  /-- A receive completion. -/
  | receive (chunk : List UInt8)
  /-- `ProcessPackets` takes the next packet of the session. -/
  | processPacket (locals : Locals) (now : Int32)
  /-- Any call of the logic thread for others, and the steps of the outgoing side. -/
  | other (a : Delivery.Action)

variable (g : Grid) (env : RecvEnv) (session : SessionId) (packets : Nat → CPacket)
  (setData : SendPath.Setting) (messages : List CsMessage)

def step (s : State) : Action → Option State
  | .receive chunk =>
    match IocpServer.receive env s.recv chunk with
    | .error _ => none
    | .ok recv => some { s with recv := recv, bytes := s.bytes ++ chunk }
  | .processPacket locals now =>
    match s.recv.pushed[s.processed]? with
    | none => none
    | some ipi =>
      (Delivery.step g session packets setData s.out (.logic (.packet ipi locals now))).map
        fun out => { s with
          processed := s.processed + 1
          dropped := if Current s.out.world ipi.playerId then s.dropped else s.dropped + 1
          out := out }
  | .other a =>
    (Delivery.step g session packets setData s.out a).map fun out => { s with out := out }

def init (mem : Nat → UInt8) (uniqueCharacterId : UInt32) (wsabuf : Nat → SendPath.WsaBuf)
    (ptr : Nat → Nat) : State where
  recv := RecvState.init mem
  bytes := []
  processed := 0
  dropped := 0
  out := Delivery.init uniqueCharacterId wsabuf ptr

/-- Completions bring what the client sends and find their frames flush, sends end at packet
boundaries, and a packet finds the player of the session it came from or none. -/
def StepOk (s : State) : Action → Prop
  | .receive chunk =>
    chunk.length ≤ s.recv.recvRingBuffer.getFreeSize ∧ CompletionFlush s.bytes chunk ∧
      s.bytes ++ chunk <+: messages.flatMap CsMessage.bytes
  | .processPacket _ _ => ∀ ipi ∈ s.recv.pushed[s.processed]?, ∀ p player,
      Addressed s.out.world ipi p player → player.sessionId = session
  | .other a => Delivery.StepOk packets s.out a ∧
      ∀ ipi locals now, a = .logic (.packet ipi locals now) → ∀ p player,
        Addressed s.out.world ipi p player → player.sessionId ≠ session

/-- Everything the client sends has come and been processed; everything for the session has gone. -/
structure Settled (s : State) : Prop where
  received : s.bytes = messages.flatMap CsMessage.bytes
  processed : s.processed = s.recv.pushed.length
  handed : s.out.handed = s.out.world.sent.length
  queue : s.out.path.session.sendQueue = []
  context : s.out.path.session.sendWSAOverlapped.count = 0

variable {g : Grid} {env : RecvEnv} {session : SessionId} {packets : Nat → CPacket}
  {setData : SendPath.Setting} {messages : List CsMessage} {s t : State} {w w' : World}
  {ipi : IncomingPacketInfo} {message : CsMessage} {locals : Locals} {now : Int32}
  {log msgs : List Sending} {owing : List (SessionId × UInt32)}

/-! ## Answers to the session -/

/-- The times answered to a session. -/
def answeredTo (session : SessionId) (answered : List (SessionId × UInt32)) : List UInt32 :=
  answered.filterMap fun a => if a.1 = session then some a.2 else none

theorem answeredTo_append {answered : List (SessionId × UInt32)} :
    answeredTo session (answered ++ owing) =
      answeredTo session answered ++ answeredTo session owing :=
  List.filterMap_append

theorem answeredTo_none (h : ∀ a ∈ owing, a.1 ≠ session) : answeredTo session owing = [] :=
  List.filterMap_eq_nil_iff.mpr fun a ha => if_neg (h a ha)

/-- The `SC_ECHO`s among the messages to a session are the answers to it. -/
theorem echoes_sentTo : (Delivery.sentTo session log).filterMap echoes =
    answeredTo session (answers log) := by
  rw [Delivery.sentTo, answeredTo, answers, List.filterMap_filterMap, List.filterMap_filterMap]
  refine List.filterMap_congr fun m _ => ?_
  obtain ⟨to', message⟩ := m
  by_cases h : to' = session
  · subst h
    cases message <;> simp [echoes, answer]
  · cases message <;> simp [answer, h]

theorem echoed_of_decoded {wire : List UInt8} {sent : List ScMessage}
    (h : Delivery.decoded wire = sent.map some) : echoed wire = sent.filterMap echoes := by
  rw [echoed, h, List.filterMap_map]
  rfl

/-- What a call of the logic thread answers. -/
theorem answers_step {a : GameLogic.Action} (h : GameLogic.step g w a = .ok w') :
    answers w'.sent = answers w.sent ++ owed w a := by
  obtain ⟨w₁, hbegins, heffects⟩ := step_effects h
  rw [answers_effects heffects, answers_begins hbegins]

/-- The player is current exactly if the packet is somebody's. -/
theorem current_iff_addressed :
    Current w ipi.playerId ↔ ∃ p player, Addressed w ipi p player := by
  constructor
  · intro h
    obtain ⟨p, hlist, hread⟩ := Option.bind_eq_some_iff.mp h
    obtain ⟨player, hp, hid⟩ := Option.map_eq_some_iff.mp hread
    exact ⟨p, player, hlist, hp, hid⟩
  · rintro ⟨p, player, hlist, hp, hid⟩
    exact (current_iff hlist hp).mpr hid

/-- What the packet of a message asks is what the message asks. -/
theorem asks_of_pair (valid : ipi.packetBuffer.Valid)
    (pair : (ipi.packetType, ipi.packetBuffer.payload) = message.frame.pair) :
    asks message = if ipi.packetType = dfPacketCsEcho then
      some (ipi.packetBuffer.extractUInt32 locals.time).1 else none := by
  obtain ⟨type, payload⟩ := Prod.mk.inj pair
  have read : message.ReadBy ipi.packetBuffer locals := readBy_of_payload valid payload
  rw [type]
  cases message with
  | moveStart move => rfl
  | moveStop move => rfl
  | attack kind move => cases kind <;> rfl
  | echo time => exact congrArg some (Eq.symm read)

/-! ## The invariant -/

structure Inv (session : SessionId) (packets : Nat → CPacket) (messages : List CsMessage)
    (s : State) : Prop where
  ring : RecvInv s.recv s.bytes.length
  agrees : Agrees s.recv s.bytes
  valid : AllValid s.recv.pushed
  sent : s.bytes <+: messages.flatMap CsMessage.bytes
  processed_le : s.processed ≤ s.recv.pushed.length
  answered : (answeredTo session (answers s.out.world.sent)).Sublist
    (asked (messages.take s.processed))
  all : s.dropped = 0 →
    answeredTo session (answers s.out.world.sent) = asked (messages.take s.processed)
  out : Delivery.Inv session packets s.out

theorem Inv.init (mem : Nat → UInt8) (uniqueCharacterId : UInt32) (wsabuf : Nat → SendPath.WsaBuf)
    (ptr : Nat → Nat) :
    Inv session packets messages (RoundTrip.init mem uniqueCharacterId wsabuf ptr) where
  ring := RecvInv.init mem
  agrees := Agrees.init mem
  valid := nofun
  sent := List.nil_prefix
  processed_le := Nat.le_refl 0
  answered := List.Sublist.refl _
  all _ := rfl
  out := Delivery.Inv.init _ _ _

/-- Packets are only added. -/
theorem pushed_le {recv : RecvState} {chunk : List UInt8} (A : Agrees s.recv s.bytes)
    (A' : Agrees recv (s.bytes ++ chunk)) : s.recv.pushed.length ≤ recv.pushed.length := by
  have old := congrArg List.length A.frames
  have new := congrArg List.length A'.frames
  rw [greedy_append] at new
  simp only [pushedFrames, List.length_map, List.length_append] at old new
  omega

theorem Inv.receive (I : Inv session packets messages s) {chunk : List UInt8}
    (hok : StepOk session packets messages s (.receive chunk))
    (h : step g env session packets setData s (.receive chunk) = some t) :
    Inv session packets messages t := by
  obtain ⟨posted, flush, sent⟩ := hok
  obtain ⟨recv, hrecv, A⟩ : ∃ recv, IocpServer.receive env s.recv chunk = .ok recv ∧
      Agrees recv (s.bytes ++ chunk) := (receive_agrees_iff I.ring I.agrees posted).mpr flush
  simp only [step, hrecv, Option.some.injEq] at h
  subst h
  have ring := I.ring.receive hrecv
  rw [← List.length_append] at ring
  have one : runFn (IocpServer.receive env) s.recv [chunk] = .ok recv := by
    simp only [runFn, hrecv]
  have valid : AllValid recv.pushed := handled_valid I.valid one
  have processed_le := I.processed_le.trans (pushed_le I.agrees A)
  exact ⟨ring, A, valid, sent, processed_le, I.answered, I.all, I.out⟩

/-- The next packet is that of the next message. -/
theorem Inv.next (I : Inv session packets messages s) (h : s.recv.pushed[s.processed]? = some ipi) :
    ∃ message, messages[s.processed]? = some message ∧
      (ipi.packetType, ipi.packetBuffer.payload) = message.frame.pair := by
  have pairs := congrArg (·[s.processed]?) (frames_of_agrees I.agrees I.sent).1
  have inside : s.processed < s.recv.pushed.length := (List.getElem?_eq_some_iff.mp h).1
  simp only [pushedFrames, List.getElem?_map, h, List.getElem?_take_of_lt inside,
    Option.map_some] at pairs
  obtain ⟨message, hmessage, pair⟩ := Option.map_eq_some_iff.mp pairs.symm
  exact ⟨message, hmessage, pair.symm⟩

theorem asked_take_succ {n : Nat} (h : messages[n]? = some message) :
    asked (messages.take (n + 1)) = asked (messages.take n) ++ (asks message).toList := by
  rw [List.take_add_one, h, asked, asked, List.filterMap_append]
  cases ht : asks message <;> simp [ht]

/-- The call that takes the next packet answers what its message asks, if the player is current. -/
theorem answeredTo_owed (valid : ipi.packetBuffer.Valid)
    (pair : (ipi.packetType, ipi.packetBuffer.payload) = message.frame.pair)
    (own : ∀ p player, Addressed w ipi p player → player.sessionId = session) :
    answeredTo session (owed w (.packet ipi locals now)) =
      if Current w ipi.playerId then (asks message).toList else [] := by
  by_cases hcurrent : Current w ipi.playerId
  · obtain ⟨p, player, hp⟩ := current_iff_addressed.mp hcurrent
    have asking : asks message = if ipi.packetType = dfPacketCsEcho then
        some (ipi.packetBuffer.extractUInt32 locals.time).1 else none := asks_of_pair valid pair
    rw [owed_addressed hp, if_pos hcurrent, asking]
    by_cases htype : ipi.packetType = dfPacketCsEcho
    · simp [htype, answeredTo, own p player hp]
    · simp [htype, answeredTo]
  · rw [owed_dropped fun p player hp => hcurrent (current_iff_addressed.mpr ⟨p, player, hp⟩),
      if_neg hcurrent]
    rfl

theorem Inv.processPacket (I : Inv session packets messages s)
    (hok : StepOk session packets messages s (.processPacket locals now))
    (h : step g env session packets setData s (.processPacket locals now) = some t) :
    Inv session packets messages t := by
  simp only [step] at h
  split at h
  · cases h
  rename_i ipi hipi
  obtain ⟨out, hout, rfl⟩ := Option.map_eq_some_iff.mp h
  obtain ⟨message, hmessage, pair⟩ := I.next hipi
  have inside : s.processed < s.recv.pushed.length := (List.getElem?_eq_some_iff.mp hipi).1
  have valid := I.valid ipi (List.mem_of_getElem? hipi)
  have O : Delivery.Inv session packets out :=
    I.out.step (a := .logic (.packet ipi locals now)) trivial hout
  have answered : answeredTo session (answers out.world.sent) =
      answeredTo session (answers s.out.world.sent) ++
        if Current s.out.world ipi.playerId then (asks message).toList else [] := by
    simp only [Delivery.step] at hout
    split at hout
    · cases hout
    · rename_i world hworld
      cases hout
      rw [answers_step hworld, answeredTo_append, answeredTo_owed valid pair (hok ipi hipi)]
  refine ⟨I.ring, I.agrees, I.valid, I.sent, inside, ?_, ?_, O⟩
  · dsimp only
    rw [answered, asked_take_succ hmessage]
    refine I.answered.append ?_
    split
    · exact List.Sublist.refl _
    · exact List.nil_sublist _
  · dsimp only
    intro none
    split at none
    · rename_i hcurrent
      rw [answered, asked_take_succ hmessage, I.all none, if_pos hcurrent]
    · cases none

theorem pathStep_world {x y : Delivery.State} {a : SendPath.Action}
    (h : Delivery.pathStep packets setData x a = some y) : y.world = x.world := by
  obtain ⟨path, -, rfl⟩ := Option.map_eq_some_iff.mp h
  rfl

/-- No other step changes what the session has been answered. -/
theorem answeredTo_other {a : Delivery.Action} {x y : Delivery.State}
    (others : ∀ ipi locals now, a = .logic (.packet ipi locals now) → ∀ p player,
      Addressed x.world ipi p player → player.sessionId ≠ session)
    (h : Delivery.step g session packets setData x a = some y) :
    answeredTo session (answers y.world.sent) = answeredTo session (answers x.world.sent) := by
  cases a with
  | logic a =>
    simp only [Delivery.step] at h
    split at h
    · cases h
    · rename_i world hworld
      cases h
      suffices nothing : answeredTo session (owed x.world a) = [] by
        rw [answers_step hworld, answeredTo_append, nothing, List.append_nil]
      refine answeredTo_none fun answer hanswer => ?_
      cases a with
      | packet ipi locals now =>
        by_cases haddressed : ∃ p player, Addressed x.world ipi p player
        · obtain ⟨p, player, hp⟩ := haddressed
          rw [owed_addressed hp] at hanswer
          split at hanswer
          · rw [List.mem_singleton.mp hanswer]
            exact others ipi locals now rfl p player hp
          · cases hanswer
        · rw [owed_dropped fun p player hp => haddressed ⟨p, player, hp⟩] at hanswer
          cases hanswer
      | _ => cases hanswer
  | sendPacket p acquired =>
    simp only [Delivery.step, Delivery.sendNext] at h
    repeat' split at h
    all_goals cases h
    all_goals rfl
  | sendThread timeUp posted | completion cb | deleteRequest => rw [pathStep_world h]

theorem Inv.other (I : Inv session packets messages s) {a : Delivery.Action}
    (hok : StepOk session packets messages s (.other a))
    (h : step g env session packets setData s (.other a) = some t) :
    Inv session packets messages t := by
  obtain ⟨out, hout, rfl⟩ := Option.map_eq_some_iff.mp h
  have same := answeredTo_other hok.2 hout
  refine ⟨I.ring, I.agrees, I.valid, I.sent, I.processed_le, ?_, ?_, I.out.step hok.1 hout⟩
  · dsimp only
    rw [same]
    exact I.answered
  · dsimp only
    rw [same]
    exact I.all

theorem Inv.step (I : Inv session packets messages s) {a : Action}
    (hok : StepOk session packets messages s a)
    (h : RoundTrip.step g env session packets setData s a = some t) :
    Inv session packets messages t := by
  cases a with
  | receive chunk => exact I.receive hok h
  | processPacket locals now => exact I.processPacket hok h
  | other a => exact I.other hok h

/-! ## Runs -/

/-- What the client reads of answers are the first of those that `SendPacket` took. -/
theorem echoed_prefix (O : Delivery.Inv session packets s.out) :
    echoed s.out.path.wire <+: s.out.taken.filterMap echoes := by
  have read := O.decoded_prefix.filterMap fun message => message.bind echoes
  rw [List.filterMap_map] at read
  exact read

/-- Nothing waits in the queue or in the context: the client reads all that `SendPacket` took. -/
theorem echoed_all (O : Delivery.Inv session packets s.out)
    (queue : s.out.path.session.sendQueue = [])
    (context : s.out.path.session.sendWSAOverlapped.count = 0) :
    echoed s.out.path.wire = s.out.taken.filterMap echoes := by
  obtain ⟨done, cut, P⟩ := O.path
  have empty : s.out.path.session.sendWSAOverlapped.ptrs = [] := by
    rw [SendPath.SendContext.ptrs, context]
    rfl
  have submitted := P.submitted_eq
  have wire := P.wire_eq
  rw [empty, queue, List.append_nil, List.append_nil] at submitted
  rw [empty, List.flatMap_nil, List.take_nil, List.append_nil, submitted] at wire
  refine echoed_of_decoded ?_
  rw [wire]
  exact Delivery.decoded_contents O.built

/-- All bytes have come: all messages have been handed over. -/
theorem Inv.all_pushed (I : Inv session packets messages s)
    (received : s.bytes = messages.flatMap CsMessage.bytes) :
    messages.length ≤ s.recv.pushed.length := by
  obtain ⟨-, split, rest⟩ := frames_of_agrees I.agrees I.sent
  by_contra more
  obtain ⟨next, hnext⟩ : ∃ next, messages[s.recv.pushed.length]? = some next :=
    ⟨_, List.getElem?_eq_getElem (Nat.lt_of_not_le more)⟩
  have whole : messages = messages.take s.recv.pushed.length ++
      next :: messages.drop (s.recv.pushed.length + 1) := by
    obtain ⟨inside, hget⟩ := List.getElem?_eq_some_iff.mp hnext
    rw [← hget, ← List.drop_eq_getElem_cons inside, List.take_append_drop]
  have waiting : s.recv.recvRingBuffer.contents =
      next.bytes ++ (messages.drop (s.recv.pushed.length + 1)).flatMap CsMessage.bytes := by
    have both := received
    rw [split] at both
    conv at both => rhs; rw [whole, List.flatMap_append, List.flatMap_cons]
    exact List.append_cancel_left both
  have short := rest next hnext
  rw [waiting, List.length_append] at short
  omega

/-- **From wire to wire.**  In every interleaving of receive completions, the logic thread's calls,
its `SendPacket`s, the send thread and the send completions of one session, as long as completions
find their frames flush and sends end at packet boundaries: the times a client reads in `SC_ECHO`s
are among those of its `CS_ECHO`s that have been processed, in their order and each at most once.
If no packet found its player not current and no message its session gone, they are the first of
these; and once nothing is under way, they are the times of all `CS_ECHO`s the client has sent. -/
theorem run_echoed {mem : Nat → UInt8} {uniqueCharacterId : UInt32}
    {wsabuf : Nat → SendPath.WsaBuf} {ptr : Nat → Nat} {as : List Action}
    (hr : Run (fun s a t => step g env session packets setData s a = some t)
      (StepOk session packets messages) (init mem uniqueCharacterId wsabuf ptr) as t) :
    (echoed t.out.path.wire).Sublist (asked (messages.take t.processed)) ∧
      (t.dropped = 0 → t.out.missed = [] →
        echoed t.out.path.wire <+: asked (messages.take t.processed) ∧
          (Settled messages t → echoed t.out.path.wire = asked messages)) := by
  have I : Inv session packets messages t :=
    hr.invariant (Inv.init _ _ _ _) fun x a y I hok h => I.step hok h
  have handed : Delivery.sentTo session (t.out.world.sent.take t.out.handed) <+:
      Delivery.sentTo session t.out.world.sent := Delivery.sentTo_prefix (List.take_prefix _ _)
  have read := echoed_prefix I.out
  constructor
  · have sent := (I.out.taken.trans handed.sublist).filterMap echoes
    rw [echoes_sentTo] at sent
    exact (read.sublist.trans sent).trans I.answered
  · intro dropped missed
    have all := I.all dropped
    rw [← echoes_sentTo] at all
    refine ⟨?_, fun settled => ?_⟩
    · have first := handed.filterMap echoes
      rw [← I.out.all missed, all] at first
      exact read.trans first
    · have taken := I.out.all missed
      rw [settled.handed, List.take_length] at taken
      rw [echoed_all I.out settled.queue settled.context, taken, all, settled.processed,
        List.take_of_length_le (I.all_pushed settled.received)]

/-- The packets of the greeting of the first player of an empty world and of an answer to it. -/
def helloPackets (p : Nat) : CPacket :=
  if p = 0 then Delivery.greetingPacket
  else (ScMessage.echo 7).make (fun _ => 0) (CPacket.new fun _ => 0)

theorem built_greeting : Delivery.Built helloPackets 0 (.createMyCharacter 1 4 100 100 100) :=
  ⟨fun _ => 0, fun _ => 0, rfl⟩

theorem built_answer : Delivery.Built helloPackets 1 (.echo 7) := ⟨fun _ => 0, fun _ => 0, rfl⟩

/-- A call that takes no packet of another session. -/
theorem noPacket {a : Delivery.Action} (h : ∀ ipi locals now, a ≠ .logic (.packet ipi locals now)) :
    ∀ ipi locals now, a = .logic (.packet ipi locals now) → ∀ p player,
      Addressed w ipi p player → player.sessionId ≠ session :=
  fun ipi locals now ha => absurd ha (h ipi locals now)

/-- A player is created and asks; the greeting and the answer are posted together. -/
theorem run_echoed_hello : ∃ t : State,
    Run (fun s a t => step .appending ⟨fun _ _ => 0, fun _ => ⟨0, 1⟩⟩ ⟨0, 1⟩ helloPackets
        ⟨100, 1000⟩ s a = some t)
      (StepOk ⟨0, 1⟩ helloPackets [.echo 7]) (init (fun _ => 0) 0 (fun _ => ⟨0, 0⟩) fun _ => 0)
      [.other (.logic (.createNewPlayer ⟨0, 1⟩ 1 99 99 0 true)),
        .receive [0x89, 4, 252, 7, 0, 0, 0], .processPacket ⟨0, 0, 0, 0⟩ 0,
        .other (.sendPacket 0 true), .other (.sendPacket 1 true), .other (.sendThread true true),
        .other (.completion 20)] t ∧
      t.dropped = 0 ∧ t.out.missed = [] ∧ echoed t.out.path.wire = [7] := by
  have echo : greedy [0x89, 4, 252, 7, 0, 0, 0] = ([⟨4, 252, [7, 0, 0, 0], rfl⟩], []) := by
    rw [greedy_some (show peelFrame [0x89, 4, 252, 7, 0, 0, 0] =
      some (⟨4, 252, [7, 0, 0, 0], rfl⟩, []) from rfl), greedy_none rfl]
  have flush : CompletionFlush [] [0x89, 4, 252, 7, 0, 0, 0] := by
    rw [CompletionFlush, greedy_none rfl, List.nil_append, echo]
    decide
  obtain ⟨t, hr, hdropped, hmissed, hsettled⟩ : ∃ t : State,
      Run (fun s a t => step .appending ⟨fun _ _ => 0, fun _ => ⟨0, 1⟩⟩ ⟨0, 1⟩ helloPackets
          ⟨100, 1000⟩ s a = some t)
        (StepOk ⟨0, 1⟩ helloPackets [.echo 7]) (init (fun _ => 0) 0 (fun _ => ⟨0, 0⟩) fun _ => 0)
        [.other (.logic (.createNewPlayer ⟨0, 1⟩ 1 99 99 0 true)),
          .receive [0x89, 4, 252, 7, 0, 0, 0], .processPacket ⟨0, 0, 0, 0⟩ 0,
          .other (.sendPacket 0 true), .other (.sendPacket 1 true), .other (.sendThread true true),
          .other (.completion 20)] t ∧
        t.dropped = 0 ∧ t.out.missed = [] ∧ Settled [.echo 7] t := by
    refine ⟨_, .cons rfl ⟨trivial, noPacket (by simp)⟩ <|
      .cons rfl ⟨by decide, flush, ⟨[], rfl⟩⟩ <| .cons rfl ?_ <|
      .cons rfl ⟨?_, noPacket (by simp)⟩ <| .cons rfl ⟨?_, noPacket (by simp)⟩ <|
      .cons rfl ⟨trivial, noPacket (by simp)⟩ <| .cons rfl ⟨?_, noPacket (by simp)⟩ .nil,
      rfl, rfl, rfl, rfl, rfl, rfl, rfl⟩
    · rintro ipi hipi p player ⟨hlist, hp, -⟩
      cases hipi
      cases hlist
      cases hp
      rfl
    · rintro m ⟨⟩
      exact built_greeting
    · rintro m ⟨⟩
      exact built_answer
    · intro _ posted hposted
      obtain rfl := List.mem_singleton.mp hposted
      exact ⟨2, rfl⟩
  exact ⟨t, hr, hdropped, hmissed, ((run_echoed hr).2 hdropped hmissed).2 hsettled⟩

end RoundTrip

end GameLogic

end IocpServer
