import IocpServer.SendPath
import IocpServer.GameLogic.Greetings
import IocpServer.GameLogic.MakePacket

/-!
# From the game logic to the wire

The logic thread and the outgoing side of one session together.  A message of the logic thread goes
through `SendPacket` in a packet that its `MakePacket...` function has built; the send thread and the
completions work on the session in between.

* `decoded` — what a client reads from the bytes it has received.
* `sentTo` — the messages to a session.
* `run_delivered` — **the client reads a prefix of the messages that `SendPacket` took for its
  session, and of all messages to the session if it took them all; then the first it reads is the
  greeting.**
-/

set_option autoImplicit false

namespace IocpServer

open Lib

namespace GameLogic

namespace Delivery

/-- The messages a client reads, by the header rule and the documented layouts; `none` is a frame
without meaning. -/
def decoded (wire : List UInt8) : List (Option ScMessage) :=
  (greedy wire).1.map fun f => parseMessage f.byType f.payload

/-- The messages to a session. -/
def sentTo (session : SessionId) (log : List Sending) : List ScMessage :=
  log.filterMap fun m => if m.1 = session then some m.2 else none

structure State where
  world : World
  /-- How many messages of the logic thread have gone through `SendPacket`. -/
  handed : Nat
  path : SendPath.State
  /-- The messages to the session that `SendPacket` took. -/
  taken : List ScMessage
  /-- The messages to the session for which `SendPacket` did not find it. -/
  missed : List ScMessage

inductive Action where
  | logic (a : GameLogic.Action)
  /-- `SendPacket` of the next message; `acquired` tells whether `TryAcquireSession` finds the
  session. -/
  | sendPacket (packetBuffer : Nat) (acquired : Bool)
  | sendThread (timeUp posted : Bool)
  | completion (cbTransferred : Nat)
  | deleteRequest

variable (g : Grid) (session : SessionId) (packets : Nat → CPacket) (setData : SendPath.Setting)

/-- `SendPacket` of the next message. -/
def sendNext (s : State) (packetBuffer : Nat) (acquired : Bool) : Option State :=
  match s.world.sent[s.handed]? with
  | none => none
  | some m =>
    let s := { s with handed := s.handed + 1 }
    if m.1 ≠ session then some s
    else if acquired then
      some { s with
        path := SendPath.sendPacket packets s.path packetBuffer
        taken := s.taken ++ [m.2] }
    else some { s with missed := s.missed ++ [m.2] }

/-- A step of the threads that work on the session. -/
def pathStep (s : State) (a : SendPath.Action) : Option State :=
  (SendPath.step packets setData s.path a).map fun path => { s with path := path }

def step (s : State) : Action → Option State
  | .logic a =>
    match GameLogic.step g s.world a with
    | .error _ => none
    | .ok world => some { s with world := world }
  | .sendPacket packetBuffer acquired => sendNext session packets s packetBuffer acquired
  | .sendThread timeUp posted => pathStep packets setData s (.sendThread timeUp posted)
  | .completion cbTransferred => pathStep packets setData s (.completion cbTransferred)
  | .deleteRequest => pathStep packets setData s .deleteRequest

/-- No player, and the session as `OnAccept` leaves it. -/
def init (uniqueCharacterId : UInt32) (wsabuf : Nat → SendPath.WsaBuf) (ptr : Nat → Nat) : State where
  world := GameLogic.init uniqueCharacterId
  handed := 0
  path := SendPath.init wsabuf ptr
  taken := []
  missed := []

/-- The packet is what the `MakePacket...` function makes of a new one. -/
def Built (p : Nat) (message : ScMessage) : Prop :=
  ∃ block mem, packets p = message.make mem (CPacket.new block)

/-- `SendPacket` gets the packet built for the message, and completions end at packet boundaries. -/
def StepOk (s : State) : Action → Prop
  | .sendPacket p _ => ∀ m ∈ s.world.sent[s.handed]?, Built packets p m.2
  | .completion cbTransferred => SendPath.AtBoundary packets s.path (.completion cbTransferred)
  | _ => True

/-! ## Packets -/

variable {g : Grid} {session : SessionId} {packets : Nat → CPacket} {setData : SendPath.Setting}
  {s t : State} {w w₁ w' : World} {log msgs : List Sending} {m : Sending} {message : ScMessage}
  {p : Nat} {ps : List Nat} {messages : List ScMessage} {wire : List UInt8}

/-- The bytes of a packet that was built for a message are a frame that is read as the message. -/
theorem Built.peelFrame_content (h : Built packets p message) :
    ∃ f : Frame, parseMessage f.byType f.payload = some message ∧
      ∀ rest, peelFrame (SendPath.content packets p ++ rest) = some (f, rest) := by
  obtain ⟨block, mem, hp⟩ := h
  obtain ⟨bySize, byType, fields, built, size, read⟩ := message.make_eq block mem
  have small := bySize.toNat_lt
  have fits : CPacket.totalWidth fields < 2797 := by omega
  have filled := makePacket_filling bySize byType block mem fits
  have content : SendPath.content packets p = header bySize byType ++ CPacket.encode fields := by
    rw [SendPath.content, hp, built, ← filled.payload, CPacket.payload, filled.unread]
    rfl
  refine ⟨⟨bySize, byType, CPacket.encode fields, (CPacket.length_encode fields).trans size⟩, read, ?_⟩
  intro rest
  rw [content]
  exact peelFrame_packet rest size

/-- What packets put on the wire one behind the other is read as their messages. -/
theorem decoded_contents (h : List.Forall₂ (Built packets) ps messages) :
    decoded (ps.flatMap (SendPath.content packets)) = messages.map some := by
  induction h with
  | nil => rw [List.flatMap_nil, decoded, greedy_none rfl]; rfl
  | cons hp _ ih =>
    obtain ⟨f, read, peeled⟩ := hp.peelFrame_content
    rw [List.flatMap_cons, decoded, greedy_some (peeled _), List.map_cons, List.map_cons, read]
    exact congrArg _ ih

/-- A prefix of the bytes is read as a prefix of the messages. -/
theorem decoded_prefix {bytes : List UInt8} (h : wire <+: bytes) : decoded wire <+: decoded bytes :=
  (Peeler.parse_prefix h).map _

/-! ## The messages to a session -/

theorem sentTo_append : sentTo session (log ++ msgs) = sentTo session log ++ sentTo session msgs :=
  List.filterMap_append

theorem sentTo_prefix (h : log <+: msgs) : sentTo session log <+: sentTo session msgs := by
  obtain ⟨later, rfl⟩ := h
  rw [sentTo_append]
  exact List.prefix_append _ _

/-- The first message to a session is its greeting. -/
theorem greets_head (h : Greeted log) (hm : message ∈ (sentTo session log).head?) :
    (greets message).isSome := by
  obtain ⟨rest, hrest⟩ := List.head?_eq_some_iff.mp hm
  obtain ⟨before, m, after, rfl, none, hself⟩ : ∃ before m after, log = before ++ m :: after ∧
      sentTo session before = [] ∧ m = (session, message) := by
    clear h hm
    induction log with
    | nil => cases hrest
    | cons m log ih =>
      by_cases hto : m.1 = session
      · refine ⟨[], m, log, rfl, rfl, ?_⟩
        simp only [sentTo, List.filterMap_cons, hto, if_true, List.cons.injEq] at hrest
        exact Prod.ext hto hrest.1
      · simp only [sentTo, List.filterMap_cons, hto, if_false] at hrest
        obtain ⟨before, m', after, rfl, none, hself⟩ := ih hrest
        refine ⟨m :: before, m', after, rfl, ?_, hself⟩
        simp only [sentTo, List.filterMap_cons, hto, if_false]
        exact none
  subst hself
  have hlog : before ++ [(session, message)] <+: before ++ (session, message) :: after :=
    (List.prefix_append_right_inj before).mpr (List.cons_prefix_cons.mpr ⟨rfl, List.nil_prefix⟩)
  obtain ⟨m', hm', hto, hgreets⟩ := (h before _ hlog).session
  rcases List.mem_append.mp hm' with hm' | hm'
  · have : m'.2 ∈ sentTo session before :=
      List.mem_filterMap.mpr ⟨m', hm', if_pos hto⟩
    rw [none] at this
    cases this
  · rw [List.mem_singleton.mp hm'] at hgreets
    exact hgreets

theorem effects_sent (h : Effects w w') : w.sent <+: w'.sent := by
  induction h with
  | refl => exact List.prefix_rfl
  | tail _ h ih =>
    refine ih.trans ?_
    cases h with
    | silent h => exact h.sent ▸ List.prefix_rfl
    | tell _ => exact List.prefix_append _ _
    | strike _ _ _ => exact List.prefix_append _ _

theorem begins_sent {a : GameLogic.Action} (h : Begins w a w₁) : w.sent <+: w₁.sent := by
  cases h with
  | call => exact List.prefix_rfl
  | unregistered => exact List.prefix_rfl
  | created _ _ _ _ _ _ _ _ hsent => exact hsent ▸ List.prefix_append _ _
  | answered _ _ => exact List.prefix_append _ _

/-! ## The invariant -/

structure Inv (session : SessionId) (packets : Nat → CPacket) (s : State) : Prop where
  path : ∃ done cut, SendPath.Inv packets s.path done cut
  built : List.Forall₂ (Built packets) s.path.submitted s.taken
  handed_le : s.handed ≤ s.world.sent.length
  taken : s.taken.Sublist (sentTo session (s.world.sent.take s.handed))
  all : s.missed = [] → s.taken = sentTo session (s.world.sent.take s.handed)
  greeted : AllGreeted s.world

theorem submitted_step {x y : SendPath.State} {a : SendPath.Action}
    (ha : ∀ p, a ≠ .sendPacket p) (h : SendPath.step packets setData x a = some y) :
    y.submitted = x.submitted := by
  cases a with
  | sendPacket p => exact absurd rfl (ha p)
  | sendThread timeUp posted =>
    simp only [SendPath.step, SendPath.sendThread] at h
    repeat' split at h
    all_goals cases h
    all_goals rfl
  | completion cb =>
    simp only [SendPath.step, SendPath.completion, SendPath.sendCompletion] at h
    repeat' split at h
    all_goals cases h
    all_goals rfl
  | deleteRequest =>
    cases h
    rfl

theorem Inv.pathStep (I : Inv session packets s) {a : SendPath.Action}
    (ha : ∀ p, a ≠ .sendPacket p) (hok : SendPath.AtBoundary packets s.path a)
    (h : Delivery.pathStep packets setData s a = some t) : Inv session packets t := by
  obtain ⟨path, hstep, rfl⟩ := Option.map_eq_some_iff.mp h
  obtain ⟨done, cut, P⟩ := I.path
  refine ⟨P.step hok hstep, ?_, I.handed_le, I.taken, I.all, I.greeted⟩
  show List.Forall₂ _ path.submitted _
  rw [submitted_step ha hstep]
  exact I.built

/-- The messages handed over, with the next one. -/
theorem sentTo_take_succ {n : Nat} (h : log[n]? = some m) :
    sentTo session (log.take (n + 1)) =
      sentTo session (log.take n) ++ if m.1 = session then [m.2] else [] := by
  rw [List.take_add_one, h, sentTo_append]
  by_cases hto : m.1 = session <;> simp [sentTo, hto]

theorem Inv.sendNext (I : Inv session packets s) {acquired : Bool}
    (hok : ∀ m ∈ s.world.sent[s.handed]?, Built packets p m.2)
    (h : Delivery.sendNext session packets s p acquired = some t) : Inv session packets t := by
  obtain ⟨done, cut, P⟩ := I.path
  unfold Delivery.sendNext at h
  split at h
  · cases h
  · rename_i m hm
    have next := @sentTo_take_succ session _ m s.handed hm
    have handed_le : s.handed + 1 ≤ s.world.sent.length :=
      (List.getElem?_eq_some_iff.mp hm).1
    dsimp only at h
    split at h
    · rename_i hto
      cases h
      rw [if_neg hto, List.append_nil] at next
      exact ⟨⟨done, cut, P⟩, I.built, handed_le, next ▸ I.taken, next ▸ I.all, I.greeted⟩
    rename_i hto
    rw [if_pos (not_not.mp hto)] at next
    split at h
    · cases h
      refine ⟨⟨done, cut, P.sendPacket p⟩, ?_, handed_le, ?_, fun none => ?_, I.greeted⟩
      · exact List.rel_append I.built (.cons (hok m hm) .nil)
      · rw [next]
        exact I.taken.append (List.Sublist.refl _)
      · rw [next, ← I.all none]
    · cases h
      refine ⟨⟨done, cut, P⟩, I.built, handed_le, ?_, fun none => ?_, I.greeted⟩
      · rw [next]
        exact I.taken.trans (List.sublist_append_left _ _)
      · cases List.append_eq_nil_iff.mp none |>.2

theorem Inv.step (I : Inv session packets s) {a : Action} (hok : StepOk packets s a)
    (h : Delivery.step g session packets setData s a = some t) : Inv session packets t := by
  cases a with
  | logic a =>
    simp only [Delivery.step] at h
    split at h
    · cases h
    · rename_i world hworld
      cases h
      obtain ⟨w₁, hbegins, heffects⟩ := step_effects hworld
      obtain ⟨later, hsent⟩ := (begins_sent hbegins).trans (effects_sent heffects)
      have handed : world.sent.take s.handed = s.world.sent.take s.handed := by
        rw [← hsent, List.take_append_of_le_length I.handed_le]
      refine ⟨I.path, I.built, ?_, handed ▸ I.taken, handed ▸ I.all, (I.greeted.begins hbegins).effects heffects⟩
      rw [← hsent, List.length_append]
      exact Nat.le_add_right_of_le I.handed_le
  | sendPacket p acquired => exact I.sendNext hok h
  | sendThread timeUp posted =>
    exact I.pathStep (a := .sendThread timeUp posted) (fun _ => nofun) trivial h
  | completion cb => exact I.pathStep (a := .completion cb) (fun _ => nofun) hok h
  | deleteRequest => exact I.pathStep (a := .deleteRequest) (fun _ => nofun) trivial h

theorem Inv.init (uniqueCharacterId : UInt32) (wsabuf : Nat → SendPath.WsaBuf) (ptr : Nat → Nat) :
    Inv session packets (Delivery.init uniqueCharacterId wsabuf ptr) where
  path := ⟨[], 0, SendPath.Inv.init wsabuf ptr⟩
  built := .nil
  handed_le := Nat.le_refl 0
  taken := List.Sublist.refl _
  all _ := rfl
  greeted := by
    refine ⟨fun before m hprefix => ?_, fun q other hq => by cases hq⟩
    exact absurd (List.prefix_nil.mp hprefix) (by simp)

theorem Inv.decoded_prefix (I : Inv session packets s) :
    decoded s.path.wire <+: s.taken.map some := by
  obtain ⟨done, cut, P⟩ := I.path
  rw [← decoded_contents I.built]
  exact Delivery.decoded_prefix P.wirePrefix

/-- **Delivery.**  In every interleaving of the logic thread's calls and its `SendPacket`s with the
send thread and the completions, as long as these end at packet boundaries: what the client reads from
the wire are, in their order and without a gap, the first of the messages that `SendPacket` took for
its session, which are some of the messages to the session.  If `SendPacket` has missed the session
for none, the client reads the first of all messages to it, and a greeting before anything else. -/
theorem run_delivered {uniqueCharacterId : UInt32} {wsabuf : Nat → SendPath.WsaBuf} {ptr : Nat → Nat}
    {as : List Action} (hr : Run (fun s a t => step g session packets setData s a = some t)
      (StepOk packets) (init uniqueCharacterId wsabuf ptr) as t) :
    decoded t.path.wire <+: t.taken.map some ∧ t.taken.Sublist (sentTo session t.world.sent) ∧
      (t.missed = [] →
        decoded t.path.wire <+: (sentTo session t.world.sent).map some ∧
          ∀ first ∈ (decoded t.path.wire).head?, ∃ message, first = some message ∧
            (greets message).isSome) := by
  have I : Inv session packets t :=
    hr.invariant (Inv.init _ _ _) fun x a y I hok h => I.step hok h
  have handed : sentTo session (t.world.sent.take t.handed) <+: sentTo session t.world.sent :=
    sentTo_prefix (List.take_prefix t.handed t.world.sent)
  refine ⟨I.decoded_prefix, I.taken.trans handed.sublist, fun none => ?_⟩
  have all : decoded t.path.wire <+: (sentTo session t.world.sent).map some :=
    I.decoded_prefix.trans ((I.all none ▸ handed).map some)
  refine ⟨all, fun first hfirst => ?_⟩
  obtain ⟨later, hlater⟩ := all
  have hhead : first ∈ ((sentTo session t.world.sent).map some).head? := by
    rw [← hlater, List.head?_append, hfirst]
    rfl
  rw [List.head?_map] at hhead
  obtain ⟨message, hmessage, rfl⟩ := Option.map_eq_some_iff.mp hhead
  exact ⟨message, rfl, greets_head I.greeted.log hmessage⟩

/-- The packet of the greeting of the first player of an empty world. -/
def greetingPacket : CPacket :=
  (ScMessage.createMyCharacter 1 4 100 100 100).make (fun _ => 0) (CPacket.new fun _ => 0)

/-- A player is created, its greeting sent, posted and completed. -/
theorem run_delivered_greeting : ∃ t : State,
    Run (fun s a t => step .appending ⟨0, 1⟩ (fun _ => greetingPacket) ⟨100, 1000⟩ s a = some t)
      (StepOk fun _ => greetingPacket) (init 0 (fun _ => ⟨0, 0⟩) fun _ => 0)
      [.logic (.createNewPlayer ⟨0, 1⟩ 1 99 99 0 true), .sendPacket 0 true, .sendThread true true,
        .completion 13] t ∧
      t.missed = [] ∧ t.path.wire = [137, 10, 0, 1, 0, 0, 0, 4, 100, 0, 100, 0, 100] ∧
      decoded t.path.wire <+: (sentTo ⟨0, 1⟩ t.world.sent).map some := by
  obtain ⟨t, hr, hmissed, hwire⟩ : ∃ t : State,
      Run (fun s a t => step .appending ⟨0, 1⟩ (fun _ => greetingPacket) ⟨100, 1000⟩ s a = some t)
        (StepOk fun _ => greetingPacket) (init 0 (fun _ => ⟨0, 0⟩) fun _ => 0)
        [.logic (.createNewPlayer ⟨0, 1⟩ 1 99 99 0 true), .sendPacket 0 true, .sendThread true true,
          .completion 13] t ∧
        t.missed = [] ∧ t.path.wire = [137, 10, 0, 1, 0, 0, 0, 4, 100, 0, 100, 0, 100] := by
    refine ⟨_, .cons rfl trivial <| .cons rfl ?_ <| .cons rfl trivial <| .cons rfl ?_ .nil, ?_, ?_⟩
    · rintro m ⟨⟩
      exact ⟨_, _, rfl⟩
    · intro _ posted hposted
      obtain rfl := List.mem_singleton.mp hposted
      exact ⟨1, rfl⟩
    · rfl
    · rfl
  exact ⟨t, hr, hmissed, hwire, ((run_delivered hr).2.2 hmissed).1⟩

end Delivery

end GameLogic

end IocpServer
