import IocpServer.CPacket
import IocpServer.Lib.Run
import Mathlib.Logic.Function.Basic

/-!
# Sending: `SendPacket`, `SendThread` / `SendPost`, the send completion

One session's outgoing side, each operation atomic.  Packets are pointers into `packets`, whose
contents no longer change once they are handed to `SendPacket`.  A completion of `cb` bytes puts
the first `cb` bytes of the posted buffers on the wire.

The completion handler drops the packets that were transferred whole and posts the rest again
*from their beginning*, so a cut inside a packet repeats bytes.

* `AtBoundary` — the step condition: a completion ends at a packet boundary of what was posted.
* `Inv` — the packets submitted are those done, those in the send context and those queued; the
  wire carries the contents of those done; and at most one of `canSend`, a queued request and a
  send in flight is there.
* `run_wire_prefix` — **in every run whose completions end at packet boundaries the wire carries a
  prefix of the packets' contents, in `SendPacket` order.**
-/

set_option autoImplicit false

namespace IocpServer

open Lib

namespace SendPath

/-- `WSABUF`: `len` bytes from the buffer of the packet at `buf`. -/
structure WsaBuf where
  buf : Nat
  len : Nat
  deriving DecidableEq

/-- `SENDCONTEXT`. -/
structure SendContext where
  wsabuf : Nat → WsaBuf
  count : Nat
  ptr : Nat → Nat

/-- The fields of `SESSION` the send path works on. -/
structure Session where
  canSend : Bool
  isDeleteRequest : Bool
  sendQueue : List Nat
  sendWaitingSize : Int32
  sendWSAOverlapped : SendContext

/-- The fields of `Setting` that `SendThread` compares with. -/
structure Setting where
  maxWaitSendCount : Int32
  maxWaitSendSize : Int32

structure State where
  session : Session
  /-- How often the session's id waits in `sendRequestQueue`. -/
  sendRequestQueue : Nat
  /-- The buffers of the sends posted and not completed, oldest first. -/
  inFlight : List (List WsaBuf)
  /-- The bytes on the wire. -/
  wire : List UInt8
  /-- The packets handed to `SendPacket`, in order. -/
  submitted : List Nat
  /-- The packets the completion handler has dropped its reference to, in order. -/
  released : List Nat

inductive Action where
  | sendPacket (packetBuffer : Nat)
  /-- `SendThread` takes a request: `timeUp` is its comparison of times, `posted` tells whether
  `WSASend` accepts the buffers. -/
  | sendThread (timeUp posted : Bool)
  | completion (cbTransferred : Nat)
  /-- Another thread sets `isDeleteRequest`. -/
  | deleteRequest

variable (packets : Nat → CPacket) (setData : Setting)

/-- The bytes a packet asks to be sent. -/
def content (p : Nat) : List UInt8 := block (packets p).buffer 0 (packets p).getUsedSize

/-- The bytes described by a list of buffers. -/
def postedBytes (posted : List WsaBuf) : List UInt8 :=
  posted.flatMap fun w => block (packets w.buf).buffer 0 w.len

def sendPacket (s : State) (packetBuffer : Nat) : State :=
  { s with
    session := { s.session with
      sendQueue := s.session.sendQueue ++ [packetBuffer]
      sendWaitingSize :=
        s.session.sendWaitingSize + Int32.ofNat (packets packetBuffer).getUsedSize
      canSend := false }
    sendRequestQueue :=
      if s.session.canSend then s.sendRequestQueue + 1 else s.sendRequestQueue
    submitted := s.submitted ++ [packetBuffer] }

/-- The loop of `SendPost`: `n` packets from the queue into the context, from index `i` on. -/
def fillContext : Nat → Nat → Session → Session
  | 0, _, s => s
  | n + 1, i, s =>
    match s.sendQueue with
    | [] => s
    | packetBuffer :: sendQueue =>
      fillContext n (i + 1) { s with
        sendQueue := sendQueue
        sendWSAOverlapped := {
          wsabuf := Function.update s.sendWSAOverlapped.wsabuf i
            ⟨packetBuffer, (packets packetBuffer).getUsedSize⟩
          count := s.sendWSAOverlapped.count + 1
          ptr := Function.update s.sendWSAOverlapped.ptr i packetBuffer } }

/-- The buffers handed to `WSASend`. -/
def SendContext.posted (ctx : SendContext) : List WsaBuf := (List.range ctx.count).map ctx.wsabuf

/-- `SendPost`: the session and the posted buffers; `none` is its return of `-1`. -/
def sendPost (s : Session) : Option (Session × List WsaBuf) :=
  let size := s.sendQueue.length
  let leftCount := s.sendWSAOverlapped.count
  if size + leftCount = 0 then none
  else
    let size := if size + leftCount > 1000 then 1000 else size + leftCount
    let s := fillContext packets (size - leftCount) leftCount s
    some (s, s.sendWSAOverlapped.posted)

/-- `SendThread` on one request for the session. -/
def sendThread (s : State) (timeUp posted : Bool) : Option State :=
  if s.sendRequestQueue = 0 then none
  else
    let post (session : Session) (buffers : List WsaBuf) : State :=
      { s with
        session := session
        sendRequestQueue := s.sendRequestQueue - 1
        inFlight := if posted then s.inFlight ++ [buffers] else s.inFlight }
    let waiting := s.session.sendQueue.length + s.session.sendWSAOverlapped.count
    -- nothing to send: a zero-byte send
    if waiting = 0 then some (post s.session [])
    else if timeUp ∨ s.session.sendWaitingSize ≥ setData.maxWaitSendSize ∨
        (waiting : Int) ≥ setData.maxWaitSendCount.toInt then
      match sendPost packets s.session with
      | none => some { s with sendRequestQueue := s.sendRequestQueue - 1 }
      | some (session, buffers) => some (post session buffers)
    else some s

/-- Where the first loop of the completion handler stops. -/
structure Walk where
  i : Nat
  transfer : Nat
  session : Session
  released : List Nat

/-- The first loop of the completion handler, with `n` packets ahead. -/
def walk (cbTransferred : Nat) : Nat → Walk → Walk
  | 0, w => w
  | n + 1, w =>
    let packetBuffer := w.session.sendWSAOverlapped.ptr w.i
    let transfer := w.transfer + (packets packetBuffer).getUsedSize
    if transfer > cbTransferred then { w with transfer := transfer }
    else
      walk cbTransferred n {
        i := w.i + 1
        transfer := transfer
        session := { w.session with
          sendWaitingSize :=
            w.session.sendWaitingSize - Int32.ofNat (packets packetBuffer).getUsedSize
          sendWSAOverlapped := { w.session.sendWSAOverlapped with
            count := w.session.sendWSAOverlapped.count - 1 } }
        released := w.released ++ [packetBuffer] }

/-- The second loop of the completion handler on one of the arrays: `a[j - i] = a[j]`, with `n`
indices ahead. -/
def moveDown {α : Type} (i : Nat) : Nat → Nat → (Nat → α) → Nat → α
  | 0, _, a => a
  | n + 1, j, a => moveDown i n (j + 1) (Function.update a (j - i) (a j))

/-- Both loops of the completion handler: `transfer`, the session and the packets released. -/
def dropTransferred (s : Session) (cbTransferred : Nat) : Nat × Session × List Nat :=
  let count := s.sendWSAOverlapped.count
  let w := walk packets cbTransferred count ⟨0, 0, s, []⟩
  let ctx := w.session.sendWSAOverlapped
  (w.transfer, { w.session with
    sendWSAOverlapped := { ctx with
      ptr := moveDown w.i (count - w.i) w.i ctx.ptr
      wsabuf := moveDown w.i (count - w.i) w.i ctx.wsabuf } }, w.released)

/-- The send completion of `WorkerThread`, behind its checks. -/
def sendCompletion (s : State) (cbTransferred : Nat) : State :=
  let (transfer, session, released) := dropTransferred packets s.session cbTransferred
  let s := { s with released := s.released ++ released }
  if transfer ≠ cbTransferred ∨ session.sendQueue.length > 0 then
    { s with session := session, sendRequestQueue := s.sendRequestQueue + 1 }
  else { s with session := { session with canSend := true } }

/-- A completion can report these numbers of bytes. -/
def Completes (posted : List WsaBuf) (cbTransferred : Nat) : Prop :=
  cbTransferred ≤ (postedBytes packets posted).length ∧
    (cbTransferred = 0 ↔ (postedBytes packets posted).length = 0)

instance (posted : List WsaBuf) (cbTransferred : Nat) :
    Decidable (Completes packets posted cbTransferred) :=
  inferInstanceAs (Decidable (_ ∧ _))

def completion (s : State) (cbTransferred : Nat) : Option State :=
  match s.inFlight with
  | [] => none
  | posted :: inFlight =>
    if Completes packets posted cbTransferred then
      let s : State := { s with
        inFlight := inFlight
        wire := s.wire ++ (postedBytes packets posted).take cbTransferred }
      if s.session.isDeleteRequest then some s
      else if cbTransferred = 0 then some { s with session := { s.session with canSend := true } }
      else some (sendCompletion packets s cbTransferred)
    else none

/-- One operation; `none` when it cannot happen. -/
def step (s : State) : Action → Option State
  | .sendPacket packetBuffer => some (sendPacket packets s packetBuffer)
  | .sendThread timeUp posted => sendThread packets setData s timeUp posted
  | .completion cbTransferred => completion packets s cbTransferred
  | .deleteRequest => some { s with session := { s.session with isDeleteRequest := true } }

/-- A session as `OnAccept` leaves it: `canSend = 1`, nothing queued, an empty context. -/
def init (wsabuf : Nat → WsaBuf) (ptr : Nat → Nat) : State where
  session := ⟨true, false, [], 0, ⟨wsabuf, 0, ptr⟩⟩
  sendRequestQueue := 0
  inFlight := []
  wire := []
  submitted := []
  released := []

/-- A completion that is not skipped ends where one of the posted buffers ends. -/
def AtBoundary (s : State) : Action → Prop
  | .completion cbTransferred =>
    s.session.isDeleteRequest = false → ∀ posted ∈ s.inFlight,
      ∃ k, cbTransferred = (postedBytes packets (posted.take k)).length
  | _ => True

/-- The bytes on the wire are a prefix of the contents of the packets, in `SendPacket` order. -/
def WirePrefix (s : State) : Prop := s.wire <+: s.submitted.flatMap (content packets)

instance (s : State) : Decidable (WirePrefix packets s) := inferInstanceAs (Decidable (_ <+: _))

/-! ## The loops -/

variable {packets : Nat → CPacket} {setData : Setting} {s t : State} {a : Action}

/-- The packets in the context, in order. -/
def SendContext.ptrs (ctx : SendContext) : List Nat := (List.range ctx.count).map ctx.ptr

/-- Every entry of `wsabuf` in use describes the buffer and the used size of its packet. -/
def SendContext.Described (packets : Nat → CPacket) (ctx : SendContext) : Prop :=
  ∀ k < ctx.count, ctx.wsabuf k = ⟨ctx.ptr k, (packets (ctx.ptr k)).getUsedSize⟩

theorem SendContext.posted_eq {ctx : SendContext} (h : ctx.Described packets) :
    ctx.posted = ctx.ptrs.map fun p => ⟨p, (packets p).getUsedSize⟩ := by
  rw [posted, SendContext.ptrs, List.map_map]
  exact List.map_congr_left fun k hk => h k (List.mem_range.mp hk)

theorem postedBytes_map (ps : List Nat) :
    postedBytes packets (ps.map fun p => ⟨p, (packets p).getUsedSize⟩) =
      ps.flatMap (content packets) := by
  rw [postedBytes, List.flatMap_map]
  rfl

/-- **`SendPost` moves packets from the front of the queue to the end of the context.** -/
theorem fillContext_spec :
    ∀ (n : Nat) (s : Session), n ≤ s.sendQueue.length →
      s.sendWSAOverlapped.Described packets →
      ∃ ctx, fillContext packets n s.sendWSAOverlapped.count s =
          { s with sendQueue := s.sendQueue.drop n, sendWSAOverlapped := ctx } ∧
        ctx.ptrs = s.sendWSAOverlapped.ptrs ++ s.sendQueue.take n ∧
        ctx.Described packets
  | 0, s, _, hd => ⟨_, rfl, by simp, hd⟩
  | n + 1, s, hn, hd => by
    cases hq : s.sendQueue with
    | nil => rw [hq] at hn; simp at hn
    | cons p rest =>
      rw [hq] at hn
      have hlow : ∀ {α : Type} (f : Nat → α) (v : α), ∀ k < s.sendWSAOverlapped.count,
          Function.update f s.sendWSAOverlapped.count v k = f k := fun f v k hk =>
        Function.update_of_ne (Nat.ne_of_lt hk) v f
      let ctx : SendContext := {
        wsabuf := Function.update s.sendWSAOverlapped.wsabuf s.sendWSAOverlapped.count
          ⟨p, (packets p).getUsedSize⟩
        count := s.sendWSAOverlapped.count + 1
        ptr := Function.update s.sendWSAOverlapped.ptr s.sendWSAOverlapped.count p }
      have hpackets : ctx.ptrs = s.sendWSAOverlapped.ptrs ++ [p] := by
        simp only [SendContext.ptrs, ctx, List.range_succ, List.map_append, List.map_cons,
          List.map_nil, Function.update_self]
        rw [List.map_congr_left fun k hk => hlow _ _ k (List.mem_range.mp hk)]
      have hdescribed : ctx.Described packets := by
        intro k hk
        rcases Nat.lt_succ_iff_lt_or_eq.mp hk with hlt | rfl
        · simp only [ctx, hlow _ _ k hlt]; exact hd k hlt
        · simp only [ctx, Function.update_self]
      obtain ⟨ctx', hfill, hp, hd'⟩ := fillContext_spec n
        { s with sendQueue := rest, sendWSAOverlapped := ctx } (by simpa using hn) hdescribed
      refine ⟨ctx', ?_, ?_, hd'⟩
      · rw [fillContext, hq]
        exact hfill
      · rw [hp]
        simp only [hpackets, List.take_succ_cons, List.append_assoc, List.singleton_append]

theorem fillContext_isDeleteRequest (n i : Nat) (s : Session) :
    (fillContext packets n i s).isDeleteRequest = s.isDeleteRequest := by
  induction n generalizing i s with
  | zero => rfl
  | succ n ih =>
    rw [fillContext]
    split
    · rfl
    · exact ih _ _

theorem sendPost_isDeleteRequest {s s' : Session} {buffers : List WsaBuf}
    (h : sendPost packets s = some (s', buffers)) : s'.isDeleteRequest = s.isDeleteRequest := by
  unfold sendPost at h
  dsimp only at h
  split at h
  · cases h
  · cases h
    exact fillContext_isDeleteRequest _ _ _

@[simp] theorem SendContext.length_ptrs (ctx : SendContext) : ctx.ptrs.length = ctx.count := by
  simp only [SendContext.ptrs, List.length_map, List.length_range]

/-- **`SendPost` with something to send** fills the context from the queue and posts it. -/
theorem sendPost_spec {s : Session} (h : s.sendWSAOverlapped.Described packets)
    (hwaiting : s.sendQueue.length + s.sendWSAOverlapped.count ≠ 0) :
    ∃ ctx n, sendPost packets s = some ({ s with
        sendQueue := s.sendQueue.drop n, sendWSAOverlapped := ctx }, ctx.posted) ∧
      ctx.ptrs = s.sendWSAOverlapped.ptrs ++ s.sendQueue.take n ∧ ctx.count ≠ 0 ∧
      ctx.Described packets ∧ (s.sendWSAOverlapped.count ≤ 1000 → ctx.count ≤ 1000) := by
  have hle : (if s.sendQueue.length + s.sendWSAOverlapped.count > 1000 then 1000
      else s.sendQueue.length + s.sendWSAOverlapped.count) - s.sendWSAOverlapped.count ≤
        s.sendQueue.length := by
    split <;> omega
  have hpos : (if s.sendQueue.length + s.sendWSAOverlapped.count > 1000 then 1000
      else s.sendQueue.length + s.sendWSAOverlapped.count) - s.sendWSAOverlapped.count +
        s.sendWSAOverlapped.count ≠ 0 := by
    split <;> omega
  have hcap : s.sendWSAOverlapped.count ≤ 1000 →
      (if s.sendQueue.length + s.sendWSAOverlapped.count > 1000 then 1000
        else s.sendQueue.length + s.sendWSAOverlapped.count) - s.sendWSAOverlapped.count +
          s.sendWSAOverlapped.count ≤ 1000 := by
    split <;> omega
  rw [sendPost, if_neg hwaiting]
  dsimp only
  generalize (if s.sendQueue.length + s.sendWSAOverlapped.count > 1000 then 1000
      else s.sendQueue.length + s.sendWSAOverlapped.count) - s.sendWSAOverlapped.count = n at *
  obtain ⟨ctx, hfill, hptrs, hdescribed⟩ : ∃ ctx, fillContext packets n _ s = _ ∧ _ ∧ _ :=
    fillContext_spec n s hle h
  have hlen := congrArg List.length hptrs
  rw [List.length_append, ctx.length_ptrs, SendContext.length_ptrs, List.length_take,
    Nat.min_eq_left hle] at hlen
  exact ⟨ctx, n, by rw [hfill], hptrs, by omega, hdescribed, fun h => by have := hcap h; omega⟩

/-- **`SendThread` on a request** leaves everything as it is, or uses the request up and posts the
context, extended from the front of the queue. -/
theorem sendThread_cases {timeUp posted : Bool}
    (hdescribed : s.session.sendWSAOverlapped.Described packets)
    (h : sendThread packets setData s timeUp posted = some t) :
    t = s ∨ s.sendRequestQueue ≠ 0 ∧ ∃ ctx n, t = { s with
        session := { s.session with
          sendQueue := s.session.sendQueue.drop n
          sendWSAOverlapped := ctx }
        sendRequestQueue := s.sendRequestQueue - 1
        inFlight := if posted then s.inFlight ++ [ctx.posted] else s.inFlight } ∧
      ctx.ptrs = s.session.sendWSAOverlapped.ptrs ++ s.session.sendQueue.take n ∧
      ctx.Described packets ∧ (s.session.sendWSAOverlapped.count ≤ 1000 → ctx.count ≤ 1000) := by
  unfold sendThread at h
  split at h
  · cases h
  rename_i hreq
  dsimp only at h
  split at h
  · -- the zero-byte send of an empty context
    rename_i hwaiting
    cases h
    have hempty : s.session.sendWSAOverlapped.posted = [] := by
      rw [SendContext.posted, show s.session.sendWSAOverlapped.count = 0 by omega]; rfl
    refine Or.inr ⟨hreq, s.session.sendWSAOverlapped, 0, ?_, ?_, hdescribed, id⟩
    · rw [hempty, List.drop_zero]
    · rw [List.take_zero, List.append_nil]
  · rename_i hwaiting
    split at h
    · obtain ⟨ctx, n, hpost, hptrs, -, hdescribed', hcap⟩ := sendPost_spec hdescribed hwaiting
      rw [hpost] at h
      cases h
      exact Or.inr ⟨hreq, ctx, n, rfl, hptrs, hdescribed', hcap⟩
    · cases h
      exact Or.inl rfl

theorem moveDown_spec {α : Type} (i : Nat) :
    ∀ (n j : Nat) (a : Nat → α), i ≤ j → ∀ k,
      (k < j - i → moveDown i n j a k = a k) ∧
      (j - i ≤ k → k < j - i + n → moveDown i n j a k = a (k + i))
  | 0, _, _, _, _ => ⟨fun _ => rfl, fun _ _ => by omega⟩
  | n + 1, j, a, hij, k => by
    obtain ⟨hlow, hhigh⟩ := moveDown_spec i n (j + 1) (Function.update a (j - i) (a j)) (by omega) k
    rw [moveDown]
    refine ⟨fun hk => ?_, fun hk hk' => ?_⟩
    · rw [hlow (by omega), Function.update_of_ne (by omega)]
    · by_cases he : k = j - i
      · rw [hlow (by omega), he, Function.update_self, Nat.sub_add_cancel hij]
      · rw [hhigh (by omega) (by omega), Function.update_of_ne (by omega)]

/-- The used sizes of the first `i` packets of the context. -/
def sizeUpTo (packets : Nat → CPacket) (ctx : SendContext) (i : Nat) : Nat :=
  ((List.range i).map fun k => (packets (ctx.ptr k)).getUsedSize).sum

theorem sizeUpTo_succ (ctx : SendContext) (i : Nat) :
    sizeUpTo packets ctx (i + 1) = sizeUpTo packets ctx i + (packets (ctx.ptr i)).getUsedSize := by
  simp only [sizeUpTo, List.range_succ, List.map_append, List.map_cons, List.map_nil,
    List.sum_append, List.sum_cons, List.sum_nil, Nat.add_zero]

theorem sizeUpTo_mono (ctx : SendContext) {i j : Nat} (h : i ≤ j) :
    sizeUpTo packets ctx i ≤ sizeUpTo packets ctx j := by
  induction h with
  | refl => exact Nat.le_refl _
  | step _ ih => rw [sizeUpTo_succ]; omega

/-- **The walk of the completion handler** stops at the largest `i` up to `count` whose packets
fit into `cbTransferred`. -/
theorem walk_spec {cbTransferred : Nat} (ctx : SendContext) :
    ∀ (n : Nat) (w : Walk), w.session.sendWSAOverlapped.ptr = ctx.ptr →
      w.transfer = sizeUpTo packets ctx w.i → w.transfer ≤ cbTransferred →
      ∃ d, d ≤ n ∧ sizeUpTo packets ctx (w.i + d) ≤ cbTransferred ∧
        (d < n → cbTransferred < sizeUpTo packets ctx (w.i + d + 1)) ∧
        walk packets cbTransferred n w = {
          i := w.i + d
          transfer := sizeUpTo packets ctx (if d = n then w.i + d else w.i + d + 1)
          session := { w.session with
            sendWaitingSize := w.session.sendWaitingSize -
              Int32.ofNat (sizeUpTo packets ctx (w.i + d) - sizeUpTo packets ctx w.i)
            sendWSAOverlapped := { w.session.sendWSAOverlapped with
              count := w.session.sendWSAOverlapped.count - d } }
          released := w.released ++ (List.range' w.i d).map ctx.ptr }
  | 0, w, _, ht, hle => ⟨0, Nat.le_refl _, by rw [Nat.add_zero, ← ht]; exact hle, nofun, by
      simp [walk, ← ht]⟩
  | n + 1, w, hptr, ht, hle => by
    have hnext := @sizeUpTo_succ packets ctx w.i
    rw [walk, hptr]
    dsimp only
    rw [ht, ← hnext]
    split
    · rename_i hgt
      refine ⟨0, Nat.zero_le _, by rw [Nat.add_zero, ← ht]; exact hle, fun _ => hgt, ?_⟩
      simp
    · rename_i hfits
      obtain ⟨d, hd, hsize, hstop, heq⟩ := walk_spec ctx n {
        i := w.i + 1
        transfer := sizeUpTo packets ctx (w.i + 1)
        session := { w.session with
          sendWaitingSize :=
            w.session.sendWaitingSize - Int32.ofNat (packets (ctx.ptr w.i)).getUsedSize
          sendWSAOverlapped := { w.session.sendWSAOverlapped with
            count := w.session.sendWSAOverlapped.count - 1 } }
        released := w.released ++ [ctx.ptr w.i] } hptr rfl (Nat.le_of_not_lt hfits)
      dsimp only at hsize hstop heq
      have hidx : w.i + 1 + d = w.i + (d + 1) := by omega
      rw [hidx] at hsize hstop heq
      refine ⟨d + 1, by omega, hsize, fun h => hstop (by omega), ?_⟩
      have hmono := @sizeUpTo_mono packets ctx (w.i + 1) (w.i + (d + 1)) (by omega)
      have hsizes : (packets (ctx.ptr w.i)).getUsedSize +
            (sizeUpTo packets ctx (w.i + (d + 1)) - sizeUpTo packets ctx (w.i + 1)) =
          sizeUpTo packets ctx (w.i + (d + 1)) - sizeUpTo packets ctx w.i := by omega
      have hwaiting : w.session.sendWaitingSize - Int32.ofNat (packets (ctx.ptr w.i)).getUsedSize -
            Int32.ofNat (sizeUpTo packets ctx (w.i + (d + 1)) - sizeUpTo packets ctx (w.i + 1)) =
          w.session.sendWaitingSize -
            Int32.ofNat (sizeUpTo packets ctx (w.i + (d + 1)) - sizeUpTo packets ctx w.i) := by
        rw [Int32.sub_sub, ← Int32.ofNat_add, hsizes]
      rw [heq, hwaiting]
      simp only [Nat.add_right_cancel_iff, Nat.sub_sub, Nat.add_comm 1 d, List.append_assoc,
        List.range'_succ, List.map_cons, List.singleton_append]

theorem length_content (p : Nat) : (content packets p).length = (packets p).getUsedSize :=
  length_block _ _ _

theorem SendContext.take_ptrs (ctx : SendContext) {i : Nat} (h : i ≤ ctx.count) :
    ctx.ptrs.take i = (List.range i).map ctx.ptr := by
  rw [SendContext.ptrs, ← List.map_take, List.take_range, Nat.min_eq_left h]

theorem sizeUpTo_eq {ctx : SendContext} {i : Nat} (h : i ≤ ctx.count) :
    sizeUpTo packets ctx i = ((ctx.ptrs.take i).flatMap (content packets)).length := by
  rw [ctx.take_ptrs h, List.length_flatMap, List.map_map, sizeUpTo]
  simp only [Function.comp_def, length_content]

/-- What the second loop leaves in the context. -/
theorem SendContext.dropFront {ctx ctx' : SendContext} {d : Nat} (h : ctx.Described packets)
    (hd : d ≤ ctx.count) (hcount : ctx'.count = ctx.count - d)
    (hptr : ctx'.ptr = moveDown d (ctx.count - d) d ctx.ptr)
    (hwsabuf : ctx'.wsabuf = moveDown d (ctx.count - d) d ctx.wsabuf) :
    ctx'.ptrs = ctx.ptrs.drop d ∧ ctx'.Described packets := by
  have hat : ∀ {α : Type} (a : Nat → α), ∀ k < ctx.count - d,
      moveDown d (ctx.count - d) d a k = a (k + d) := fun a k hk =>
    (moveDown_spec d (ctx.count - d) d a (Nat.le_refl _) k).2 (by omega) (by omega)
  constructor
  · refine List.ext_getElem (by simp [SendContext.ptrs, hcount]) fun k hk _ => ?_
    have hk' : k < ctx.count - d := by simpa [SendContext.ptrs, hcount] using hk
    simp only [SendContext.ptrs, List.getElem_map, List.getElem_range, List.getElem_drop, hptr,
      hat _ k hk', Nat.add_comm]
  · intro k hk
    rw [hcount] at hk
    rw [hptr, hwsabuf, hat _ k hk, hat _ k hk]
    exact h (k + d) (by omega)

/-- **The loops of the completion handler** drop the largest number `d` of packets whose sizes
add up to at most `cbTransferred`. -/
theorem dropTransferred_spec {s : Session} {cb : Nat}
    (h : s.sendWSAOverlapped.Described packets) :
    ∃ d, d ≤ s.sendWSAOverlapped.count ∧ sizeUpTo packets s.sendWSAOverlapped d ≤ cb ∧
      (d < s.sendWSAOverlapped.count → cb < sizeUpTo packets s.sendWSAOverlapped (d + 1)) ∧
      ∃ ctx, dropTransferred packets s cb =
          (sizeUpTo packets s.sendWSAOverlapped (if d = s.sendWSAOverlapped.count then d else d + 1),
            { s with
              sendWaitingSize :=
                s.sendWaitingSize - Int32.ofNat (sizeUpTo packets s.sendWSAOverlapped d)
              sendWSAOverlapped := ctx },
            s.sendWSAOverlapped.ptrs.take d) ∧
        ctx.ptrs = s.sendWSAOverlapped.ptrs.drop d ∧ ctx.Described packets := by
  obtain ⟨d, hd, hfits, hstop, hwalk⟩ := @walk_spec packets cb s.sendWSAOverlapped
    s.sendWSAOverlapped.count ⟨0, 0, s, []⟩ rfl rfl (Nat.zero_le cb)
  simp only [Nat.zero_add, List.nil_append] at hfits hstop hwalk
  have hdrop := @SendContext.dropFront packets s.sendWSAOverlapped
    ⟨moveDown d (s.sendWSAOverlapped.count - d) d s.sendWSAOverlapped.wsabuf,
      s.sendWSAOverlapped.count - d,
      moveDown d (s.sendWSAOverlapped.count - d) d s.sendWSAOverlapped.ptr⟩
    d h hd rfl rfl rfl
  refine ⟨d, hd, hfits, hstop, _, ?_, hdrop⟩
  rw [dropTransferred, SendContext.take_ptrs _ hd, List.range_eq_range']
  dsimp only
  rw [hwalk]
  rfl

/-! ## The invariant -/

/-- The rights to send: `canSend`, the queued requests and the sends in flight. -/
def State.rights (s : State) : Nat :=
  (if s.session.canSend then 1 else 0) + s.sendRequestQueue + s.inFlight.length

structure Inv (packets : Nat → CPacket) (s : State) (done : List Nat) (cut : Nat) : Prop where
  described : s.session.sendWSAOverlapped.Described packets
  submitted_eq : done ++ (s.session.sendWSAOverlapped.ptrs ++ s.session.sendQueue) = s.submitted
  /-- Behind the packets done, `cut` bytes of a completion that was skipped. -/
  wire_eq : s.wire = done.flatMap (content packets) ++
    (s.session.sendWSAOverlapped.ptrs.flatMap (content packets)).take cut
  rights_le : s.rights ≤ 1
  uncut : cut ≠ 0 → s.rights = 0
  posted : ∀ posted ∈ s.inFlight, posted = s.session.sendWSAOverlapped.posted

variable {done : List Nat} {cut : Nat}

theorem Inv.init (wsabuf : Nat → WsaBuf) (ptr : Nat → Nat) :
    Inv packets (SendPath.init wsabuf ptr) [] 0 :=
  ⟨fun _ hk => absurd hk (Nat.not_lt_zero _), rfl, rfl, Nat.le_refl 1, fun h => absurd rfl h, nofun⟩

theorem Inv.sendPacket (I : Inv packets s done cut) (p : Nat) :
    Inv packets (SendPath.sendPacket packets s p) done cut := by
  have hrights : (SendPath.sendPacket packets s p).rights = s.rights := by
    unfold State.rights SendPath.sendPacket
    cases s.session.canSend
    · rfl
    · simp only [Bool.false_eq_true, if_false, if_true]; omega
  refine ⟨I.described, ?_, I.wire_eq, hrights ▸ I.rights_le, hrights ▸ I.uncut, I.posted⟩
  simp only [SendPath.sendPacket, ← I.submitted_eq, List.append_assoc]

/-- A queued request is the only right. -/
theorem Inv.of_request (I : Inv packets s done cut) (h : s.sendRequestQueue ≠ 0) :
    s.session.canSend = false ∧ s.sendRequestQueue = 1 ∧ s.inFlight = [] ∧ cut = 0 := by
  have hle := I.rights_le
  unfold State.rights at hle
  have hcut : cut = 0 := by
    by_contra hne
    have := I.uncut hne
    unfold State.rights at this
    omega
  have hflight : s.inFlight.length = 0 := by omega
  refine ⟨?_, by omega, List.eq_nil_of_length_eq_zero hflight, hcut⟩
  cases hc : s.session.canSend with
  | false => rfl
  | true => rw [hc] at hle; simp only [if_true] at hle; omega

/-- A request is used up by posting the packets of the context, extended from the queue. -/
theorem Inv.post (I : Inv packets s done cut) (hreq : s.sendRequestQueue ≠ 0) (session : Session)
    (hcan : session.canSend = s.session.canSend)
    (hdescribed : session.sendWSAOverlapped.Described packets)
    (hptrs : session.sendWSAOverlapped.ptrs ++ session.sendQueue =
      s.session.sendWSAOverlapped.ptrs ++ s.session.sendQueue) (posted : Bool) :
    Inv packets { s with
      session := session
      sendRequestQueue := s.sendRequestQueue - 1
      inFlight := if posted then s.inFlight ++ [session.sendWSAOverlapped.posted]
        else s.inFlight } done 0 := by
  obtain ⟨hoff, hone, hflight, rfl⟩ := I.of_request hreq
  refine ⟨hdescribed, ?_, ?_, ?_, fun h => absurd rfl h, ?_⟩
  · dsimp only
    rw [hptrs]
    exact I.submitted_eq
  · have hwire := I.wire_eq
    simpa only [List.take_zero, List.append_nil] using hwire
  · unfold State.rights
    cases posted <;> simp [hcan, hoff, hone, hflight]
  · intro buffers hb
    cases posted
    · rw [hflight] at hb; cases hb
    · simpa [hflight] using hb

theorem Inv.sendThread (I : Inv packets s done cut) {timeUp posted : Bool}
    (h : SendPath.sendThread packets setData s timeUp posted = some t) :
    Inv packets t done 0 ∨ t = s := by
  rcases sendThread_cases I.described h with rfl | ⟨hreq, ctx, n, rfl, hptrs, hdescribed, -⟩
  · exact Or.inr rfl
  · refine Or.inl (I.post hreq { s.session with
      sendQueue := s.session.sendQueue.drop n, sendWSAOverlapped := ctx } rfl hdescribed ?_ posted)
    dsimp only
    rw [hptrs, List.append_assoc, List.take_append_drop]

/-! ## Completions -/

/-- The walk ends exactly where the completion does, when that is a boundary. -/
theorem sizeUpTo_of_boundary {ctx : SendContext} {cb d k : Nat} (hd : d ≤ ctx.count)
    (hfits : sizeUpTo packets ctx d ≤ cb) (hstop : d < ctx.count → cb < sizeUpTo packets ctx (d + 1))
    (hk : k ≤ ctx.count) (hcb : cb = sizeUpTo packets ctx k) : sizeUpTo packets ctx d = cb := by
  by_cases hkd : k ≤ d
  · have := @sizeUpTo_mono packets ctx k d hkd
    omega
  · have := @sizeUpTo_mono packets ctx (d + 1) k (by omega)
    have := hstop (by omega)
    omega

/-- A send in flight is the only right. -/
theorem Inv.of_inFlight (I : Inv packets s done cut) {posted : List WsaBuf}
    {inFlight : List (List WsaBuf)} (h : s.inFlight = posted :: inFlight) :
    s.session.canSend = false ∧ s.sendRequestQueue = 0 ∧ inFlight = [] ∧ cut = 0 ∧
      posted = s.session.sendWSAOverlapped.posted := by
  have hle := I.rights_le
  have hposted := I.posted posted (by rw [h]; exact List.mem_cons_self)
  unfold State.rights at hle
  rw [h, List.length_cons] at hle
  have hcut : cut = 0 := by
    by_contra hne
    have := I.uncut hne
    unfold State.rights at this
    rw [h, List.length_cons] at this
    omega
  refine ⟨?_, by omega, List.eq_nil_of_length_eq_zero (by omega), hcut, hposted⟩
  cases hc : s.session.canSend with
  | false => rfl
  | true => rw [hc] at hle; simp only [if_true] at hle; omega

/-- The first `d` packets of the context are done, the right to send passes on. -/
theorem Inv.transferred {session : Session} {d requests : Nat} {wire : List UInt8}
    {released : List Nat} (I : Inv packets s done 0)
    (hqueue : session.sendQueue = s.session.sendQueue)
    (hptrs : session.sendWSAOverlapped.ptrs = s.session.sendWSAOverlapped.ptrs.drop d)
    (hdescribed : session.sendWSAOverlapped.Described packets)
    (hwire : wire =
      s.wire ++ (s.session.sendWSAOverlapped.ptrs.take d).flatMap (content packets))
    (hright : (if session.canSend then 1 else 0) + requests ≤ 1) :
    Inv packets { s with
      session := session
      sendRequestQueue := requests
      inFlight := []
      wire := wire
      released := released } (done ++ s.session.sendWSAOverlapped.ptrs.take d) 0 := by
  refine ⟨hdescribed, ?_, ?_, hright, fun h => absurd rfl h, nofun⟩
  · dsimp only
    rw [hptrs, hqueue, List.append_assoc, ← List.append_assoc (List.take d _),
      List.take_append_drop]
    exact I.submitted_eq
  · have hold := I.wire_eq
    rw [List.take_zero, List.append_nil] at hold
    dsimp only
    rw [hwire, hold, List.flatMap_append, List.take_zero, List.append_nil]

/-- **A completion at a boundary** takes the transferred packets off the front of the context. -/
theorem Inv.sendCompletion {posted : List WsaBuf} {inFlight : List (List WsaBuf)} {cb k : Nat}
    (I : Inv packets s done cut) (hflight : s.inFlight = posted :: inFlight)
    (hk : cb = (postedBytes packets (posted.take k)).length) :
    ∃ done', Inv packets (SendPath.sendCompletion packets { s with
      inFlight := inFlight
      wire := s.wire ++ (postedBytes packets posted).take cb } cb) done' 0 := by
  obtain ⟨hcan, hreq, rfl, rfl, hposted⟩ := I.of_inFlight hflight
  generalize hctx : s.session.sendWSAOverlapped = ctx at *
  have hdescribed := I.described
  rw [hctx] at hdescribed
  obtain ⟨d, hd, hfits, hstop, ctx', hdropped, hptrs, hdescribed'⟩ :=
    @dropTransferred_spec packets s.session cb (by rw [hctx]; exact hdescribed)
  rw [hctx] at hd hfits hstop hdropped hptrs
  have hbytes : postedBytes packets posted = ctx.ptrs.flatMap (content packets) := by
    rw [hposted, ctx.posted_eq hdescribed, postedBytes_map]
  have hcb : cb = sizeUpTo packets ctx (min k ctx.count) := by
    rw [sizeUpTo_eq (Nat.min_le_right _ _), hk, hposted, ctx.posted_eq hdescribed, ← List.map_take,
      postedBytes_map, List.take_eq_take_min]
    simp [SendContext.ptrs]
  have hsize := sizeUpTo_of_boundary hd hfits hstop (Nat.min_le_right _ _) hcb
  have hwire : s.wire ++ (postedBytes packets posted).take cb =
      s.wire ++ (ctx.ptrs.take d).flatMap (content packets) := by
    rw [hbytes, ← hsize, sizeUpTo_eq hd]
    conv => lhs; rw [← List.take_append_drop d ctx.ptrs, List.flatMap_append]
    rw [List.take_left']
    rw [List.take_append_drop]
  refine ⟨done ++ ctx.ptrs.take d, ?_⟩
  rw [SendPath.sendCompletion]
  dsimp only
  rw [hdropped]
  generalize sizeUpTo packets ctx (if d = ctx.count then d else d + 1) = transfer
  subst hctx
  dsimp only
  split
  · refine I.transferred ?_ hptrs hdescribed' hwire ?_
    · rfl
    · simp [hcan, hreq]
  · refine I.transferred ?_ hptrs hdescribed' hwire ?_
    · rfl
    · simp [hreq]

theorem Inv.completion (I : Inv packets s done cut) {cb : Nat}
    (hok : AtBoundary packets s (.completion cb))
    (h : SendPath.completion packets s cb = some t) : ∃ done' cut', Inv packets t done' cut' := by
  unfold SendPath.completion at h
  split at h
  · cases h
  rename_i posted inFlight hflight
  obtain ⟨hcan, hreq, rfl, rfl, hposted⟩ := I.of_inFlight hflight
  have hbytes : postedBytes packets posted =
      s.session.sendWSAOverlapped.ptrs.flatMap (content packets) := by
    rw [hposted, SendContext.posted_eq I.described, postedBytes_map]
  have hold := I.wire_eq
  rw [List.take_zero, List.append_nil] at hold
  split at h
  · dsimp only at h
    split at h
    · -- the completion is skipped: nobody has the right to send any more
      cases h
      refine ⟨done, cb, I.described, I.submitted_eq, ?_, ?_, fun _ => ?_, nofun⟩
      · dsimp only
        rw [hold, hbytes]
      · simp [State.rights, hcan, hreq]
      · simp [State.rights, hcan, hreq]
    · rename_i hlive
      split at h
      · rename_i hzero
        cases h
        refine ⟨done, 0, I.described, I.submitted_eq, ?_, ?_, fun h => absurd rfl h, nofun⟩
        · dsimp only
          rw [hold, hzero, List.take_zero, List.take_zero]
        · simp [State.rights, hreq]
      · cases h
        obtain ⟨k, hk⟩ := hok (by simpa using hlive) posted (by rw [hflight]; exact List.mem_cons_self)
        obtain ⟨done', I'⟩ := I.sendCompletion hflight hk
        exact ⟨done', 0, I'⟩
  · cases h

/-! ## Runs -/

theorem Inv.step (I : Inv packets s done cut) (hok : AtBoundary packets s a)
    (h : SendPath.step packets setData s a = some t) : ∃ done' cut', Inv packets t done' cut' := by
  cases a with
  | sendPacket p =>
    cases h
    exact ⟨done, cut, I.sendPacket p⟩
  | sendThread timeUp posted =>
    rcases I.sendThread h with I' | rfl
    · exact ⟨done, 0, I'⟩
    · exact ⟨done, cut, I⟩
  | completion cb => exact I.completion hok h
  | deleteRequest =>
    cases h
    exact ⟨done, cut, I.described, I.submitted_eq, I.wire_eq, I.rights_le, I.uncut, I.posted⟩

theorem Inv.wirePrefix (I : Inv packets s done cut) : WirePrefix packets s := by
  rw [WirePrefix, I.wire_eq, ← I.submitted_eq, List.flatMap_append, List.flatMap_append]
  exact List.prefix_append_right_inj _ |>.mpr
    ((List.take_prefix _ _).trans (List.prefix_append _ _))

/-- **The outgoing byte stream.**  In every run of `SendPacket`, `SendThread` and send completions
whose completions end at packet boundaries, the wire carries a prefix of the packets' contents in
`SendPacket` order. -/
theorem run_wire_prefix {as : List Action} {wsabuf : Nat → WsaBuf} {ptr : Nat → Nat}
    (hr : Run (fun s a t => step packets setData s a = some t) (AtBoundary packets)
      (init wsabuf ptr) as t) :
    WirePrefix packets t := by
  obtain ⟨done, cut, I⟩ : ∃ done cut, Inv packets t done cut := by
    refine Run.invariant (I := fun s => ∃ done cut, Inv packets s done cut) hr
      ⟨[], 0, Inv.init wsabuf ptr⟩ ?_
    rintro x a y ⟨done, cut, I⟩ hok hstep
    exact I.step hok hstep
  exact I.wirePrefix

/-- Two packets `[1, 2]` posted together, completed one by one. -/
theorem run_wire_prefix_two_packets :
    ∃ t, Run (fun s a t => step (fun _ => CPacket.ofBytes [1, 2]) ⟨100, 1000⟩ s a = some t)
        (AtBoundary fun _ => CPacket.ofBytes [1, 2]) (init (fun _ => ⟨0, 0⟩) fun _ => 0)
        [.sendPacket 1, .sendPacket 2, .sendThread true true, .completion 2, .sendThread true true,
          .completion 2] t ∧
      t.wire = [1, 2, 1, 2] ∧ WirePrefix (fun _ => CPacket.ofBytes [1, 2]) t := by
  obtain ⟨t, hrun, hwire⟩ : ∃ t : State,
      Run (fun s a t => step (fun _ => CPacket.ofBytes [1, 2]) ⟨100, 1000⟩ s a = some t)
        (AtBoundary fun _ => CPacket.ofBytes [1, 2]) (init (fun _ => ⟨0, 0⟩) fun _ => 0)
        [.sendPacket 1, .sendPacket 2, .sendThread true true, .completion 2, .sendThread true true,
          .completion 2] t ∧ t.wire = [1, 2, 1, 2] :=
    ⟨_, .cons rfl (by trivial) <| .cons rfl (by trivial) <| .cons rfl (by trivial) <|
      .cons rfl (by
        intro _ posted hp
        obtain rfl := List.mem_singleton.mp hp
        exact ⟨1, rfl⟩) <|
      .cons rfl (by trivial) <|
      .cons rfl (by
        intro _ posted hp
        obtain rfl := List.mem_singleton.mp hp
        exact ⟨1, rfl⟩) .nil, rfl⟩
  exact ⟨t, hrun, hwire, run_wire_prefix hrun⟩

/-- A packet `[1, 2]` cut after its first byte: the byte is sent twice. -/
theorem cut_packet_repeated :
    ¬ ∀ as t, Run (fun s a t => step (fun _ => CPacket.ofBytes [1, 2]) ⟨100, 1000⟩ s a = some t)
        anyStep (init (fun _ => ⟨0, 0⟩) fun _ => 0) as t →
      WirePrefix (fun _ => CPacket.ofBytes [1, 2]) t := by
  intro h
  have hprefix := h [.sendPacket 1, .sendThread true true, .completion 1, .sendThread true true,
    .completion 1] _ <|
    .cons rfl trivial <| .cons rfl trivial <| .cons rfl trivial <| .cons rfl trivial <|
    .cons rfl trivial .nil
  exact absurd hprefix (by decide)

end SendPath

end IocpServer
