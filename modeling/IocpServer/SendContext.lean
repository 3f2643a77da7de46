import IocpServer.SendPath

/-!
# The send context

The packets between `SendPacket` and the end of their transfer: those in the send context, then
those in the queue.

* `transferred` — the packets that lie whole in the first bytes of what was posted: what a
  completion of that many bytes has transferred, read off the buffers and not off the handler.
* `transferred_eq_take` — **the handler drops exactly these.**
* `run_send_context` — **in every run of `SendPacket`, `SendThread` and completions the context and
  the queue hold the packets handed over and not transferred, in order, and `sendWaitingSize`, an
  `int`, is the sum of their sizes as long as that is below `2 ^ 31`.**
* `waiting_wraps` — from there on it is not.
-/

set_option autoImplicit false

namespace IocpServer

open Lib

namespace SendPath

variable {packets : Nat → CPacket} {setData : Setting} {s t : State} {a : Action}

/-- The packets whose buffers lie in the first `cbTransferred` bytes. -/
def transferred : List WsaBuf → Nat → List Nat
  | [], _ => []
  | w :: posted, cbTransferred =>
    if w.len ≤ cbTransferred then w.buf :: transferred posted (cbTransferred - w.len) else []

/-- What an operation transfers: a completion, the packets of the oldest send it covers. -/
def transferredBy (s : State) : Action → List Nat
  | .completion cbTransferred => transferred (s.inFlight.headD []) cbTransferred
  | _ => []

/-- No delete request, and completions of at least one byte or of a zero-byte send. -/
def SendOk (s : State) : Action → Prop
  | .completion cbTransferred => 1 ≤ cbTransferred ∨ [] ∈ s.inFlight
  | .deleteRequest => False
  | _ => True

/-- The used sizes of a list of packets. -/
def totalSize (packets : Nat → CPacket) (ps : List Nat) : Nat :=
  (ps.map fun p => (packets p).getUsedSize).sum

/-- The packets in the context and behind it in the queue. -/
def Session.untransferred (session : Session) : List Nat :=
  session.sendWSAOverlapped.ptrs ++ session.sendQueue

/-- The state of the send context, with the packets `done` fully transferred so far. -/
structure ContextOk (packets : Nat → CPacket) (s : State) (done : List Nat) : Prop where
  count_le : s.session.sendWSAOverlapped.count ≤ 1000
  described : s.session.sendWSAOverlapped.Described packets
  submitted_eq : done ++ s.session.untransferred = s.submitted
  /-- In the arithmetic of an `int`. -/
  waiting_eq :
    s.session.sendWaitingSize = Int32.ofNat (totalSize packets s.session.untransferred)
  released_eq : s.released = done

theorem ContextOk.toInt_waiting {done : List Nat} (C : ContextOk packets s done)
    (hfits : totalSize packets s.session.untransferred < 2 ^ 31) :
    s.session.sendWaitingSize.toInt = totalSize packets s.session.untransferred := by
  rw [C.waiting_eq, Int32.toInt_ofNat_of_lt hfits]

/-! ## What is transferred -/

theorem totalSize_append (ps qs : List Nat) :
    totalSize packets (ps ++ qs) = totalSize packets ps + totalSize packets qs := by
  simp only [totalSize, List.map_append, List.sum_append]

theorem sizeUpTo_eq_totalSize {ctx : SendContext} {i : Nat} (h : i ≤ ctx.count) :
    sizeUpTo packets ctx i = totalSize packets (ctx.ptrs.take i) := by
  rw [ctx.take_ptrs h, sizeUpTo, totalSize, List.map_map]
  rfl

/-- **What lies whole in the first `cb` bytes** is the longest front of the packets whose sizes
add up to at most `cb`. -/
theorem transferred_eq_take : ∀ (ps : List Nat) (cb d : Nat), d ≤ ps.length →
    totalSize packets (ps.take d) ≤ cb →
    (d < ps.length → cb < totalSize packets (ps.take (d + 1))) →
    transferred (ps.map fun p => ⟨p, (packets p).getUsedSize⟩) cb = ps.take d
  | [], _, d, _, _, _ => by rw [List.take_nil]; rfl
  | p :: ps, cb, 0, _, _, hstop => by
    have hlt := hstop (Nat.succ_pos _)
    simp only [Nat.zero_add, List.take_succ_cons, List.take_zero, totalSize, List.map_cons,
      List.map_nil, List.sum_cons, List.sum_nil, Nat.add_zero] at hlt
    rw [List.map_cons, transferred, if_neg (by dsimp only; omega), List.take_zero]
  | p :: ps, cb, d + 1, hd, hfits, hstop => by
    have hsplit : ∀ k, totalSize packets ((p :: ps).take (k + 1)) =
        (packets p).getUsedSize + totalSize packets (ps.take k) := fun k => by
      simp only [List.take_succ_cons, totalSize, List.map_cons, List.sum_cons]
    rw [hsplit] at hfits
    have ih := transferred_eq_take ps (cb - (packets p).getUsedSize) d (Nat.le_of_succ_le_succ hd)
      (by omega) fun h => by
        have := hstop (Nat.succ_lt_succ h)
        rw [hsplit] at this
        omega
    rw [List.map_cons, transferred, if_pos (by dsimp only; omega), ih, List.take_succ_cons]

/-- **The completion handler**: the packets transferred leave the context, and the right to send
goes on as a request or as `canSend`. -/
theorem sendCompletion_spec {posted : List WsaBuf} {cb : Nat}
    (hdescribed : s.session.sendWSAOverlapped.Described packets)
    (hposted : posted = s.session.sendWSAOverlapped.posted) :
    ∃ d ctx requests canSend, sendCompletion packets s cb = { s with
        session := { s.session with
          canSend := canSend
          sendWaitingSize := s.session.sendWaitingSize -
            Int32.ofNat (totalSize packets (s.session.sendWSAOverlapped.ptrs.take d))
          sendWSAOverlapped := ctx }
        sendRequestQueue := requests
        released := s.released ++ transferred posted cb } ∧
      transferred posted cb = s.session.sendWSAOverlapped.ptrs.take d ∧
      ctx.ptrs = s.session.sendWSAOverlapped.ptrs.drop d ∧ ctx.Described packets ∧
      (if canSend then 1 else 0) + requests ≤
        (if s.session.canSend then 1 else 0) + s.sendRequestQueue + 1 := by
  obtain ⟨d, hd, hfits, hstop, ctx, hdropped, hptrs, hdescribed'⟩ :=
    @dropTransferred_spec packets s.session cb hdescribed
  have htransferred : transferred posted cb = s.session.sendWSAOverlapped.ptrs.take d := by
    rw [hposted, SendContext.posted_eq hdescribed]
    refine transferred_eq_take _ _ _ (by rw [SendContext.length_ptrs]; exact hd) ?_ fun hlt => ?_
    · rw [← sizeUpTo_eq_totalSize hd]
      exact hfits
    · rw [SendContext.length_ptrs] at hlt
      rw [← sizeUpTo_eq_totalSize hlt]
      exact hstop hlt
  rw [sendCompletion]
  dsimp only
  rw [hdropped, htransferred]
  generalize sizeUpTo packets s.session.sendWSAOverlapped
    (if d = s.session.sendWSAOverlapped.count then d else d + 1) = transfer
  dsimp only
  rw [sizeUpTo_eq_totalSize hd]
  split
  · exact ⟨d, ctx, _, _, rfl, rfl, hptrs, hdescribed', by omega⟩
  · refine ⟨d, ctx, _, _, rfl, rfl, hptrs, hdescribed', ?_⟩
    rw [if_pos rfl]
    omega

/-! ## The invariant -/

/-- `ContextOk`, and what it rests on: one right to send, and the buffers in flight are those of
the context. -/
structure Transfer (packets : Nat → CPacket) (s : State) (done : List Nat) : Prop
    extends ContextOk packets s done where
  live : s.session.isDeleteRequest = false
  rights_le : s.rights ≤ 1
  posted : ∀ posted ∈ s.inFlight, posted = s.session.sendWSAOverlapped.posted

variable {done : List Nat}

theorem Transfer.init (wsabuf : Nat → WsaBuf) (ptr : Nat → Nat) :
    Transfer packets (SendPath.init wsabuf ptr) [] where
  count_le := Nat.zero_le _
  described := fun _ hk => absurd hk (Nat.not_lt_zero _)
  submitted_eq := rfl
  waiting_eq := rfl
  released_eq := rfl
  live := rfl
  rights_le := Nat.le_refl 1
  posted := fun _ h => nomatch h

theorem Transfer.sendPacket (T : Transfer packets s done) (p : Nat) :
    Transfer packets (SendPath.sendPacket packets s p) done := by
  have happend : (SendPath.sendPacket packets s p).session.untransferred =
      s.session.untransferred ++ [p] := (List.append_assoc _ _ _).symm
  refine ⟨⟨T.count_le, T.described, ?_, ?_, T.released_eq⟩, T.live, ?_, T.posted⟩
  · rw [happend, ← List.append_assoc, T.submitted_eq]
    rfl
  · rw [happend, totalSize_append, Int32.ofNat_add, ← T.waiting_eq]
    rfl
  · have hright := T.rights_le
    unfold State.rights SendPath.sendPacket at *
    cases hc : s.session.canSend <;> simp [hc] at * <;> omega

theorem Transfer.sendThread (T : Transfer packets s done) {timeUp posted : Bool}
    (h : SendPath.sendThread packets setData s timeUp posted = some t) :
    Transfer packets t done := by
  rcases sendThread_cases T.described h with rfl | ⟨hreq, ctx, n, rfl, hptrs, hdescribed, hcap⟩
  · exact T
  · have hright := T.rights_le
    unfold State.rights at hright
    have hflight : s.inFlight = [] := List.eq_nil_of_length_eq_zero (by omega)
    have hsame : ctx.ptrs ++ s.session.sendQueue.drop n = s.session.untransferred := by
      rw [hptrs, List.append_assoc, List.take_append_drop]
      rfl
    refine ⟨⟨hcap T.count_le, hdescribed, ?_, ?_, T.released_eq⟩, T.live, ?_, ?_⟩
    · rw [Session.untransferred, hsame]
      exact T.submitted_eq
    · rw [Session.untransferred, hsame]
      exact T.waiting_eq
    · have hone : (if posted then s.inFlight ++ [ctx.posted] else s.inFlight).length ≤ 1 := by
        cases posted <;> simp [hflight]
      unfold State.rights
      dsimp only
      omega
    · intro buffers hb
      cases posted
      · rw [hflight] at hb; cases hb
      · simpa [hflight] using hb

theorem Transfer.completion (T : Transfer packets s done) {cb : Nat}
    (hok : SendOk s (.completion cb)) (h : SendPath.completion packets s cb = some t) :
    Transfer packets t (done ++ transferredBy s (.completion cb)) := by
  unfold SendPath.completion at h
  split at h
  · cases h
  rename_i posted inFlight hflight
  have hright := T.rights_le
  unfold State.rights at hright
  rw [hflight, List.length_cons] at hright
  have hposted := T.posted posted (by rw [hflight]; exact List.mem_cons_self)
  have hrest : inFlight = [] := List.eq_nil_of_length_eq_zero (by omega)
  rw [transferredBy, hflight, List.headD_cons]
  split at h
  · dsimp only at h
    rw [if_neg (by rw [T.live]; decide)] at h
    split at h
    · -- only a zero-byte send completes with no bytes
      rename_i hzero
      cases h
      have hempty : posted = [] := by
        rcases hok with hpos | hmem
        · omega
        · rw [hflight, hrest, List.mem_singleton] at hmem
          exact hmem.symm
      rw [hempty, transferred, List.append_nil]
      refine ⟨⟨T.count_le, T.described, T.submitted_eq, T.waiting_eq, T.released_eq⟩, T.live,
        ?_, ?_⟩
      · unfold State.rights
        dsimp only
        rw [hrest, List.length_nil]
        simp only [if_true]
        omega
      · rw [hrest]
        exact fun _ h => nomatch h
    · cases h
      obtain ⟨d, ctx, requests, canSend, heq, htransferred, hptrs, hdescribed, hrights⟩ :=
        @sendCompletion_spec packets { s with
          inFlight := inFlight
          wire := s.wire ++ (postedBytes packets posted).take cb } posted cb T.described hposted
      rw [heq]
      dsimp only at htransferred hptrs hrights ⊢
      have hcut : s.session.untransferred =
          s.session.sendWSAOverlapped.ptrs.take d ++ (ctx.ptrs ++ s.session.sendQueue) := by
        rw [hptrs, ← List.append_assoc, List.take_append_drop]
        rfl
      refine ⟨⟨?_, hdescribed, ?_, ?_, ?_⟩, T.live, ?_, ?_⟩
      · have hlen := congrArg List.length hptrs
        rw [List.length_drop, ctx.length_ptrs, SendContext.length_ptrs] at hlen
        have := T.count_le
        show ctx.count ≤ 1000
        omega
      · show done ++ transferred posted cb ++ (ctx.ptrs ++ s.session.sendQueue) = s.submitted
        rw [← T.submitted_eq, hcut, htransferred, List.append_assoc]
      · show s.session.sendWaitingSize - _ =
          Int32.ofNat (totalSize packets (ctx.ptrs ++ s.session.sendQueue))
        rw [T.waiting_eq, hcut, totalSize_append, Nat.add_comm, Int32.ofNat_add,
          Int32.add_sub_cancel]
      · show s.released ++ transferred posted cb = _
        rw [T.released_eq]
      · unfold State.rights
        dsimp only
        rw [hrest, List.length_nil]
        omega
      · rw [hrest]
        exact fun _ h => nomatch h
  · cases h

/-! ## Runs -/

theorem Transfer.step (T : Transfer packets s done) (hok : SendOk s a)
    (h : SendPath.step packets setData s a = some t) :
    Transfer packets t (done ++ transferredBy s a) := by
  cases a with
  | sendPacket p =>
    cases h
    rw [show transferredBy s (.sendPacket p) = [] from rfl, List.append_nil]
    exact T.sendPacket p
  | sendThread timeUp posted =>
    rw [show transferredBy s (.sendThread timeUp posted) = [] from rfl, List.append_nil]
    exact T.sendThread h
  | completion cb => exact T.completion hok h
  | deleteRequest => exact hok.elim

theorem run_transfer {as : List Action} {wsabuf : Nat → WsaBuf} {ptr : Nat → Nat}
    (hr : Run (logged (fun s a t => step packets setData s a = some t) transferredBy)
      (fun x => SendOk x.1) (init wsabuf ptr, []) as (t, done)) : Transfer packets t done := by
  refine Run.invariant (I := fun x => Transfer packets x.1 x.2) hr (Transfer.init wsabuf ptr) ?_
  intro x a y T hok hstep
  rw [hstep.2]
  exact T.step hok hstep.1

/-- **The send context.**  In every run of `SendPacket`, `SendThread` and completions, with the
packets each completion transfers logged beside the state, the context and the queue hold the
packets handed over and not transferred, in order; `sendWaitingSize` is the sum of their sizes
where an `int` can hold it. -/
theorem run_send_context {as : List Action} {wsabuf : Nat → WsaBuf} {ptr : Nat → Nat}
    (hr : Run (logged (fun s a t => step packets setData s a = some t) transferredBy)
      (fun x => SendOk x.1) (init wsabuf ptr, []) as (t, done)) :
    ContextOk packets t done ∧
      (totalSize packets t.session.untransferred < 2 ^ 31 →
        t.session.sendWaitingSize.toInt = totalSize packets t.session.untransferred) := by
  have T : Transfer packets t done := run_transfer hr
  exact ⟨T.toContextOk, T.toContextOk.toInt_waiting⟩

/-- Two packets posted together; the first completion cuts the second packet. -/
theorem run_send_context_cut :
    ∃ t, Run (logged (fun s a t => step (fun _ => CPacket.ofBytes [1, 2]) ⟨100, 1000⟩ s a = some t)
          transferredBy) (fun x => SendOk x.1) (init (fun _ => ⟨0, 0⟩) fun _ => 0, [])
        [.sendPacket 1, .sendPacket 2, .sendThread true true, .completion 3] (t, [1]) ∧
      ContextOk (fun _ => CPacket.ofBytes [1, 2]) t [1] ∧ t.session.sendWaitingSize.toInt = 2 := by
  obtain ⟨t, hrun, hsize⟩ : ∃ t : State,
      Run (logged (fun s a t => step (fun _ => CPacket.ofBytes [1, 2]) ⟨100, 1000⟩ s a = some t)
          transferredBy) (fun x => SendOk x.1) (init (fun _ => ⟨0, 0⟩) fun _ => 0, [])
        [.sendPacket 1, .sendPacket 2, .sendThread true true, .completion 3] (t, [1]) ∧
      totalSize (fun _ => CPacket.ofBytes [1, 2]) t.session.untransferred = 2 :=
    ⟨_, .consLogged rfl trivial <| .consLogged rfl trivial <| .consLogged rfl trivial <|
      .consLogged rfl (Or.inl (by decide)) .nil, rfl⟩
  obtain ⟨hcontext, hwaiting⟩ := run_send_context hrun
  rw [hsize] at hwaiting
  exact ⟨t, hrun, hcontext, hwaiting (by decide)⟩

/-! ## Beyond an `int` -/

/-- A packet handed over again and again. -/
theorem send_many (p n : Nat) : ∀ s : State, ∃ t,
    Run (logged (fun s a t => step packets setData s a = some t) transferredBy)
      (fun x => SendOk x.1) (s, done) (List.replicate n (.sendPacket p)) (t, done) ∧
      t.session.untransferred = s.session.untransferred ++ List.replicate n p := by
  induction n with
  | zero => exact fun s => ⟨s, .nil, (List.append_nil _).symm⟩
  | succ n ih =>
    intro s
    obtain ⟨t, hrun, hwaiting⟩ := ih (sendPacket packets s p)
    refine ⟨t, ?_, ?_⟩
    · rw [List.replicate_succ]
      refine .consLogged rfl trivial ?_
      rw [show transferredBy s (.sendPacket p) = [] from rfl, List.append_nil]
      exact hrun
    · have happend : (sendPacket packets s p).session.untransferred =
          s.session.untransferred ++ [p] := (List.append_assoc _ _ _).symm
      rw [hwaiting, happend, List.append_assoc, List.singleton_append, List.replicate_succ]

theorem totalSize_replicate (n p : Nat) :
    totalSize packets (List.replicate n p) = n * (packets p).getUsedSize := by
  rw [totalSize, List.map_replicate, List.sum_replicate_nat]

/-- **With `2 ^ 31` bytes waiting the `int` is negative**: a packet of two bytes, handed over
`2 ^ 30` times before the send thread turns to the session. -/
theorem waiting_wraps : ∃ t,
    Run (logged (fun s a t => step (fun _ => CPacket.ofBytes [1, 2]) ⟨100, 1000⟩ s a = some t)
        transferredBy) (fun x => SendOk x.1) (init (fun _ => ⟨0, 0⟩) fun _ => 0, [])
      (List.replicate (2 ^ 30) (.sendPacket 1)) (t, []) ∧
    totalSize (fun _ => CPacket.ofBytes [1, 2]) t.session.untransferred = 2 ^ 31 ∧
    t.session.sendWaitingSize.toInt = -2 ^ 31 := by
  obtain ⟨t, hrun, hwaiting⟩ := @send_many (fun _ => CPacket.ofBytes [1, 2]) ⟨100, 1000⟩ [] 1
    (2 ^ 30) (init (fun _ => ⟨0, 0⟩) fun _ => 0)
  have hsize : totalSize (fun _ => CPacket.ofBytes [1, 2]) t.session.untransferred = 2 ^ 31 := by
    rw [hwaiting]
    show totalSize _ (List.replicate (2 ^ 30) 1) = _
    rw [totalSize_replicate]
    rfl
  refine ⟨t, hrun, hsize, ?_⟩
  rw [(run_transfer hrun).waiting_eq, hsize]
  rfl

end SendPath

end IocpServer
