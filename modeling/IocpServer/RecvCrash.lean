import IocpServer.Framing

/-!
# Remote crashes in `OnMessage`

`OnMessage` copies every contiguous byte behind a header into a `CPacket` of 1400 bytes and
compares the copied length with what it asked for.  So it breaks into the debugger exactly when
more than 1400 contiguous bytes lie behind the header of a complete frame.

One call makes at most two passes: the first takes all bytes up to the physical end of the ring
or everything, and what then begins at the start of the ring is taken by the second.

* `Copyable` — no header met in these two passes has more than 1400 contiguous bytes behind it.
* `onMessage_ok_iff`, `receive_ok_iff` — **one completion is survived if and only if it meets
  the condition.**
* `noCrash_iff` — the same over every byte stream and every splitting.
* `chunkCopyable_of_small` — in particular, 1403 unread bytes are never too many.
-/

set_option autoImplicit false

namespace IocpServer

open Lib RingBuffer

variable {env : RecvEnv} {s t : RecvState}

/-- A complete frame in front of the unread bytes `u`, at offset `o` of a ring of `n` cells, has
at most 1400 contiguous bytes behind its header. -/
def FitsPacket (n o : Nat) (u : List UInt8) : Prop :=
  (peelFrame u).isSome → reachAt n o u.length ≤ 1400

/-- The bytes a pass consumes of the unread bytes `u` at offset `o`, with a complete frame in
front: its header and what lies contiguously behind it, at least the payload. -/
def passSize (n o : Nat) (u : List UInt8) : Nat :=
  match peelFrame u with
  | none => 0
  | some (f, _) => headerSize + max (reachAt n o u.length) f.bySize.toNat

/-- Both passes over the unread bytes `u` at offset `o` copy at most 1400 contiguous bytes. -/
def Copyable (n o : Nat) (u : List UInt8) : Prop :=
  FitsPacket n o u ∧ FitsPacket n (o + passSize n o u) (u.drop (passSize n o u))

instance (n o : Nat) (u : List UInt8) : Decidable (FitsPacket n o u) :=
  inferInstanceAs (Decidable (_ → _))

instance (n o : Nat) (u : List UInt8) : Decidable (Copyable n o u) :=
  inferInstanceAs (Decidable (_ ∧ _))

theorem passSize_some {n o : Nat} {u ys : List UInt8} {f : Frame}
    (hp : peelFrame u = some (f, ys)) :
    passSize n o u = headerSize + max (reachAt n o u.length) f.bySize.toNat := by
  rw [passSize, hp]

theorem fitsPacket_of_none {n o : Nat} {u : List UInt8} (hp : peelFrame u = none) :
    FitsPacket n o u := by
  intro h; rw [hp] at h; cases h

theorem fitsPacket_of_some {n o : Nat} {u ys : List UInt8} {f : Frame}
    (hp : peelFrame u = some (f, ys)) : FitsPacket n o u ↔ reachAt n o u.length ≤ 1400 := by
  rw [FitsPacket, hp]; exact ⟨fun h => h rfl, fun h _ => h⟩

theorem reachAt_mod (n o len : Nat) : reachAt n (o % n) len = reachAt n o len := by
  unfold reachAt; rw [Nat.mod_add_mod]

theorem fitsPacket_mod (n o : Nat) (u : List UInt8) : FitsPacket n (o % n) u ↔ FitsPacket n o u := by
  rw [FitsPacket, FitsPacket, reachAt_mod]

/-! ## At most two passes -/

/-- A pass, in terms of `passSize`. -/
theorem onMessageStep_pass {mem : Nat → UInt8} {playerId : PlayerId} {r : RingBuffer} {f : Frame}
    {ys : List UInt8} (h : r.Valid) (hp : peelFrame r.contents = some (f, ys)) :
    passSize r.bufferSize r.head r.contents ≤ r.getUseSize ∧
      (FitsPacket r.bufferSize r.head r.contents →
        ∃ ipi, onMessageStep mem playerId r =
          .ok (some (r.dropHead (passSize r.bufferSize r.head r.contents), ipi))) ∧
      (¬ FitsPacket r.bufferSize r.head r.contents →
        onMessageStep mem playerId r = .error .copiedLength) := by
  rw [passSize_some hp, fitsPacket_of_some hp, ← reach_eq_reachAt h hp]
  refine ⟨consumed_le h hp, fun hc => ?_, fun hc => ?_⟩
  · obtain ⟨pk, hstep, _⟩ : ∃ pk, onMessageStep mem playerId r = _ ∧ _ :=
      onMessageStep_some h hp hc
    exact ⟨_, hstep⟩
  · exact onMessageStep_trap h hp (Nat.lt_of_not_le hc)

/-- No unread byte lies behind the physical end of the ring. -/
def Unwrapped (r : RingBuffer) : Prop :=
  r.getUseSize = 0 ∨ r.head + r.getUseSize ≤ r.bufferSize

theorem unwrapped_of_pass {r : RingBuffer} (h : r.Valid) {f : Frame} {ys : List UInt8}
    (hp : peelFrame r.contents = some (f, ys)) :
    Unwrapped (r.dropHead (passSize r.bufferSize r.head r.contents)) := by
  have hlen := peelFrame_length hp
  have hlt := getUseSize_lt h
  have hhead := h.head_lt
  have hle := (@onMessageStep_pass (fun _ => 0) ⟨0, 0⟩ r f ys h hp).1
  rw [Unwrapped, getUseSize_dropHead h hle]
  show _ ∨ (r.head + _) % r.bufferSize + _ ≤ r.bufferSize
  rw [passSize_some hp, reachAt] at *
  rw [length_contents] at *
  by_cases hall : r.getUseSize - headerSize ≤ r.bufferSize - (r.head + headerSize) % r.bufferSize
  · exact Or.inl (by omega)
  · -- the header does not wrap, so the pass ends at the physical end or behind it
    have hq : r.head + headerSize < r.bufferSize := by
      by_contra hge
      have : (r.head + headerSize) % r.bufferSize = r.head + headerSize - r.bufferSize := by
        rw [Nat.mod_eq_sub_mod (by omega), Nat.mod_eq_of_lt (by simp only [headerSize]; omega)]
      simp only [headerSize] at *
      omega
    rw [Nat.mod_eq_of_lt hq] at hall ⊢
    refine Or.inr ?_
    rw [show r.head + (headerSize + max (min (r.getUseSize - headerSize)
        (r.bufferSize - (r.head + headerSize))) f.bySize.toNat) =
      (f.bySize.toNat - (r.bufferSize - (r.head + headerSize))) + r.bufferSize by omega,
      Nat.add_mod_right, Nat.mod_eq_of_lt (by omega)]
    omega

/-- On an unwrapped ring one pass takes everything. -/
theorem passSize_unwrapped {r : RingBuffer} {f : Frame} {ys : List UInt8}
    (hp : peelFrame r.contents = some (f, ys)) (hu : Unwrapped r) :
    passSize r.bufferSize r.head r.contents = r.getUseSize := by
  have hlen := peelFrame_length hp
  rw [passSize_some hp, reachAt]
  rw [length_contents] at *
  rcases hu with hu | hu
  · simp only [headerSize] at *; omega
  · by_cases hq : r.head + headerSize = r.bufferSize
    · rw [hq, Nat.mod_self]; omega
    · rw [Nat.mod_eq_of_lt (show r.head + headerSize < r.bufferSize by omega)]; omega

theorem onMessageLoop_unwrapped {fuel : Nat} (h : s.recvRingBuffer.Valid)
    (hu : Unwrapped s.recvRingBuffer) (hf : s.recvRingBuffer.getUseSize < fuel) :
    (∃ t, onMessageLoop env fuel s = .ok t) ↔
      FitsPacket s.recvRingBuffer.bufferSize s.recvRingBuffer.head s.recvRingBuffer.contents := by
  obtain ⟨r, pushed⟩ := s
  dsimp only at *
  obtain ⟨fuel, rfl⟩ : ∃ k, fuel = k + 1 := ⟨fuel - 1, by omega⟩
  cases hp : peelFrame r.contents with
  | none => exact ⟨fun _ => fitsPacket_of_none hp, fun _ => ⟨_, onMessageLoop_done h hp⟩⟩
  | some v =>
    obtain ⟨f, ys⟩ := v
    obtain ⟨hle, hpass, htrap⟩ := @onMessageStep_pass (env.mem pushed.length)
      (env.playerId pushed.length) r f ys h hp
    refine ⟨fun hok => ?_, fun hfits => ?_⟩
    · by_contra hnot
      obtain ⟨t, ht⟩ := hok
      rw [onMessageLoop_trap (htrap hnot)] at ht
      cases ht
    · obtain ⟨ipi, hstep⟩ := hpass hfits
      rw [passSize_unwrapped hp hu] at hstep hle
      have hlen := peelFrame_length hp
      rw [length_contents] at hlen
      obtain ⟨k, rfl⟩ : ∃ k, fuel = k + 1 :=
        ⟨fuel - 1, by simp only [headerSize] at hlen; omega⟩
      have hempty : (r.dropHead r.getUseSize).contents = [] := by
        rw [contents_dropHead h hle, List.drop_eq_nil_of_le (by rw [length_contents])]
      have hnone : peelFrame (r.dropHead r.getUseSize).contents = none := by rw [hempty]; rfl
      exact ⟨_, (onMessageLoop_pass hstep).trans (onMessageLoop_done (dropHead_valid h _) hnone)⟩

/-- **`OnMessage` survives the unread bytes if and only if they are copyable.** -/
theorem onMessage_ok_iff (h : s.recvRingBuffer.Valid) :
    (∃ t, onMessage env s = .ok t) ↔
      Copyable s.recvRingBuffer.bufferSize s.recvRingBuffer.head s.recvRingBuffer.contents := by
  obtain ⟨r, pushed⟩ := s
  dsimp only at *
  rw [onMessage]
  cases hp : peelFrame r.contents with
  | none =>
    have hsize : passSize r.bufferSize r.head r.contents = 0 := by rw [passSize, hp]
    refine ⟨fun _ => ⟨fitsPacket_of_none hp, ?_⟩, fun _ => ⟨_, onMessageLoop_done h hp⟩⟩
    rw [hsize]
    exact fitsPacket_of_none hp
  | some v =>
    obtain ⟨f, ys⟩ := v
    obtain ⟨hle, hpass, htrap⟩ := @onMessageStep_pass (env.mem pushed.length)
      (env.playerId pushed.length) r f ys h hp
    by_cases hfits : FitsPacket r.bufferSize r.head r.contents
    · obtain ⟨ipi, hstep⟩ := hpass hfits
      have hu := unwrapped_of_pass h hp
      have hlen := peelFrame_length hp
      have hpos : 0 < passSize r.bufferSize r.head r.contents := by
        rw [passSize_some hp]; simp only [headerSize]; omega
      have hsecond := @onMessageLoop_unwrapped env
        ⟨r.dropHead (passSize r.bufferSize r.head r.contents), pushed ++ [ipi]⟩ r.getUseSize
        (dropHead_valid h _) hu (by dsimp only; rw [getUseSize_dropHead h hle]; omega)
      dsimp only at hsecond
      rw [contents_dropHead h hle] at hsecond
      rw [onMessageLoop_pass hstep, hsecond]
      exact ⟨fun hx => ⟨hfits, (fitsPacket_mod _ _ _).mp hx⟩,
        fun hx => (fitsPacket_mod _ _ _).mpr hx.2⟩
    · refine ⟨fun hok => ?_, fun hcop => absurd hcop.1 hfits⟩
      obtain ⟨t, ht⟩ := hok
      rw [onMessageLoop_trap (htrap hfits)] at ht
      cases ht

/-! ## Completions and runs of completions -/

/-- The next completion brings bytes that are copyable where the ring stands. -/
def ChunkCopyable (s : RecvState) (chunk : List UInt8) : Prop :=
  Copyable s.recvRingBuffer.bufferSize s.recvRingBuffer.head (s.recvRingBuffer.contents ++ chunk)

instance (s : RecvState) (chunk : List UInt8) : Decidable (ChunkCopyable s chunk) :=
  inferInstanceAs (Decidable (Copyable _ _ _))

theorem receive_ok_iff {chunk : List UInt8} (h : s.recvRingBuffer.Valid)
    (hc : chunk.length ≤ s.recvRingBuffer.getFreeSize) :
    (∃ t, receive env s chunk = .ok t) ↔ ChunkCopyable s chunk := by
  have hok := @onMessage_ok_iff env ⟨s.recvRingBuffer.received chunk, s.pushed⟩
    (received_valid h hc)
  dsimp only at hok
  rw [received_bufferSize h hc, received_head h hc, contents_received h hc] at hok
  rw [receive, if_neg (Nat.not_lt_of_le hc)]
  exact hok

/-- 1403 unread bytes are never too many. -/
theorem chunkCopyable_of_small {chunk : List UInt8}
    (hc : s.recvRingBuffer.getUseSize + chunk.length ≤ 1403) : ChunkCopyable s chunk := by
  constructor
  · intro _
    rw [reachAt, List.length_append, length_contents]
    simp only [headerSize]; omega
  · intro _
    rw [reachAt, List.length_drop, List.length_append, length_contents]
    simp only [headerSize]; omega

/-- Every completion brings copyable bytes to the ring it finds. -/
def CompletionsCopyable (env : RecvEnv) (s₀ : RecvState) (chunks : List (List UInt8)) : Prop :=
  ∀ pre chunk, pre ++ [chunk] <+: chunks → ∀ s, runFn (receive env) s₀ pre = .ok s →
    ChunkCopyable s chunk

/-- **No remote crash.**  From a new session, over every byte stream and every splitting of it
into completions that fit the posted space, all of them are handled — `OnMessage` terminates
and reaches no `__debugbreak` — if and only if every completion brings copyable bytes. -/
theorem noCrash_iff (env : RecvEnv) (mem : Nat → UInt8) (chunks : List (List UInt8))
    (hp : Posted env (RecvState.init mem) chunks) :
    (∃ s, runFn (receive env) (RecvState.init mem) chunks = .ok s) ↔
      CompletionsCopyable env (RecvState.init mem) chunks := by
  induction chunks using List.reverseRecOn with
  | nil => exact ⟨fun _ pre chunk h => absurd (List.prefix_nil.mp h) (by simp), fun _ => ⟨_, rfl⟩⟩
  | append_singleton chunks chunk ih =>
    have ih := ih fun pre c h => hp pre c (h.trans (List.prefix_append _ _))
    have hlast : ∀ s, runFn (receive env) (RecvState.init mem) chunks = .ok s →
        ((∃ t, receive env s chunk = .ok t) ↔ ChunkCopyable s chunk) := fun s hs =>
      receive_ok_iff (runFn_recvInv (RecvInv.init mem) hs).valid (hp _ _ (List.prefix_refl _) s hs)
    rw [runFn_snoc]
    constructor
    · rintro ⟨t, ht⟩ pre c hpre
      split at ht
      · cases ht
      · rename_i s hs
        rcases List.prefix_concat_iff.mp hpre with heq | hold
        · obtain ⟨rfl, hc⟩ := List.append_inj' heq rfl
          obtain rfl : c = chunk := by simpa using hc
          intro s' hs'
          rw [hs] at hs'
          cases hs'
          exact (hlast s hs).mp ⟨t, ht⟩
        · exact ih.mp ⟨s, hs⟩ pre c hold
    · intro hall
      obtain ⟨s, hs⟩ := ih.mpr fun pre c h => hall pre c (h.trans (List.prefix_append _ _))
      rw [hs]
      exact (hlast s hs).mpr (hall _ _ (List.prefix_refl _) s hs)

/-- A session that receives at most 1403 bytes in all is safe. -/
theorem completionsCopyable_of_short {mem : Nat → UInt8} {chunks : List (List UInt8)}
    (h : chunks.flatten.length ≤ 1403) :
    CompletionsCopyable env (RecvState.init mem) chunks := by
  rintro pre chunk ⟨post, rfl⟩ s hs
  have hunread := (runFn_recvInv (RecvInv.init mem) hs).unread_le
  simp only [List.flatten_append, List.length_append, List.flatten_cons, List.flatten_nil,
    List.append_nil] at h
  exact chunkCopyable_of_small (by omega)

/-- A header cut after two bytes is survived. -/
theorem noCrash_iff_split_header :
    ∃ s, runFn (receive ⟨fun _ _ => 0, fun _ => ⟨0, 0⟩⟩) (RecvState.init fun _ => 0)
      [[0x89, 1], [20, 7]] = .ok s :=
  (noCrash_iff _ _ _ (posted_of_short (by decide))).mpr (completionsCopyable_of_short (by decide))

/-- An empty frame with 1401 bytes behind it in the same completion stops the server. -/
theorem long_completion_crashes :
    Posted ⟨fun _ _ => 0, fun _ => ⟨0, 0⟩⟩ (RecvState.init fun _ => 0)
        [[0x89, 0, 20] ++ List.replicate 1401 0] ∧
      ¬ ∃ s, runFn (receive ⟨fun _ _ => 0, fun _ => ⟨0, 0⟩⟩) (RecvState.init fun _ => 0)
        [[0x89, 0, 20] ++ List.replicate 1401 0] = .ok s := by
  refine ⟨posted_of_short ?_, fun ⟨s, hs⟩ => ?_⟩
  · rw [List.flatten_cons, List.flatten_nil, List.append_nil, List.length_append,
      List.length_replicate]
    decide
  rw [← List.nil_append [_], runFn_snoc] at hs
  have hfree : ([0x89, 0, 20] ++ List.replicate 1401 0 : List UInt8).length ≤
      (RecvState.init fun _ => 0).recvRingBuffer.getFreeSize := by
    rw [List.length_append, List.length_replicate]; decide
  have hcop := (receive_ok_iff (RecvInv.init _).valid hfree).mp ⟨s, hs⟩
  have hpeel : peelFrame ([0x89, 0, 20] ++ List.replicate 1401 0) =
      some (⟨0, 20, [], rfl⟩, List.replicate 1401 0) :=
    peelFrame_append ⟨0, 20, [], rfl⟩ _
  have hfits : reachAt szRingBuffer_DEFAULT 0
      ([0x89, 0, 20] ++ List.replicate 1401 0 : List UInt8).length ≤ 1400 :=
    (fitsPacket_of_some hpeel).mp hcop.1
  rw [List.length_append, List.length_replicate] at hfits
  exact absurd hfits (by decide)

end IocpServer
