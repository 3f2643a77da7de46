import IocpServer.OnMessage
import IocpServer.Lib.Run

/-!
# Framing of the received byte stream

What `OnMessage` hands to the logic thread, compared with the greedy parse of the bytes
received so far into frames `[0x89, bySize, byType, payload]`.

The contiguous branch of `OnMessage` copies `DirectDequeueSize()` bytes, not `bySize`, so the
two agree exactly as long as no frame is taken with further bytes lying contiguously behind it.

* `FramesFlush` — that condition, on stream offsets and lengths only.
* `onMessageLoop_flush`, `onMessageLoop_merged` — the loop on unread bytes that meet it, and on
  bytes that do not.
* `framing_iff` — **the packets handed over are those of the greedy parse, after every
  completion, if and only if every completion meets the condition.**
-/

set_option autoImplicit false

namespace IocpServer

open Lib RingBuffer

variable {env : RecvEnv} {s t : RecvState}

/-- The `(packetType, payload)` pairs handed to the logic thread. -/
def pushedFrames (s : RecvState) : List (UInt8 × List UInt8) :=
  s.pushed.map fun ipi => (ipi.packetType, ipi.packetBuffer.payload)

def Frame.pair (f : Frame) : UInt8 × List UInt8 := (f.byType, f.payload)

/-- The greedy parse of a byte stream. -/
def greedy (bytes : List UInt8) : List Frame × List UInt8 := framePeeler.parse bytes

theorem greedy_none {bytes : List UInt8} (h : peelFrame bytes = none) :
    greedy bytes = ([], bytes) :=
  framePeeler.parse_none h

theorem greedy_some {bytes ys : List UInt8} {f : Frame} (h : peelFrame bytes = some (f, ys)) :
    greedy bytes = (f :: (greedy ys).1, (greedy ys).2) :=
  framePeeler.parse_some h

theorem greedy_append (pre chunk : List UInt8) :
    greedy (pre ++ chunk) = ((greedy pre).1 ++ (greedy ((greedy pre).2 ++ chunk)).1,
      (greedy ((greedy pre).2 ++ chunk)).2) :=
  framePeeler.parse_append pre chunk

/-- Packets and ring agree with the greedy parse of the bytes received so far. -/
structure Agrees (s : RecvState) (bytes : List UInt8) : Prop where
  frames : pushedFrames s = (greedy bytes).1.map Frame.pair
  rest : s.recvRingBuffer.contents = (greedy bytes).2

theorem Agrees.init (mem : Nat → UInt8) : Agrees (RecvState.init mem) [] :=
  ⟨by rw [greedy_none rfl]; rfl, by rw [greedy_none rfl]; rfl⟩

/-- Contiguous bytes behind a header at stream offset `o` when `len` unread bytes begin there,
in a ring of `n` cells. -/
def reachAt (n o len : Nat) : Nat := min (len - headerSize) (n - (o + headerSize) % n)

/-- Each of the frames, at its offset, has no contiguous bytes behind its payload: it is the
last thing received, or its payload ends at (or runs over) the physical end of the ring. -/
def FramesFlush (n : Nat) : Nat → Nat → List Frame → Prop
  | _, _, [] => True
  | o, len, f :: fs =>
    reachAt n o len ≤ f.bySize.toNat ∧
      FramesFlush n (o + headerSize + f.bySize.toNat) (len - headerSize - f.bySize.toNat) fs

instance (n : Nat) : ∀ (o len : Nat) (fs : List Frame), Decidable (FramesFlush n o len fs)
  | _, _, [] => .isTrue trivial
  | o, len, f :: fs =>
    have := instDecidableFramesFlush n (o + headerSize + f.bySize.toNat)
      (len - headerSize - f.bySize.toNat) fs
    inferInstanceAs (Decidable (_ ∧ _))

/-- Only the offset modulo the ring size matters. -/
theorem framesFlush_congr {n : Nat} :
    ∀ {o o' len : Nat} {fs : List Frame}, o % n = o' % n →
      (FramesFlush n o len fs ↔ FramesFlush n o' len fs)
  | _, _, _, [], _ => Iff.rfl
  | o, o', len, f :: fs, h => by
    have hadd : ∀ k, (o + k) % n = (o' + k) % n := fun k => by rw [Nat.add_mod, h, ← Nat.add_mod]
    have hr : reachAt n o len = reachAt n o' len := by
      unfold reachAt; rw [hadd]
    have ht := @framesFlush_congr n (o + headerSize + f.bySize.toNat)
      (o' + headerSize + f.bySize.toNat) (len - headerSize - f.bySize.toNat) fs
      (by rw [Nat.add_assoc, hadd, Nat.add_assoc])
    simp only [FramesFlush, hr, ht]

theorem reach_eq_reachAt {r : RingBuffer} (h : r.Valid) {f : Frame} {ys : List UInt8}
    (hp : peelFrame r.contents = some (f, ys)) :
    reach r = reachAt r.bufferSize r.head r.contents.length := by
  have hlen := peelFrame_length hp
  rw [length_contents] at *
  rw [reach_eq h (by omega), reachAt]

/-! ## The loop on unread bytes -/

/-- A frame without contiguous bytes behind it is taken exactly. -/
theorem onMessageStep_flush {mem : Nat → UInt8} {playerId : PlayerId} {r : RingBuffer} {f : Frame}
    {ys : List UInt8} (h : r.Valid) (hp : peelFrame r.contents = some (f, ys))
    (hf : reach r ≤ f.bySize.toNat) :
    ∃ packetBuffer, onMessageStep mem playerId r =
        .ok (some (r.dropHead (headerSize + f.bySize.toNat), ⟨playerId, packetBuffer, f.byType⟩)) ∧
      packetBuffer.payload = f.payload ∧
      (r.dropHead (headerSize + f.bySize.toNat)).contents = ys := by
  have hb := f.bySize.toNat_lt
  have hle := consumed_le h hp
  obtain ⟨pk, hstep, hpay⟩ : ∃ pk, onMessageStep mem playerId r = _ ∧ _ :=
    onMessageStep_some h hp (by omega)
  rw [Nat.max_eq_right hf] at hstep hpay hle
  refine ⟨pk, hstep, ?_, ?_⟩
  · rw [hpay, peelFrame_some hp, ← f.size_eq]
    simp only [headerSize, List.drop_succ_cons, List.drop_zero, List.take_left']
  · rw [contents_dropHead h hle, peelFrame_some hp, ← f.size_eq]
    simp only [headerSize, Nat.add_comm 3, List.drop_succ_cons, List.drop_left']

/-- A frame with contiguous bytes behind it is taken together with them, or traps. -/
theorem onMessageStep_merged {mem : Nat → UInt8} {playerId : PlayerId} {r : RingBuffer} {f : Frame}
    {ys : List UInt8} (h : r.Valid) (hp : peelFrame r.contents = some (f, ys))
    (hf : f.bySize.toNat < reach r) :
    onMessageStep mem playerId r = .error .copiedLength ∨
      ∃ r' packetBuffer, onMessageStep mem playerId r =
          .ok (some (r', ⟨playerId, packetBuffer, f.byType⟩)) ∧ r'.Valid ∧
        r'.getUseSize < r.getUseSize ∧ packetBuffer.payload.length = reach r := by
  by_cases hc : reach r ≤ 1400
  · have hle := consumed_le h hp
    obtain ⟨pk, hstep, hpay⟩ : ∃ pk, onMessageStep mem playerId r = _ ∧ _ :=
      onMessageStep_some h hp hc
    refine Or.inr ⟨_, pk, hstep, dropHead_valid h _, ?_, ?_⟩
    · rw [getUseSize_dropHead h hle]; simp only [headerSize] at *; omega
    · rw [hpay, List.length_take, List.length_drop, length_contents, Nat.max_eq_left (by omega)]
      omega
  · exact Or.inl (onMessageStep_trap h hp (by omega))

/-- **The loop on flush frames** takes exactly the greedy parse of the unread bytes. -/
theorem onMessageLoop_flush :
    ∀ (fuel : Nat) (s : RecvState), s.recvRingBuffer.Valid →
      s.recvRingBuffer.getUseSize < fuel →
      FramesFlush s.recvRingBuffer.bufferSize s.recvRingBuffer.head
        s.recvRingBuffer.contents.length (greedy s.recvRingBuffer.contents).1 →
      ∃ t, onMessageLoop env fuel s = .ok t ∧
        pushedFrames t = pushedFrames s ++ (greedy s.recvRingBuffer.contents).1.map Frame.pair ∧
        t.recvRingBuffer.contents = (greedy s.recvRingBuffer.contents).2
  | 0, _, _, hf, _ => absurd hf (Nat.not_lt_zero _)
  | fuel + 1, ⟨r, pushed⟩, h, hf, hflush => by
    dsimp only at h hf hflush ⊢
    cases hp : peelFrame r.contents with
    | none =>
      rw [greedy_none hp]
      exact ⟨_, onMessageLoop_done h hp, by simp, rfl⟩
    | some v =>
      obtain ⟨f, ys⟩ := v
      rw [greedy_some hp] at hflush ⊢
      obtain ⟨hreach, hflush⟩ := hflush
      rw [← reach_eq_reachAt h hp] at hreach
      obtain ⟨pk, hstep, hpay, hys⟩ : ∃ pk, onMessageStep (env.mem pushed.length)
        (env.playerId pushed.length) r = _ ∧ _ := onMessageStep_flush h hp hreach
      have hlen := peelFrame_length hp
      have hu : (r.dropHead (headerSize + f.bySize.toNat)).getUseSize < fuel := by
        rw [length_contents] at hlen
        rw [getUseSize_dropHead h (by omega)]
        simp only [headerSize] at *; omega
      obtain ⟨t, hloop, hframes, hrest⟩ := onMessageLoop_flush fuel
        ⟨r.dropHead (headerSize + f.bySize.toNat), pushed ++ [⟨_, pk, f.byType⟩]⟩
        (dropHead_valid h _) hu (by
          dsimp only
          rw [hys, show ys.length = r.contents.length - headerSize - f.bySize.toNat by omega]
          exact (framesFlush_congr (by simp [dropHead, Nat.add_assoc])).mpr hflush)
      dsimp only at hframes hrest
      rw [hys] at hframes hrest
      refine ⟨t, (onMessageLoop_pass hstep).trans hloop, ?_, hrest⟩
      rw [hframes]
      simp only [pushedFrames, List.map_append, List.map_cons, List.map_nil, List.append_assoc,
        List.singleton_append, Frame.pair, hpay]

/-- **The loop on frames that are not flush** traps or hands over something else than the
greedy parse: the first such frame's payload has the wrong length, and what has been pushed
is never taken back. -/
theorem onMessageLoop_merged :
    ∀ (fuel : Nat) (s t : RecvState), s.recvRingBuffer.Valid →
      s.recvRingBuffer.getUseSize < fuel →
      ¬ FramesFlush s.recvRingBuffer.bufferSize s.recvRingBuffer.head
        s.recvRingBuffer.contents.length (greedy s.recvRingBuffer.contents).1 →
      onMessageLoop env fuel s = .ok t →
      pushedFrames t ≠ pushedFrames s ++ (greedy s.recvRingBuffer.contents).1.map Frame.pair
  | 0, _, _, _, hf, _, _ => absurd hf (Nat.not_lt_zero _)
  | fuel + 1, ⟨r, pushed⟩, t, h, hf, hflush, hloop => by
    dsimp only at h hf hflush ⊢
    cases hp : peelFrame r.contents with
    | none =>
      rw [greedy_none hp] at hflush
      exact absurd trivial hflush
    | some v =>
      obtain ⟨f, ys⟩ := v
      rw [greedy_some hp] at hflush ⊢
      by_cases hreach : reach r ≤ f.bySize.toNat
      · -- this frame is taken exactly: the violation comes later
        obtain ⟨pk, hstep, hpay, hys⟩ : ∃ pk, onMessageStep (env.mem pushed.length)
          (env.playerId pushed.length) r = _ ∧ _ := onMessageStep_flush h hp hreach
        have hlen := peelFrame_length hp
        have hu : (r.dropHead (headerSize + f.bySize.toNat)).getUseSize < fuel := by
          rw [length_contents] at hlen
          rw [getUseSize_dropHead h (by omega)]
          simp only [headerSize] at *; omega
        rw [onMessageLoop_pass hstep] at hloop
        have hne := onMessageLoop_merged fuel
          ⟨r.dropHead (headerSize + f.bySize.toNat), pushed ++ [⟨_, pk, f.byType⟩]⟩ t
          (dropHead_valid h _) hu (fun hlater => hflush ⟨reach_eq_reachAt h hp ▸ hreach, by
            dsimp only at hlater
            rw [hys, show ys.length = r.contents.length - headerSize - f.bySize.toNat by omega]
              at hlater
            exact (framesFlush_congr (by simp [dropHead, Nat.add_assoc])).mp hlater⟩) hloop
        dsimp only at hne
        rw [hys] at hne
        intro heq
        refine hne ?_
        rw [heq]
        simp only [pushedFrames, List.map_append, List.map_cons, List.map_nil, List.append_assoc,
          List.singleton_append, Frame.pair, hpay]
      · rcases onMessageStep_merged h hp (Nat.lt_of_not_le hreach) with hbad | hbad
        · rw [onMessageLoop_trap hbad] at hloop; cases hloop
        · obtain ⟨r', pk, hstep, hv, hlt, hpay⟩ := hbad
          rw [onMessageLoop_pass hstep] at hloop
          rcases @onMessageLoop_cases env fuel
            ⟨r', pushed ++ [⟨env.playerId pushed.length, pk, f.byType⟩]⟩ hv
            (show r'.getUseSize < fuel by omega) with htrap | ⟨size, more, -, hok⟩
          · rw [hloop] at htrap; cases htrap
          · rw [hloop] at hok
            cases hok
            intro heq
            simp only [pushedFrames, List.map_append, List.map_cons,
              List.append_assoc, List.append_cancel_left_eq, List.singleton_append,
              List.cons.injEq, Frame.pair, Prod.mk.injEq] at heq
            have hwrong := congrArg List.length heq.1.2
            rw [hpay, f.size_eq] at hwrong
            omega

/-! ## One completion -/

/-- A completion that brings `chunk` after `pre` finds every frame of the unread bytes flush. -/
def CompletionFlush (pre chunk : List UInt8) : Prop :=
  FramesFlush szRingBuffer_DEFAULT (pre.length - (greedy pre).2.length)
    ((greedy pre).2 ++ chunk).length (greedy ((greedy pre).2 ++ chunk)).1

instance (pre chunk : List UInt8) : Decidable (CompletionFlush pre chunk) :=
  inferInstanceAs (Decidable (FramesFlush _ _ _ _))

/-- **One completion keeps the agreement if and only if it finds its frames flush.** -/
theorem receive_agrees_iff {pre chunk : List UInt8} (I : RecvInv s pre.length)
    (A : Agrees s pre) (hc : chunk.length ≤ s.recvRingBuffer.getFreeSize) :
    (∃ t, receive env s chunk = .ok t ∧ Agrees t (pre ++ chunk)) ↔ CompletionFlush pre chunk := by
  have hv := received_valid I.valid hc
  have hcontents := contents_received I.valid hc
  rw [A.rest] at hcontents
  have hrest : s.recvRingBuffer.getUseSize = (greedy pre).2.length := by
    rw [← length_contents, A.rest]
  have hhead := I.head_eq
  have hflush : FramesFlush (s.recvRingBuffer.received chunk).bufferSize
        (s.recvRingBuffer.received chunk).head (s.recvRingBuffer.received chunk).contents.length
        (greedy (s.recvRingBuffer.received chunk).contents).1 ↔ CompletionFlush pre chunk := by
    rw [received_head I.valid hc, received_bufferSize I.valid hc, I.size, hcontents, hhead, hrest]
    exact framesFlush_congr (Nat.mod_mod _ _)
  have hreceive : receive env s chunk =
      onMessage env ⟨s.recvRingBuffer.received chunk, s.pushed⟩ := by
    rw [receive, if_neg (Nat.not_lt_of_le hc)]
  have hpushed : pushedFrames ⟨s.recvRingBuffer.received chunk, s.pushed⟩ =
      (greedy pre).1.map Frame.pair := A.frames
  constructor
  · rintro ⟨t, hok, hagree⟩
    by_contra hnot
    rw [hreceive] at hok
    refine onMessageLoop_merged _ ⟨s.recvRingBuffer.received chunk, s.pushed⟩ t hv
      (Nat.lt_succ_self _) (fun h => hnot (hflush.mp h)) hok ?_
    rw [hagree.frames, hpushed, greedy_append, List.map_append, hcontents]
  · intro hgood
    obtain ⟨t, hloop, hframes, hcon⟩ := @onMessageLoop_flush env _
      ⟨s.recvRingBuffer.received chunk, s.pushed⟩ hv (Nat.lt_succ_self _) (hflush.mpr hgood)
    refine ⟨t, hreceive.trans hloop, ?_, ?_⟩
    · rw [hframes, hpushed, greedy_append, List.map_append, hcontents]
    · rw [hcon, greedy_append, hcontents]

/-! ## Runs of completions -/

/-- Every completion fits the free space posted for it. -/
def Posted (env : RecvEnv) (s₀ : RecvState) (chunks : List (List UInt8)) : Prop :=
  ∀ pre chunk, pre ++ [chunk] <+: chunks → ∀ s, runFn (receive env) s₀ pre = .ok s →
    chunk.length ≤ s.recvRingBuffer.getFreeSize

/-- After every completion, packets and ring agree with the greedy parse. -/
def Framing (env : RecvEnv) (s₀ : RecvState) (chunks : List (List UInt8)) : Prop :=
  ∀ pre, pre <+: chunks → ∃ s, runFn (receive env) s₀ pre = .ok s ∧ Agrees s pre.flatten

/-- Every completion finds its frames flush. -/
def CompletionsFlush (chunks : List (List UInt8)) : Prop :=
  ∀ pre chunk, pre ++ [chunk] <+: chunks → CompletionFlush pre.flatten chunk

theorem runFn_recvInv {n : Nat} {chunks : List (List UInt8)} (I : RecvInv s n)
    (h : runFn (receive env) s chunks = .ok t) : RecvInv t (n + chunks.flatten.length) := by
  induction chunks using List.reverseRecOn generalizing t with
  | nil => cases h; exact I
  | append_singleton chunks chunk ih =>
    rw [runFn_snoc] at h
    split at h
    · cases h
    · rename_i u hu
      have := (ih hu).receive h
      rwa [Nat.add_assoc, ← List.length_append, ← List.flatten_concat] at this

/-- As long as fewer bytes than the ring holds have come, the posted space never runs out. -/
theorem posted_of_short {mem : Nat → UInt8} {chunks : List (List UInt8)}
    (h : chunks.flatten.length < szRingBuffer_DEFAULT) :
    Posted env (RecvState.init mem) chunks := by
  rintro pre chunk ⟨post, rfl⟩ s hs
  have I := runFn_recvInv (RecvInv.init mem) hs
  have hfree := getFreeSize_eq I.valid
  have hunread := I.unread_le
  rw [I.size] at hfree
  simp only [List.flatten_append, List.length_append, List.flatten_cons, List.flatten_nil,
    List.append_nil] at h
  omega

/-- **Framing.**  From a new session, over every byte stream and every splitting of it into
completions that fit the posted space, the pushed packets and the unread bytes are those of the
greedy parse after every completion, if and only if every completion finds its frames flush. -/
theorem framing_iff (env : RecvEnv) (mem : Nat → UInt8) (chunks : List (List UInt8))
    (hp : Posted env (RecvState.init mem) chunks) :
    Framing env (RecvState.init mem) chunks ↔ CompletionsFlush chunks := by
  induction chunks using List.reverseRecOn with
  | nil =>
    refine ⟨fun _ pre chunk h => absurd (List.prefix_nil.mp h) (by simp), fun _ pre h => ?_⟩
    obtain rfl := List.prefix_nil.mp h
    exact ⟨_, rfl, Agrees.init mem⟩
  | append_singleton chunks chunk ih =>
    have ih := ih fun pre c h => hp pre c (h.trans (List.prefix_append _ _))
    constructor
    · intro hf pre c hpre
      rcases List.prefix_concat_iff.mp hpre with heq | hold
      · obtain ⟨rfl, hc⟩ := List.append_inj' heq rfl
        obtain rfl : c = chunk := by simpa using hc
        obtain ⟨s, hs, hagree⟩ := hf pre (List.prefix_append _ _)
        obtain ⟨t, ht, hagree'⟩ := hf (pre ++ [c]) (List.prefix_refl _)
        have I := runFn_recvInv (RecvInv.init mem) hs
        rw [Nat.zero_add] at I
        rw [runFn_snoc, hs] at ht
        rw [List.flatten_concat] at hagree'
        exact (receive_agrees_iff I hagree (hp _ _ (List.prefix_refl _) s hs)).mp ⟨t, ht, hagree'⟩
      · exact ih.mp (fun p h => hf p (h.trans (List.prefix_append _ _))) pre c hold
    · intro hflush pre hpre
      have hf := ih.mpr fun p c h => hflush p c (h.trans (List.prefix_append _ _))
      rcases List.prefix_concat_iff.mp hpre with rfl | hold
      · obtain ⟨s, hs, hagree⟩ := hf chunks (List.prefix_refl _)
        have I := runFn_recvInv (RecvInv.init mem) hs
        rw [Nat.zero_add] at I
        obtain ⟨t, ht, hagree'⟩ := (receive_agrees_iff I hagree
          (hp _ _ (List.prefix_refl _) s hs)).mpr (hflush _ _ (List.prefix_refl _))
        refine ⟨t, ?_, ?_⟩
        · rw [runFn_snoc, hs]; exact ht
        · rw [List.flatten_concat]; exact hagree'
      · exact hf pre hold

/-- A header cut after two bytes, the rest of its frame in the next completion. -/
theorem framing_iff_split_header :
    Framing ⟨fun _ _ => 0, fun _ => ⟨0, 0⟩⟩ (RecvState.init fun _ => 0) [[0x89, 1], [20, 7]] := by
  refine (framing_iff _ _ _ (posted_of_short (by decide))).mpr ?_
  intro pre chunk hpre
  rcases List.prefix_concat_iff.mp (show pre ++ [chunk] <+: [[0x89, 1]] ++ [[20, 7]] from hpre) with heq | hold
  · obtain ⟨rfl, hc⟩ := List.append_inj' heq rfl
    obtain rfl : chunk = [20, 7] := by simpa using hc
    have hpeel : peelFrame [0x89, 1, 20, 7] = some (⟨1, 20, [7], rfl⟩, []) := rfl
    rw [CompletionFlush, greedy_none rfl]
    simp only [List.flatten_cons, List.flatten_nil, List.append_nil, List.cons_append,
      List.nil_append, greedy_some hpeel, greedy_none (show peelFrame [] = none from rfl)]
    decide
  · obtain ⟨rfl, hc⟩ : pre = [] ∧ chunk = [0x89, 1] := by
      obtain ⟨post, h⟩ := hold
      cases pre with
      | nil => simpa using congrArg List.head? h
      | cons c pre => simp at h
    rw [CompletionFlush, List.flatten_nil, greedy_none rfl, List.nil_append, hc, greedy_none rfl]
    trivial

/-- Two empty frames in one completion: the first packet swallows the second frame. -/
theorem coalesced_frames_merge :
    Posted ⟨fun _ _ => 0, fun _ => ⟨0, 0⟩⟩ (RecvState.init fun _ => 0)
        [[0x89, 0, 20, 0x89, 0, 20]] ∧
      ¬ Framing ⟨fun _ _ => 0, fun _ => ⟨0, 0⟩⟩ (RecvState.init fun _ => 0)
        [[0x89, 0, 20, 0x89, 0, 20]] := by
  refine ⟨posted_of_short (by decide), fun h => ?_⟩
  obtain ⟨t, ht, hagree⟩ := h _ (List.prefix_refl _)
  rw [← List.nil_append [_], runFn_snoc] at ht
  have hpeel : peelFrame [0x89, 0, 20, 0x89, 0, 20] =
      some (⟨0, 20, [], rfl⟩, [0x89, 0, 20]) := rfl
  have hflush : CompletionFlush [] [0x89, 0, 20, 0x89, 0, 20] :=
    (receive_agrees_iff (RecvInv.init _) (Agrees.init _) (by decide)).mp ⟨t, ht, hagree⟩
  rw [CompletionFlush, greedy_none rfl, List.nil_append, greedy_some hpeel] at hflush
  exact absurd hflush.1 (by decide)

end IocpServer
