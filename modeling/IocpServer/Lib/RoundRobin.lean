import IocpServer.Lib.Window
import Mathlib.Data.List.Nodup
import Mathlib.Data.List.Perm.Basic
import Mathlib.Data.Nat.ModEq

/-!
# Going round a list in turns

`turns n start len` are `len` positions of a list of `n` entries, one after the other from `start`
on and from the end back to the front.  A scheduler scans a list once round from its cursor and
serves the first `chunk` entries that are `ready` (`served`).

* `turns_nodup`, `mem_turns` — at most one time round nothing is met twice, after one time round
  everything has been met.
* `count_turns` — a position is met `len / n` times, or once more.
* `served_nodup`, `served_of_few`, `served_of_gap` — whom one scan serves.
* `Contiguous` — scans each of which began where the one before had ended;
  `Contiguous.even_snoc` — **with one more scan they have served any two entries that are ready
  equally often, up to one.**
-/

set_option autoImplicit false

namespace Lib

def turns (n start len : Nat) : List Nat := window id n start len

variable {n start len i j chunk cursor : Nat} {ready : Nat → Bool}

@[simp] theorem length_turns (n start len : Nat) : (turns n start len).length = len :=
  length_window _ _ _ _

theorem turns_add (n start a b : Nat) :
    turns n start (a + b) = turns n start a ++ turns n ((start + a) % n) b :=
  window_add _ _ _ _ _

theorem turns_congr {start' : Nat} (h : start % n = start' % n) :
    turns n start len = turns n start' len := by
  unfold turns window
  refine List.map_congr_left fun i _ => ?_
  rw [← Nat.mod_add_mod, h, Nat.mod_add_mod]

theorem mem_turns_iff : i ∈ turns n start len ↔ ∃ k < len, (start + k) % n = i := by
  simp [turns, window]

theorem lt_of_mem_turns (h : i ∈ turns n start len) (hn : 0 < n) : i < n := by
  obtain ⟨k, -, rfl⟩ := mem_turns_iff.mp h
  exact Nat.mod_lt _ hn

theorem turns_nodup (h : len ≤ n) : (turns n start len).Nodup := by
  refine List.Nodup.map_on (fun a ha b hb hab => ?_) List.nodup_range
  rw [List.mem_range] at ha hb
  have same : (start + a) % n = (start + b) % n := hab
  have cancelled : a % n = b % n := Nat.ModEq.add_left_cancel' start same
  rwa [Nat.mod_eq_of_lt (by omega), Nat.mod_eq_of_lt (by omega)] at cancelled

/-- After one time round every position has been met. -/
theorem mem_turns (h : n ≤ len) (hi : i < n) : i ∈ turns n start len := by
  have below : start % n < n := Nat.mod_lt _ (by omega)
  refine mem_turns_iff.mpr ⟨(i + (n - start % n)) % n, ?_, ?_⟩
  · exact Nat.lt_of_lt_of_le (Nat.mod_lt _ (by omega)) h
  · rw [Nat.add_mod_mod, ← Nat.mod_add_mod,
      show start % n + (i + (n - start % n)) = i + n by omega, Nat.add_mod_right,
      Nat.mod_eq_of_lt hi]

theorem turns_perm (n start : Nat) : (turns n start n).Perm (List.range n) := by
  rcases Nat.eq_zero_or_pos n with rfl | hn
  · exact List.Perm.refl _
  · rw [List.perm_ext_iff_of_nodup (turns_nodup (Nat.le_refl n)) List.nodup_range]
    intro i
    rw [List.mem_range]
    exact ⟨fun h => lt_of_mem_turns h hn, mem_turns (Nat.le_refl n)⟩

theorem count_turns_round (hi : i < n) : (turns n start n).count i = 1 :=
  List.count_eq_one_of_mem (turns_nodup (Nat.le_refl n)) (mem_turns (Nat.le_refl n) hi)

/-- **A position is met once for every time round, and perhaps once more.** -/
theorem count_turns (hi : i < n) (start len : Nat) :
    len / n ≤ (turns n start len).count i ∧ (turns n start len).count i ≤ len / n + 1 := by
  induction len using Nat.strong_induction_on generalizing start with
  | _ len ih =>
    by_cases hlen : len < n
    · rw [Nat.div_eq_of_lt hlen]
      exact ⟨Nat.zero_le _, List.nodup_iff_count_le_one.mp (turns_nodup (Nat.le_of_lt hlen)) i⟩
    · obtain ⟨rest, rfl⟩ := Nat.exists_eq_add_of_le (Nat.le_of_not_lt hlen)
      obtain ⟨lower, upper⟩ := ih rest (by omega) ((start + n) % n)
      rw [turns_add, List.count_append, count_turns_round hi, Nat.add_div_left _ (by omega)]
      omega

/-! ## Serving -/

/-- Whom a scan once round from `cursor` serves: the first `chunk` positions that are ready. -/
def served (ready : Nat → Bool) (n chunk cursor : Nat) : List Nat :=
  ((turns n cursor n).filter ready).take chunk

theorem served_congr {ready' : Nat → Bool} (h : ∀ i < n, ready i = ready' i) :
    served ready n chunk cursor = served ready' n chunk cursor := by
  refine congrArg (List.take chunk) (List.filter_congr fun i hi => h i ?_)
  refine lt_of_mem_turns hi (Nat.pos_of_ne_zero fun hzero => ?_)
  rw [hzero] at hi
  cases hi

theorem served_nodup (ready : Nat → Bool) (n chunk cursor : Nat) :
    (served ready n chunk cursor).Nodup :=
  ((turns_nodup (Nat.le_refl n)).filter _).sublist (List.take_sublist _ _)

theorem take_filter {α : Type*} (p : α → Bool) (m : Nat) (xs : List α) :
    ∃ d ≤ xs.length, (xs.filter p).take m = (xs.take d).filter p := by
  induction xs generalizing m with
  | nil => exact ⟨0, Nat.le_refl _, by simp⟩
  | cons x xs ih =>
    by_cases hx : p x = true
    · cases m with
      | zero => exact ⟨0, Nat.zero_le _, by simp⟩
      | succ m =>
        obtain ⟨d, hd, heq⟩ := ih m
        refine ⟨d + 1, Nat.succ_le_succ hd, ?_⟩
        rw [List.filter_cons_of_pos hx, List.take_succ_cons, heq, List.take_succ_cons,
          List.filter_cons_of_pos hx]
    · obtain ⟨d, hd, heq⟩ := ih m
      refine ⟨d + 1, Nat.succ_le_succ hd, ?_⟩
      rw [List.filter_cons_of_neg hx, heq, List.take_succ_cons, List.filter_cons_of_neg hx]

/-- A scan serves those that are ready in a piece of the round. -/
theorem served_eq_filter (ready : Nat → Bool) (n chunk cursor : Nat) :
    ∃ d, served ready n chunk cursor = (turns n cursor d).filter ready := by
  obtain ⟨d, hd, heq⟩ := take_filter ready chunk (turns n cursor n)
  rw [length_turns] at hd
  exact ⟨d, heq.trans (congrArg _ (window_take id hd))⟩

/-- If `chunk` suffices for everybody who is ready, everybody is served. -/
theorem served_of_few (h : (List.range n).countP ready ≤ chunk) :
    served ready n chunk cursor = (turns n cursor n).filter ready := by
  refine List.take_of_length_le ?_
  rw [← List.countP_eq_length_filter, (turns_perm n cursor).countP_eq]
  exact h

/-- If `gap` entries are not ready and the `chunk` entries behind them are, these are served. -/
theorem served_of_gap {gap : Nat} (hfits : gap + chunk ≤ n)
    (hidle : ∀ i < gap, ready ((cursor + i) % n) = false)
    (hready : ∀ i < chunk, ready ((cursor + gap + i) % n) = true) :
    served ready n chunk cursor = turns n (cursor + gap) chunk := by
  obtain ⟨rest, rfl⟩ := Nat.exists_eq_add_of_le hfits
  have hnone : (turns (gap + chunk + rest) cursor gap).filter ready = [] := by
    refine List.filter_eq_nil_iff.mpr fun i hi => ?_
    obtain ⟨k, hk, rfl⟩ := mem_turns_iff.mp hi
    rw [hidle k hk]
    exact Bool.false_ne_true
  have hall : (turns (gap + chunk + rest) (cursor + gap) chunk).filter ready =
      turns (gap + chunk + rest) (cursor + gap) chunk := by
    refine List.filter_eq_self.mpr fun i hi => ?_
    obtain ⟨k, hk, rfl⟩ := mem_turns_iff.mp hi
    exact hready k hk
  have hround : turns (gap + chunk + rest) cursor (gap + chunk + rest) =
      turns (gap + chunk + rest) cursor gap ++ (turns (gap + chunk + rest) (cursor + gap) chunk ++
        turns (gap + chunk + rest) ((cursor + gap + chunk) % (gap + chunk + rest)) rest) := by
    rw [← turns_add, Nat.add_assoc gap chunk rest, turns_add,
      turns_congr (Nat.mod_mod _ _)]
  unfold served
  rw [hround, List.filter_append, List.filter_append, hnone, hall, List.nil_append,
    List.take_left' (by simp)]

/-- If the first `chunk` entries are ready, they are the ones that are served. -/
theorem served_of_all (hchunk : chunk ≤ n) (h : ∀ i < chunk, ready ((cursor + i) % n) = true) :
    served ready n chunk cursor = turns n cursor chunk :=
  @served_of_gap _ _ _ _ 0 (by omega) (fun _ hi => absurd hi (by omega)) h

/-- Any two positions that are ready occur equally often, up to one. -/
def Evenly (ready : Nat → Bool) (n : Nat) (positions : List Nat) : Prop :=
  ∀ i < n, ∀ j < n, ready i = true → ready j = true →
    positions.count i ≤ positions.count j + 1

theorem even_filter_turns (ready : Nat → Bool) (n start len : Nat) :
    Evenly ready n ((turns n start len).filter ready) := by
  intro i hi j hj hri hrj
  rw [List.count_filter hri, List.count_filter hrj]
  have upper := (count_turns hi start len).2
  have lower := (count_turns hj start len).1
  omega

/-- The scans in `log` have gone round from `start` without a gap or an overlap, up to `cursor`. -/
structure Contiguous (ready : Nat → Bool) (n chunk start : Nat) (log : List (List Nat))
    (cursor : Nat) : Prop where
  positions : log.flatten = (turns n start (chunk * log.length)).filter ready
  cursor_eq : cursor % n = (start + chunk * log.length) % n

theorem Contiguous.nil : Contiguous ready n chunk start [] start :=
  ⟨by simp [turns], by simp⟩

variable {log : List (List Nat)}

theorem Contiguous.even (h : Contiguous ready n chunk start log cursor) :
    Evenly ready n log.flatten := by
  rw [h.positions]
  exact even_filter_turns ready n start _

/-- A further scan, whomever it serves. -/
theorem Contiguous.even_snoc (h : Contiguous ready n chunk start log cursor) :
    Evenly ready n (log ++ [served ready n chunk cursor]).flatten := by
  obtain ⟨d, hd⟩ := served_eq_filter ready n chunk cursor
  rw [List.flatten_append, h.positions, List.flatten_singleton, hd,
    turns_congr (h.cursor_eq.trans (Nat.mod_mod _ _).symm), ← List.filter_append, ← turns_add]
  exact even_filter_turns ready n start _

/-- A further scan all of whose entries are ready. -/
theorem Contiguous.snoc (h : Contiguous ready n chunk start log cursor) (hchunk : chunk ≤ n)
    (hall : ∀ i < chunk, ready ((cursor + i) % n) = true) :
    Contiguous ready n chunk start (log ++ [served ready n chunk cursor])
      ((cursor + (served ready n chunk cursor).length) % n) := by
  have heq := served_of_all hchunk hall
  have hserved : served ready n chunk cursor = (turns n cursor chunk).filter ready := by
    rw [heq]
    refine (List.filter_eq_self.mpr fun i hi => ?_).symm
    obtain ⟨k, hk, rfl⟩ := mem_turns_iff.mp hi
    exact hall k hk
  have hnext : chunk * (log ++ [served ready n chunk cursor]).length =
      chunk * log.length + chunk := by
    rw [List.length_append, List.length_singleton, Nat.mul_succ]
  refine ⟨?_, ?_⟩
  · rw [hnext, turns_add, List.filter_append, List.flatten_append, h.positions,
      List.flatten_singleton, hserved,
      turns_congr (h.cursor_eq.trans (Nat.mod_mod _ _).symm)]
  · rw [hnext, heq, length_turns, Nat.mod_mod, ← Nat.mod_add_mod, h.cursor_eq, Nat.mod_add_mod,
      Nat.add_assoc]

/-- The scans in `log` have each served everybody who is ready. -/
def EveryTime (ready : Nat → Bool) (n : Nat) (log : List (List Nat)) : Prop :=
  ∀ i < n, ready i = true → log.flatten.count i = log.length

theorem EveryTime.nil : EveryTime ready n [] := fun _ _ _ => by simp

theorem EveryTime.snoc (h : EveryTime ready n log)
    (hfew : (List.range n).countP ready ≤ chunk) :
    EveryTime ready n (log ++ [served ready n chunk cursor]) := by
  intro i hi hready
  rw [List.flatten_append, List.flatten_singleton, List.count_append, h i hi hready,
    served_of_few hfew, List.count_filter hready, count_turns_round hi]
  simp

theorem EveryTime.even (h : EveryTime ready n log) : Evenly ready n log.flatten := by
  intro i hi j hj hri hrj
  rw [h i hi hri, h j hj hrj]
  omega

end Lib
