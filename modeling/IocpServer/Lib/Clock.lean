import Mathlib.Data.Nat.Basic

/-!
# A millisecond clock modulo 2^32

A word shows a time up to multiples of `2^32` milliseconds.  Comparing two shown times compares
the real ones as long as both lie in the same round of the clock.

* `wordLe_iff`, `wordAdd` — what the machine's comparison and sum say about the real times.
* `wordLe_right_iff` — when the unsigned comparison agrees with the real one.
* `signed`, `signedLt_iff` — the word read as an `int`, which jumps from the largest to the
  smallest value in the middle of a round.
* `timeout_right_iff` — when the signed test for a timeout agrees with the real one.
-/

set_option autoImplicit false

namespace Lib

/-- The word a clock shows at the real time `t`. -/
def shown (t : Nat) : UInt32 := UInt32.ofNat t

@[simp] theorem toNat_shown (t : Nat) : (shown t).toNat = t % 4294967296 :=
  UInt32.toNat_ofNat'

theorem wordAdd (t d : Nat) : shown t + shown d = shown (t + d) :=
  (UInt32.ofNat_add t d).symm

theorem wordLe_iff (s t : Nat) : shown s ≤ shown t ↔ s % 4294967296 ≤ t % 4294967296 := by
  rw [UInt32.le_iff_toNat_le, toNat_shown, toNat_shown]

/-- **A deadline that is at most one round behind the present one, or not reached by less than a
round, is compared rightly** exactly when both times lie in one round of the clock, or the
present time is rounds ahead and shows no less. -/
theorem wordLe_right_iff {deadline now : Nat} (h : deadline ≤ now + 4294967295) :
    (shown deadline ≤ shown now ↔ deadline ≤ now) ↔
      deadline / 4294967296 = now / 4294967296 ∨
        (deadline / 4294967296 < now / 4294967296 ∧
          deadline % 4294967296 ≤ now % 4294967296) := by
  rw [wordLe_iff]
  omega

/-! ## The word as an `int` -/

def signed (t : Nat) : Int32 := (shown t).toInt32

theorem signedAdd (t d : Nat) : signed t + signed d = signed (t + d) :=
  (Int32.ofNat_add t d).symm

/-- Seen from half a round earlier the signed clock counts up like the unsigned one. -/
theorem toInt_signed (t : Nat) :
    (signed t).toInt = ((t + 2147483648) % 4294967296 : Nat) - 2147483648 := by
  have h : (signed t).toInt = (t : Int).bmod 4294967296 := Int32.toInt_ofNat'
  rw [h, Int.bmod_def]
  omega

theorem signedLt_iff (s t : Nat) : signed s < signed t ↔
    (s + 2147483648) % 4294967296 < (t + 2147483648) % 4294967296 := by
  rw [Int32.lt_iff_toInt_lt, toInt_signed, toInt_signed]
  omega

/-- How long the signed clock still counts up from `t` before it jumps. -/
def untilJump (t : Nat) : Nat := 4294967295 - (t + 2147483648) % 4294967296

/-- Whether `stored < now` and `stored + limit < now`, both compared as `int`s, say that more than
`limit` has passed: the clock does not jump between `stored` and `now`, nor in `limit`; or it jumps
before `now`, and `limit` has not passed; or nothing has passed. -/
def TimesOut (stored passed limit : Nat) : Prop :=
  (passed ≤ untilJump stored ∧ limit ≤ untilJump stored) ∨
    (untilJump stored < passed ∧ passed ≤ limit) ∨ passed = 0

/-- **The signed test for a timeout is right exactly under `TimesOut`.** -/
theorem timeout_right_iff {stored passed limit : Nat} (hp : passed < 2147483648)
    (hl : limit < 2147483648) :
    (signed stored < signed (stored + passed) ∧
        signed (stored + limit) < signed (stored + passed) ↔ limit < passed) ↔
      TimesOut stored passed limit := by
  rw [signedLt_iff, signedLt_iff]
  unfold TimesOut untilJump
  omega

end Lib
