import Mathlib.Data.List.Basic

/-!
# Incremental parsing by peeling records off a stream

A `Peeler` takes one record off the front of an element sequence, or says that there is none
(yet).  It must consume something, and appending more input must not change a record that is
already complete; these two laws are fields.

* `Peeler.parse` — the greedy parse: records in order and the unparsed remainder.
* `Peeler.parse_append` — **the parse is incremental**: parsing what has arrived and then the
  remainder followed by what arrives next gives the parse of everything, so the cuts between
  chunks do not matter.
* `Peeler.parse_prefix` — a prefix gives a prefix of the records.
* `Peeler.parse_encoded` — a stream of encoded records, broken off anywhere, gives the complete
  ones, and the remainder is the beginning of the next.
-/

set_option autoImplicit false

namespace Lib

variable {α β : Type*}

structure Peeler (α β : Type*) where
  peel : List α → Option (β × List α)
  shrinks : ∀ {xs b ys}, peel xs = some (b, ys) → ys.length < xs.length
  stable : ∀ {xs b ys} (zs : List α), peel xs = some (b, ys) → peel (xs ++ zs) = some (b, ys ++ zs)

namespace Peeler

variable (P : Peeler α β)

/-- The greedy parse. -/
def parse (xs : List α) : List β × List α :=
  match h : P.peel xs with
  | none => ([], xs)
  | some (b, ys) =>
    have := P.shrinks h
    (b :: (parse ys).1, (parse ys).2)
termination_by xs.length

variable {P}

theorem parse_none {xs : List α} (h : P.peel xs = none) : P.parse xs = ([], xs) := by
  rw [parse]
  split
  · rfl
  · rename_i hs; rw [h] at hs; cases hs

theorem parse_some {xs ys : List α} {b : β} (h : P.peel xs = some (b, ys)) :
    P.parse xs = (b :: (P.parse ys).1, (P.parse ys).2) := by
  rw [parse]
  split
  · rename_i hs; rw [h] at hs; cases hs
  · rename_i b' ys' hs
    rw [h] at hs
    cases hs
    rfl

/-- **Greedy parsing is incremental.** -/
theorem parse_append (xs zs : List α) :
    P.parse (xs ++ zs) =
      ((P.parse xs).1 ++ (P.parse ((P.parse xs).2 ++ zs)).1,
        (P.parse ((P.parse xs).2 ++ zs)).2) := by
  induction hn : xs.length using Nat.strongRecOn generalizing xs with
  | ind n ih =>
    cases h : P.peel xs with
    | none => rw [parse_none h]; rfl
    | some r =>
      obtain ⟨b, ys⟩ := r
      rw [parse_some h, parse_some (P.stable zs h)]
      simp only [ih ys.length (hn ▸ P.shrinks h) ys rfl, List.cons_append]

/-- What a prefix is parsed into. -/
theorem parse_prefix {xs ys : List α} (h : xs <+: ys) : (P.parse xs).1 <+: (P.parse ys).1 := by
  obtain ⟨zs, rfl⟩ := h
  rw [parse_append]
  exact List.prefix_append _ _

theorem parse_nil : P.parse [] = ([], []) := by
  refine parse_none ?_
  cases h : P.peel [] with
  | none => rfl
  | some r => exact absurd (P.shrinks h) (Nat.not_lt_zero _)

variable {encode : β → List α} {bs : List β} {xs : List α}

/-- A record is not taken off before it is complete. -/
theorem peel_incomplete (law : ∀ b zs, P.peel (encode b ++ zs) = some (b, zs)) {b : β}
    (h : xs <+: encode b) (short : xs.length < (encode b).length) : P.peel xs = none := by
  cases hp : P.peel xs with
  | none => rfl
  | some r =>
    obtain ⟨zs, hzs⟩ := h
    have complete := law b []
    rw [List.append_nil, ← hzs, P.stable zs hp] at complete
    have rest := congrArg (fun r => r.map (List.length ∘ Prod.snd)) complete
    simp only [Option.map_some, Function.comp_apply, List.length_append, List.length_nil,
      Option.some.injEq] at rest
    have length := congrArg List.length hzs
    rw [List.length_append] at length
    omega

/-- **A stream of encoded records, broken off anywhere.** -/
theorem parse_encoded (law : ∀ b zs, P.peel (encode b ++ zs) = some (b, zs))
    (h : xs <+: bs.flatMap encode) :
    (P.parse xs).1 <+: bs ∧ xs = (P.parse xs).1.flatMap encode ++ (P.parse xs).2 ∧
      ∀ b, bs[(P.parse xs).1.length]? = some b → (P.parse xs).2.length < (encode b).length := by
  induction bs generalizing xs with
  | nil =>
    obtain rfl := List.prefix_nil.1 h
    rw [parse_nil]
    exact ⟨List.prefix_refl _, rfl, nofun⟩
  | cons b bs ih =>
    rw [List.flatMap_cons] at h
    by_cases short : xs.length < (encode b).length
    · have inside : xs <+: encode b :=
        List.prefix_of_prefix_length_le h (List.prefix_append _ _) (Nat.le_of_lt short)
      rw [parse_none (peel_incomplete law inside short)]
      refine ⟨List.nil_prefix, rfl, fun b' hb' => ?_⟩
      obtain rfl : b = b' := by simpa using hb'
      exact short
    · obtain ⟨zs, rfl⟩ : encode b <+: xs :=
        List.prefix_of_prefix_length_le (List.prefix_append _ _) h (Nat.le_of_not_lt short)
      obtain ⟨records, stream, rest⟩ := ih ((List.prefix_append_right_inj _).1 h)
      rw [parse_some (law b zs)]
      refine ⟨(List.prefix_append_right_inj [b]).2 records, ?_, fun b' hb' => rest b' hb'⟩
      rw [List.flatMap_cons, List.append_assoc, ← stream]

end Peeler

end Lib
