import Mathlib.Data.List.Infix

/-!
# Loops over a text that may return

`scan step done s l` runs over `l` in the state `s`: a pass sees its character and what is behind
it, and goes on in a new state or returns.  Behind the last character the loop ends with `done`.

* `scan_inl`, `scan_inr` — one pass.
* `scan_append` — **characters that leave the state alone are passed over**, whatever is behind
  them.
* `scan_eq_of_returns` — a loop that can only return one value.
* `scan_map` — a loop whose value is a function of another loop's.
-/

set_option autoImplicit false

namespace Lib

universe u v w

variable {σ : Type u} {α : Type v} {ρ : Type w}

def scan (step : σ → α → List α → σ ⊕ ρ) (done : σ → ρ) : σ → List α → ρ
  | s, [] => done s
  | s, a :: rest =>
    match step s a rest with
    | .inl s => scan step done s rest
    | .inr r => r

variable {step : σ → α → List α → σ ⊕ ρ} {done : σ → ρ} {s s' : σ} {a : α} {l rest : List α}
  {r : ρ}

theorem scan_inl (h : step s a rest = .inl s') :
    scan step done s (a :: rest) = scan step done s' rest := by
  rw [scan, h]

theorem scan_inr (h : step s a rest = .inr r) : scan step done s (a :: rest) = r := by
  rw [scan, h]

/-- **Characters that leave the state alone are passed over.** -/
theorem scan_append (h : ∀ a ∈ l, ∀ rest, step s a rest = .inl s) :
    scan step done s (l ++ rest) = scan step done s rest := by
  induction l with
  | nil => rfl
  | cons a l ih =>
    rw [List.cons_append, scan_inl (h a List.mem_cons_self _)]
    exact ih fun b hb => h b (List.mem_cons_of_mem a hb)

/-- A loop over `l` whose passes return `r` or go on, and that ends with `r`. -/
theorem scan_eq_of_returns (hdone : ∀ s, done s = r)
    (hstep : ∀ s a rest, a :: rest <:+ l → ∀ r', step s a rest = .inr r' → r' = r) :
    scan step done s l = r := by
  induction l generalizing s with
  | nil => exact hdone s
  | cons a l ih =>
    have hrest : ∀ s b rest, b :: rest <:+ l → ∀ r', step s b rest = .inr r' → r' = r :=
      fun s b rest hsuffix => hstep s b rest (hsuffix.trans (List.suffix_cons a l))
    cases h : step s a l with
    | inl s' =>
      rw [scan_inl h]
      exact ih hrest
    | inr r' =>
      rw [scan_inr h]
      exact hstep s a l List.suffix_rfl r' h

/-- A loop that returns a function of what another loop returns. -/
theorem scan_map {ρ' : Type w} {step' : σ → α → List α → σ ⊕ ρ'} {done' : σ → ρ'} (g : ρ → ρ')
    (hdone : ∀ s, done' s = g (done s))
    (hstep : ∀ s a rest, step' s a rest = (step s a rest).map id g) :
    scan step' done' s l = g (scan step done s l) := by
  induction l generalizing s with
  | nil => exact hdone s
  | cons a l ih =>
    have hstep := hstep s a l
    cases h : step s a l with
    | inl s' =>
      rw [h] at hstep
      rw [scan_inl h, scan_inl hstep]
      exact ih
    | inr r' =>
      rw [h] at hstep
      rw [scan_inr h, scan_inr hstep]

end Lib
