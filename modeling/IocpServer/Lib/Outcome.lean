import Mathlib.Data.List.Basic

/-!
# Postconditions of computations that can fail

`Outcome P E x`: if `x` returns, its value satisfies `P`; if it fails, its error satisfies `E`.

* `Outcome.bind`, `Outcome.ite` — the sequence and branch rules; `bind_eq_ok` — a sequence taken
  apart.
* `Outcome.foldlM` — **the loop rule**: what every pass of a loop keeps, the loop keeps;
  `Outcome.foldlM_done` — with an invariant that says which passes have been made.
* `Outcome.mapM` — a loop that only collects results; `Outcome.forall₂`, `mem_mapM`,
  `mem_flatten_mapM` — what it collects.
-/

set_option autoImplicit false

namespace Lib

universe u v

variable {ε : Type u} {α β σ : Type v} {P P' : α → Prop} {Q : β → Prop} {I : σ → Prop}
  {E E' : ε → Prop} {x : Except ε α} {f : α → Except ε β} {a : α} {e : ε}

def Outcome (P : α → Prop) (E : ε → Prop) : Except ε α → Prop
  | .ok a => P a
  | .error e => E e

@[simp] theorem outcome_ok : Outcome P E (.ok a) ↔ P a := Iff.rfl

@[simp] theorem outcome_error : Outcome P E (.error e) ↔ E e := Iff.rfl

theorem outcome_any : Outcome (fun _ => True) (fun _ => True) x := by
  cases x <;> trivial

theorem outcome_of_ok (h : ∀ a, x = .ok a → P a) : Outcome P (fun _ => True) x := by
  cases x with
  | ok a => exact h a rfl
  | error e => trivial

theorem Outcome.of_ok (h : Outcome P E x) (hx : x = .ok a) : P a := by
  rw [hx] at h
  exact h

theorem Outcome.of_error (h : Outcome P E x) (hx : x = .error e) : E e := by
  rw [hx] at h
  exact h

/-- A computation without errors returns. -/
theorem Outcome.exists_ok (h : Outcome P (fun _ => False) x) : ∃ a, x = .ok a ∧ P a := by
  cases x with
  | ok a => exact ⟨a, rfl, h⟩
  | error e => exact h.elim

theorem Outcome.weaken (h : Outcome P E x) (hP : ∀ a, P a → P' a) (hE : ∀ e, E e → E' e) :
    Outcome P' E' x := by
  cases x with
  | ok a => exact hP a h
  | error e => exact hE e h

/-- The error seen from a caller with more errors. -/
theorem Outcome.mapError {δ : Type u} {D : δ → Prop} {m : ε → δ}
    (hx : Outcome P (fun e => D (m e)) x) : Outcome P D (x.mapError m) := by
  cases x with
  | ok a => exact hx
  | error e => exact hx

theorem mapError_eq_ok {δ : Type u} {m : ε → δ} (h : x.mapError m = .ok a) : x = .ok a := by
  cases x with
  | ok b =>
    cases h
    rfl
  | error e => cases h

/-- **The sequence rule.** -/
theorem Outcome.bind (hx : Outcome P E x) (hf : ∀ a, P a → Outcome Q E (f a)) :
    Outcome Q E (x >>= f) := by
  cases x with
  | ok a => exact hf a hx
  | error e => exact hx

/-- What a sequence that returns has computed. -/
theorem bind_eq_ok {b : β} (h : x >>= f = .ok b) : ∃ a, x = .ok a ∧ f a = .ok b := by
  cases x with
  | ok a => exact ⟨a, rfl, h⟩
  | error e => cases h

theorem Outcome.ite {c : Prop} [Decidable c] {y : Except ε α} (hx : c → Outcome P E x)
    (hy : ¬ c → Outcome P E y) : Outcome P E (if c then x else y) := by
  split
  · rename_i h
    exact hx h
  · rename_i h
    exact hy h

/-- **The loop rule.** -/
theorem Outcome.foldlM {f : σ → β → Except ε σ} {l : List β} {s : σ} (h0 : I s)
    (hstep : ∀ s b, I s → b ∈ l → Outcome I E (f s b)) : Outcome I E (l.foldlM f s) := by
  induction l generalizing s with
  | nil => exact h0
  | cons b l ih =>
    rw [List.foldlM_cons]
    apply Outcome.bind (hstep s b h0 List.mem_cons_self)
    intro t ht
    exact ih ht fun s c hs hc => hstep s c hs (List.mem_cons_of_mem _ hc)

/-- The loop rule for an invariant of the passes made so far. -/
theorem Outcome.foldlM_done {J : List β → σ → Prop} {f : σ → β → Except ε σ} {l : List β} {s : σ}
    (h0 : J [] s) (hstep : ∀ done s b, J done s → Outcome (J (done ++ [b])) E (f s b)) :
    Outcome (J l) E (l.foldlM f s) := by
  have hrest : ∀ (rest done : List β) (s : σ), J done s →
      Outcome (J (done ++ rest)) E (rest.foldlM f s) := by
    intro rest
    induction rest with
    | nil =>
      intro done s h
      rw [List.append_nil]
      exact h
    | cons b rest ih =>
      intro done s h
      rw [List.foldlM_cons]
      apply Outcome.bind (hstep done s b h)
      intro t ht
      have hlater := ih (done ++ [b]) t ht
      rwa [List.append_assoc, List.singleton_append] at hlater
  exact hrest l [] s h0

/-- A loop that collects results fails only as its body does. -/
theorem Outcome.mapM {l : List α} (hstep : ∀ a ∈ l, Outcome (fun _ => True) E (f a)) :
    Outcome (fun _ => True) E (l.mapM f) := by
  induction l with
  | nil => trivial
  | cons a l ih =>
    rw [List.mapM_cons]
    apply Outcome.bind (hstep a List.mem_cons_self)
    intro b _
    apply Outcome.bind (ih fun c hc => hstep c (List.mem_cons_of_mem _ hc))
    intro bs _
    trivial

/-- What such a loop collects. -/
theorem Outcome.forall₂ {R : α → β → Prop} {l : List α}
    (hstep : ∀ a ∈ l, Outcome (R a) E (f a)) :
    Outcome (fun bs => List.Forall₂ R l bs) E (l.mapM f) := by
  induction l with
  | nil => exact .nil
  | cons a l ih =>
    rw [List.mapM_cons]
    apply Outcome.bind (hstep a List.mem_cons_self)
    intro b hb
    apply Outcome.bind (ih fun c hc => hstep c (List.mem_cons_of_mem _ hc))
    intro bs hbs
    exact .cons hb hbs

/-- What a loop collects. -/
theorem mem_mapM {l : List α} {bs : List β} {b : β} (h : l.mapM f = .ok bs) :
    b ∈ bs ↔ ∃ a ∈ l, f a = .ok b := by
  induction l generalizing bs with
  | nil =>
    cases h
    simp
  | cons a l ih =>
    rw [List.mapM_cons] at h
    obtain ⟨c, hc, htail⟩ := bind_eq_ok h
    obtain ⟨rest, hrest, heq⟩ := bind_eq_ok htail
    cases heq
    rw [List.mem_cons, ih hrest, List.exists_mem_cons_iff, hc, Except.ok.injEq, eq_comm]

/-- What a loop collects whose passes each give a list. -/
theorem mem_flatten_mapM {γ : Type v} {f : α → Except ε (List γ)} {l : List α}
    {parts : List (List γ)} {c : γ} (h : l.mapM f = .ok parts) :
    c ∈ parts.flatten ↔ ∃ a ∈ l, ∃ cs, f a = .ok cs ∧ c ∈ cs := by
  induction l generalizing parts with
  | nil =>
    cases h
    simp
  | cons a l ih =>
    rw [List.mapM_cons] at h
    obtain ⟨cs, hcs, htail⟩ := bind_eq_ok h
    obtain ⟨rest, hrest, heq⟩ := bind_eq_ok htail
    cases heq
    rw [List.flatten_cons, List.mem_append, ih hrest, List.exists_mem_cons_iff]
    simp [hcs]

end Lib
