import Mathlib.Logic.Relation
import Mathlib.Data.List.Induction

/-!
# Runs of a labelled transition relation under a condition on its steps

A step relation `R : σ → α → σ → Prop` and a step condition `ok : σ → α → Prop` (on the
state *before* a step and on the step's label).  `Run R ok s as t`: the labels `as` lead from
`s` to `t`, and every step satisfies `ok` in the state it is taken from.

* `Run.invariant` — what holds initially and is kept by every admitted step holds at the end
  of every run.
* `logged` — the relation with a log of what its steps put out.
* `runFn_iff_run` — the executable fold of a partial step function is the relational run.
-/

set_option autoImplicit false

namespace Lib

variable {σ α ε : Type*}

/-- A run all of whose steps satisfy `ok`; later steps are appended at the end. -/
inductive Run (R : σ → α → σ → Prop) (ok : σ → α → Prop) (s : σ) : List α → σ → Prop
  | nil : Run R ok s [] s
  | snoc {as : List α} {t u : σ} {a : α} (h : Run R ok s as t) (hok : ok t a) (hR : R t a u) :
      Run R ok s (as ++ [a]) u

/-- No condition on the steps. -/
def anyStep : σ → α → Prop := fun _ _ => True

variable {R : σ → α → σ → Prop} {ok : σ → α → Prop} {s t u : σ} {as bs : List α} {a : α}

/-- **The invariant rule.** -/
theorem Run.invariant {I : σ → Prop} (hr : Run R ok s as t) (h0 : I s)
    (hstep : ∀ x a y, I x → ok x a → R x a y → I y) : I t := by
  induction hr with
  | nil => exact h0
  | snoc _ hok hR ih => exact hstep _ _ _ ih hok hR

theorem Run.weaken {ok' : σ → α → Prop} (hr : Run R ok s as t)
    (h : ∀ x a, ok x a → ok' x a) : Run R ok' s as t := by
  induction hr with
  | nil => exact .nil
  | snoc _ hok hR ih => exact ih.snoc (h _ _ hok) hR

/-- Conditions that agree as long as an invariant holds, which both of them keep, admit the same
runs. -/
theorem run_congr_of_invariant {ok' : σ → α → Prop} {I : σ → Prop} (h0 : I s)
    (h : ∀ x a y, I x → R x a y → (ok x a ↔ ok' x a))
    (keep : ∀ x a y, I x → ok x a → R x a y → I y) : Run R ok s as t ↔ Run R ok' s as t := by
  constructor
  · intro hr
    induction hr with
    | nil => exact .nil
    | snoc before hok hR ih =>
      exact ih.snoc ((h _ _ _ (before.invariant h0 keep) hR).mp hok) hR
  · intro hr
    have both : Run R ok s as t ∧ I t := by
      induction hr with
      | nil => exact ⟨.nil, h0⟩
      | snoc _ hok hR ih =>
        have admitted := (h _ _ _ ih.2 hR).mpr hok
        exact ⟨ih.1.snoc admitted hR, keep _ _ _ ih.2 admitted hR⟩
    exact both.1

/-- Conditions that agree on the steps admit the same runs. -/
theorem run_congr {ok' : σ → α → Prop} (h : ∀ x a y, R x a y → (ok x a ↔ ok' x a)) :
    Run R ok s as t ↔ Run R ok' s as t :=
  run_congr_of_invariant (I := fun _ => True) trivial (fun x a y _ => h x a y)
    (fun _ _ _ _ _ _ => trivial)

theorem Run.trans (h₁ : Run R ok s as t) (h₂ : Run R ok t bs u) : Run R ok s (as ++ bs) u := by
  induction h₂ with
  | nil => simpa using h₁
  | snoc _ hok hR ih => rw [← List.append_assoc]; exact .snoc ih hok hR

/-- A first step in front of a run. -/
theorem Run.cons (hR : R s a t) (hok : ok s a) (hr : Run R ok t as u) : Run R ok s (a :: as) u :=
  have first : Run R ok s ([] ++ [a]) t := .snoc .nil hok hR
  first.trans hr

/-! ## Logs -/

/-- `R` with a log beside the state: a step appends `out`, of the state it is taken from and its
label. -/
def logged {β : Type*} (R : σ → α → σ → Prop) (out : σ → α → List β) :
    σ × List β → α → σ × List β → Prop :=
  fun x a y => R x.1 a y.1 ∧ y.2 = x.2 ++ out x.1 a

theorem Run.consLogged {β : Type*} {out : σ → α → List β} {ok : σ × List β → α → Prop}
    {log : List β} {y : σ × List β} (hR : R s a t) (hok : ok (s, log) a)
    (hr : Run (Lib.logged R out) ok (t, log ++ out s a) as y) :
    Run (Lib.logged R out) ok (s, log) (a :: as) y :=
  .cons ⟨hR, rfl⟩ hok hr

/-! ## Executable runs -/

/-- Fold a step function that may fail over a list of labels. -/
def runFn (step : σ → α → Except ε σ) (s : σ) : List α → Except ε σ
  | [] => .ok s
  | a :: as =>
    match step s a with
    | .error e => .error e
    | .ok t => runFn step t as

theorem runFn_append {step : σ → α → Except ε σ} (s : σ) (as bs : List α) :
    runFn step s (as ++ bs) =
      match runFn step s as with
      | .error e => .error e
      | .ok t => runFn step t bs := by
  induction as generalizing s with
  | nil => rfl
  | cons a as ih =>
    simp only [List.cons_append, runFn]
    cases step s a with
    | error e => rfl
    | ok t => exact ih t

theorem runFn_snoc {step : σ → α → Except ε σ} (s : σ) (as : List α) (a : α) :
    runFn step s (as ++ [a]) =
      match runFn step s as with
      | .error e => .error e
      | .ok t => step t a := by
  rw [runFn_append]
  cases runFn step s as with
  | error e => rfl
  | ok t => simp only [runFn]; cases step t a <;> rfl

/-- The executable fold succeeds exactly along the relational runs. -/
theorem runFn_iff_run {step : σ → α → Except ε σ} {s t : σ} {as : List α} :
    runFn step s as = .ok t ↔ Run (fun x a y => step x a = .ok y) anyStep s as t := by
  constructor
  · intro h
    induction as using List.reverseRecOn generalizing t with
    | nil => simp only [runFn, Except.ok.injEq] at h; subst h; exact .nil
    | append_singleton as a ih =>
      rw [runFn_snoc] at h
      split at h
      · cases h
      · rename_i x hx
        exact .snoc (ih hx) trivial h
  · intro h
    induction h with
    | nil => rfl
    | snoc _ _ hR ih => rw [runFn_snoc, ih]; exact hR

end Lib
