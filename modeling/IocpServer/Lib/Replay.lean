import Mathlib.Data.List.Basic

/-!
# What a list of events makes of a state

A listener replays the events it gets, one after the other.  Of most lists only one question
matters: whether they concern the listener, and what they do if so.

* `ActsIf` — the events change every state as `f` does if the condition holds, and not at all
  otherwise.
* `ActsIf.append`, `ActsIf.flatten`, `ActsIf.each` — **for an `f` that is the same twice as once,
  repetitions do not matter**: a pass over some keys acts if it meets one that is the listener's.
-/

set_option autoImplicit false

namespace Lib

universe u v

variable {σ : Type u} {ε κ : Type v} {apply : σ → ε → σ} {c c' : Prop} {events events' : List ε}
  {f : σ → σ} {s : σ}

/-- What the events do. -/
structure ActsIf (apply : σ → ε → σ) (c : Prop) (events : List ε) (f : σ → σ) : Prop where
  acts : c → ∀ s, events.foldl apply s = f s
  idle : ¬c → ∀ s, events.foldl apply s = s

theorem ActsIf.nil (hc : ¬c) : ActsIf apply c [] f :=
  ⟨fun h => absurd h hc, fun _ _ => rfl⟩

theorem ActsIf.congr (h : ActsIf apply c events f) (hc : c' ↔ c) : ActsIf apply c' events f :=
  ⟨fun h' => h.acts (hc.mp h'), fun h' => h.idle (mt hc.mpr h')⟩

theorem ActsIf.as {f' : σ → σ} (h : ActsIf apply c events f) (hf : c → f = f') :
    ActsIf apply c events f' :=
  ⟨fun hc => hf hc ▸ h.acts hc, h.idle⟩

/-- Two lists after each other. -/
theorem ActsIf.append (h : ActsIf apply c events f) (h' : ActsIf apply c' events' f)
    (hf : ∀ s, f (f s) = f s) : ActsIf apply (c ∨ c') (events ++ events') f := by
  constructor
  · intro hor s
    rw [List.foldl_append]
    by_cases hc : c
    · rw [h.acts hc]
      by_cases hc' : c'
      · rw [h'.acts hc', hf]
      · rw [h'.idle hc']
    · rw [h.idle hc, h'.acts (hor.resolve_left hc)]
  · intro hnor s
    rw [List.foldl_append, h.idle fun hc => hnor (Or.inl hc), h'.idle fun hc => hnor (Or.inr hc)]

/-- **A pass whose keys each give a list.** -/
theorem ActsIf.flatten {P : κ → Prop} {keys : List κ} {parts : List (List ε)}
    (h : List.Forall₂ (fun key part => ActsIf apply (P key) part f) keys parts)
    (hf : ∀ s, f (f s) = f s) : ActsIf apply (∃ key ∈ keys, P key) parts.flatten f := by
  induction h with
  | nil => exact ActsIf.nil fun h => h.elim fun _ h => List.not_mem_nil h.1
  | cons hpart _ ih => exact (hpart.append ih hf).congr (List.exists_mem_cons_iff _ _ _)

/-- **A pass whose keys each give one event.** -/
theorem ActsIf.each {P : κ → Prop} {keys : List κ}
    (h : List.Forall₂ (fun key event => ActsIf apply (P key) [event] f) keys events)
    (hf : ∀ s, f (f s) = f s) : ActsIf apply (∃ key ∈ keys, P key) events f := by
  induction h with
  | nil => exact ActsIf.nil fun h => h.elim fun _ h => List.not_mem_nil h.1
  | cons hevent _ ih => exact (hevent.append ih hf).congr (List.exists_mem_cons_iff _ _ _)

end Lib
