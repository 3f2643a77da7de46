import IocpServer.Lib.Scan

/-!
# Searching a text for a pattern

`search pass pattern s l` looks for `pattern` in `l`.  Each pass stops the search, goes on in a new
state, or looks whether the pattern begins at its character; what it does depends on the state, the
character and the next one.

* `search_split` — where the pattern was found.
* `Searches` — a loop that searches, and may give up where the rest is too short.
* `Searches.scan_eq` — **such a loop is a search.**
-/

set_option autoImplicit false

namespace Lib

universe u v w

variable {σ : Type u} {α : Type v} {ρ : Type w}

inductive Pass (σ : Type u) where
  | stop
  | go (s : σ)
  | look

section

variable [DecidableEq α]

/-- The state in front of the pattern, and the text behind it. -/
def search (pass : σ → α → Option α → Pass σ) (pattern : List α) :
    σ → List α → Option (σ × List α)
  | _, [] => none
  | s, a :: rest =>
    match pass s a rest.head? with
    | .stop => none
    | .go s => search pass pattern s rest
    | .look =>
      if pattern ≠ [] ∧ pattern <+: a :: rest then some (s, (a :: rest).drop pattern.length)
      else search pass pattern s rest

variable {pass : σ → α → Option α → Pass σ} {pattern l rest behind : List α} {s s' : σ} {a : α}

theorem search_stop (h : pass s a rest.head? = .stop) :
    search pass pattern s (a :: rest) = none := by
  rw [search, h]

theorem search_go (h : pass s a rest.head? = .go s') :
    search pass pattern s (a :: rest) = search pass pattern s' rest := by
  rw [search, h]

theorem search_hit (h : pass s a rest.head? = .look) (hne : pattern ≠ [])
    (hbegins : pattern <+: a :: rest) :
    search pass pattern s (a :: rest) = some (s, (a :: rest).drop pattern.length) := by
  rw [search, h]
  exact if_pos ⟨hne, hbegins⟩

theorem search_miss (h : pass s a rest.head? = .look)
    (hnot : ¬(pattern ≠ [] ∧ pattern <+: a :: rest)) :
    search pass pattern s (a :: rest) = search pass pattern s rest := by
  rw [search, h]
  exact if_neg hnot

/-- **The pattern stands where it was found.** -/
theorem search_split (h : search pass pattern s l = some (s', behind)) :
    pattern ≠ [] ∧ ∃ front, l = front ++ pattern ++ behind := by
  induction l generalizing s with
  | nil => cases h
  | cons a l ih =>
    have hlater : ∀ {s}, search pass pattern s l = some (s', behind) →
        pattern ≠ [] ∧ ∃ front, a :: l = front ++ pattern ++ behind := by
      intro s h
      obtain ⟨hne, front, rfl⟩ := ih h
      exact ⟨hne, a :: front, rfl⟩
    cases hpass : pass s a l.head? with
    | stop =>
      rw [search_stop hpass] at h
      cases h
    | go s₁ =>
      rw [search_go hpass] at h
      exact hlater h
    | look =>
      by_cases hhere : pattern ≠ [] ∧ pattern <+: a :: l
      · obtain ⟨hne, t, ht⟩ := hhere
        rw [search_hit hpass hne ⟨t, ht⟩, ← ht, List.drop_left] at h
        cases h
        exact ⟨hne, [], ht.symm⟩
      · rw [search_miss hpass hhere] at h
        exact hlater h

/-- Nothing is found in a text that is shorter. -/
theorem search_short (h : l.length < pattern.length) : search pass pattern s l = none := by
  cases hfound : search pass pattern s l with
  | none => rfl
  | some found =>
    obtain ⟨-, front, rfl⟩ := search_split hfound
    rw [List.length_append, List.length_append] at h
    omega

/-- A loop that searches: `hit` is what it returns where the pattern begins. -/
structure Searches (step : σ → α → List α → σ ⊕ Option ρ) (pass : σ → α → Option α → Pass σ)
    (pattern : List α) (hit : σ → List α → Option ρ) : Prop where
  stop : ∀ s a rest, pass s a rest.head? = .stop → step s a rest = .inr none
  go : ∀ s a rest s', pass s a rest.head? = .go s' → step s a rest = .inl s'
  hit : ∀ s a rest, pass s a rest.head? = .look → pattern ≠ [] → pattern <+: a :: rest →
    step s a rest = .inr (hit s ((a :: rest).drop pattern.length))
  miss : ∀ s a rest, pass s a rest.head? = .look → ¬(pattern ≠ [] ∧ pattern <+: a :: rest) →
    step s a rest = .inl s ∨ step s a rest = .inr none ∧ rest.length < pattern.length

/-- **Such a loop is a search.** -/
theorem Searches.scan_eq {step : σ → α → List α → σ ⊕ Option ρ} {hit : σ → List α → Option ρ}
    (S : Searches step pass pattern hit) :
    scan step (fun _ => none) s l = (search pass pattern s l).bind fun x => hit x.1 x.2 := by
  induction l generalizing s with
  | nil => rfl
  | cons a l ih =>
    cases hpass : pass s a l.head? with
    | stop =>
      rw [search_stop hpass]
      exact scan_inr (S.stop s a l hpass)
    | go s₁ =>
      rw [search_go hpass, ← ih]
      exact scan_inl (S.go s a l s₁ hpass)
    | look =>
      by_cases hhere : pattern ≠ [] ∧ pattern <+: a :: l
      · rw [search_hit hpass hhere.1 hhere.2]
        exact scan_inr (S.hit s a l hpass hhere.1 hhere.2)
      · rw [search_miss hpass hhere]
        rcases S.miss s a l hpass hhere with hstep | ⟨hstep, hshort⟩
        · rw [← ih]
          exact scan_inl hstep
        · rw [search_short hshort]
          exact scan_inr hstep

end

end Lib
