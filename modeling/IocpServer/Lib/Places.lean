import Mathlib.Data.List.Nodup
import Mathlib.Logic.Function.Basic

/-!
# Elements kept in one place each

`place x` says where the element `x` is; `Tracks place q l`: the list `l` holds the elements whose
place is `q`, each once.  When one element moves, the lists of two places change and the others do
not.

* `Tracks.count_eq_one`, `Tracks.count_eq_zero` — how often an element is in the list of a place.
* `Tracks.update_of_ne` — the list of a place that is neither left nor entered.
* `Tracks.add`, `Tracks.remove` — the list of the place that is entered, or left.
-/

set_option autoImplicit false

namespace Lib

variable {ι π : Type*} {place : ι → π} {p q : π} {l l' : List ι} {x : ι}

structure Tracks (place : ι → π) (q : π) (l : List ι) : Prop where
  nodup : l.Nodup
  mem : ∀ x, x ∈ l ↔ place x = q

theorem Tracks.perm (h : Tracks place q l) (hp : l.Perm l') : Tracks place q l' :=
  ⟨hp.nodup_iff.mp h.nodup, fun x => hp.mem_iff.symm.trans (h.mem x)⟩

theorem Tracks.not_mem (h : Tracks place q l) (hx : place x ≠ q) : x ∉ l :=
  fun hmem => hx ((h.mem x).mp hmem)

variable [DecidableEq ι]

theorem Tracks.count_eq_one (h : Tracks place q l) (hx : place x = q) : l.count x = 1 :=
  List.count_eq_one_of_mem h.nodup ((h.mem x).mpr hx)

theorem Tracks.count_eq_zero (h : Tracks place q l) (hx : place x ≠ q) : l.count x = 0 :=
  List.count_eq_zero.mpr (h.not_mem hx)

theorem Tracks.update_of_ne (h : Tracks place q l) (hx : place x ≠ q) (hp : p ≠ q) :
    Tracks (Function.update place x p) q l := by
  refine ⟨h.nodup, fun y => ?_⟩
  by_cases hy : y = x
  · subst hy
    rw [Function.update_self]
    exact iff_of_false (h.not_mem hx) hp
  · rw [Function.update_of_ne hy]
    exact h.mem y

theorem Tracks.add (h : Tracks place q l) (hx : place x ≠ q) :
    Tracks (Function.update place x q) q (x :: l) := by
  refine ⟨List.nodup_cons.mpr ⟨h.not_mem hx, h.nodup⟩, fun y => ?_⟩
  by_cases hy : y = x
  · subst hy
    simp
  · rw [Function.update_of_ne hy, List.mem_cons, or_iff_right hy]
    exact h.mem y

theorem Tracks.remove (h : Tracks place q (x :: l)) (hp : p ≠ q) :
    Tracks (Function.update place x p) q l := by
  obtain ⟨hx, hl⟩ := List.nodup_cons.mp h.nodup
  refine ⟨hl, fun y => ?_⟩
  by_cases hy : y = x
  · subst hy
    rw [Function.update_self]
    exact iff_of_false hx hp
  · rw [Function.update_of_ne hy, ← h.mem y, List.mem_cons, or_iff_right hy]

end Lib
