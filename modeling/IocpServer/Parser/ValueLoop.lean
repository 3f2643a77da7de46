import IocpServer.Parser.StringSlice

/-!
# The six overloads as one

What the value loops of the six overloads have in common, whatever the type of the value.

* `QuoteScan` — the value loop for strings by what it has read, without indices.
* `ValueLoop` — a loop that looks for `=` and then reads a value, up to the newline.
* `Kind.loop` — **the value loops are such loops.**
* `SameLine` — texts with the same first line: the loops read the same from them.
* `Overload.getValue_eq` — every overload finds its key and reads behind it.
-/

set_option autoImplicit false

namespace IocpServer

open Lib

namespace Parser

/-! ## Strings -/

/-- The value loop for strings: in front of `=`, in front of the quote, between the quotes behind
`x`, or behind the value `x`. -/
inductive QuoteScan where
  | seek
  | ready
  | inside (x : Text)
  | closed (x : Text)

namespace QuoteScan

def step (v : QuoteScan) (c : WChar) (_rest : Text) : QuoteScan ⊕ Except Fault (Option Text) :=
  match v with
  | seek => if c = 0x0a then .inr (.ok none) else .inl (if c = wchar '=' then ready else seek)
  | ready => if c = 0x0a then .inr (.ok none) else .inl (if c = wchar '"' then inside [] else ready)
  | inside x =>
    if c = 0x0a then .inr (.ok none)
    else .inl (if c = wchar '"' then closed x else inside (x ++ [c]))
  | closed x => .inr (.ok (some x))

def done : QuoteScan → Except Fault (Option Text)
  | seek => .ok (some [])
  | ready => .ok (some [])
  | inside _ => .error .negativeSize
  | closed x => .ok (some x)

end QuoteScan

variable {buffer rest l t t' x : Text} {c : WChar}

theorem quoteScan_closed : scan QuoteScan.step QuoteScan.done (.closed x) l = .ok (some x) := by
  cases l <;> rfl

/-- Between the quotes. -/
theorem scanString_inside (hlength : (x ++ l).length < buffer.length) :
    scan StringScan.step StringScan.found ⟨true, true, false, x ++ l, buffer⟩ l =
      scan QuoteScan.step QuoteScan.done (.inside x) l := by
  induction l generalizing x with
  | nil =>
    rw [List.append_nil] at hlength ⊢
    exact found_unclosed hlength
  | cons c l ih =>
    by_cases hnewline : c = 0x0a
    · subst hnewline
      rfl
    by_cases hquote : c = wchar '"'
    · subst hquote
      exact (scan_closed rfl).trans quoteScan_closed.symm
    have hstep : QuoteScan.step (.inside x) c l = .inl (.inside (x ++ [c])) := by
      simp [QuoteScan.step, hnewline, hquote]
    have hother := @stringStep_other l c true (x ++ c :: l) buffer
      (by simp [isQuote, hnewline, hquote])
    have happend : x ++ c :: l = (x ++ [c]) ++ l := by
      rw [List.append_assoc, List.singleton_append]
    rw [scan_inl hstep, scan_inl hother, happend]
    exact ih (happend ▸ hlength)

/-- Behind `=`. -/
theorem scanString_ready (hlength : l.length ≤ buffer.length) :
    scan StringScan.step StringScan.found ⟨true, false, false, buffer, buffer⟩ l =
      scan QuoteScan.step QuoteScan.done .ready l := by
  induction l with
  | nil => exact found_unquoted
  | cons c l ih =>
    rw [List.length_cons] at hlength
    by_cases hnewline : c = 0x0a
    · subst hnewline
      rfl
    by_cases hquote : c = wchar '"'
    · subst hquote
      exact @scanString_inside buffer l [] hlength
    have hstep : QuoteScan.step .ready c l = .inl .ready := by
      simp [QuoteScan.step, hnewline, hquote]
    have hother := @stringStep_other l c false buffer buffer
      (by simp [isQuote, hnewline, hquote])
    rw [scan_inl hstep, scan_inl hother]
    exact ih (by omega)

/-- **The value loop for strings** does not depend on what is in front of the key. -/
theorem readString_eq_quote (hlength : rest.length ≤ buffer.length) :
    readString buffer rest = scan QuoteScan.step QuoteScan.done .seek rest := by
  unfold readString
  induction rest with
  | nil => exact found_unquoted
  | cons c l ih =>
    rw [List.length_cons] at hlength
    by_cases hnewline : c = 0x0a
    · subst hnewline
      rfl
    by_cases hequals : c = wchar '='
    · subst hequals
      exact @scanString_ready buffer l (by omega)
    have hstep : QuoteScan.step .seek c l = .inl .seek := by
      simp [QuoteScan.step, hnewline, hequals]
    have hother : StringScan.step ⟨false, false, false, buffer, buffer⟩ c l =
        .inl ⟨false, false, false, buffer, buffer⟩ := by
      simp [StringScan.step, hnewline, hequals]
    rw [scan_inl hstep, scan_inl hother]
    exact ih (by omega)

theorem isBlank_cases (h : isBlank c = true) : c = 0x20 ∨ c = 0x08 ∨ c = 0x09 := by
  simpa [isBlank, or_assoc] using h

/-! ## A value loop -/

/-- A loop that looks for `=` and then reads a value, character by character, and that returns at a
newline. -/
structure ValueLoop (ρ : Type) where
  σ : Type
  step : σ → WChar → Text → σ ⊕ ρ
  done : σ → ρ
  seek : σ
  ready : σ
  missing : ρ
  seeks : SeeksEquals step seek ready missing
  rest : ∀ s c t t', step s c t = step s c t'
  blank : ∀ c t, isBlank c = true → step ready c t = .inl ready
  newline : ∀ s t, ∃ r, step s 0x0a t = .inr r

/-- The same first line, newline and all. -/
inductive SameLine : Text → Text → Prop
  | nil : SameLine [] []
  | newline (t t' : Text) : SameLine (0x0a :: t) (0x0a :: t')
  | cons (c : WChar) (t t' : Text) (hc : c ≠ 0x0a) (h : SameLine t t') :
    SameLine (c :: t) (c :: t')

namespace ValueLoop

variable {ρ : Type} (L : ValueLoop ρ)

/-- From `seekKey` on. -/
def read (t : Text) : ρ := scan L.step L.done L.seek t

/-- From behind `=` on. -/
def value (t : Text) : ρ := scan L.step L.done L.ready t

variable {L}

theorem read_newline : L.read (0x0a :: t) = L.missing := scan_inr (L.seeks.newline t)

theorem read_equals : L.read (wchar '=' :: t) = L.value t := scan_inl (L.seeks.equals t)

theorem read_append (h : ∀ c ∈ l, isEquals c = false) : L.read (l ++ t) = L.read t :=
  scan_append fun c hc t => L.seeks.other c t (h c hc)

theorem value_blanks (h : ∀ c ∈ l, isBlank c = true) : L.value (l ++ t) = L.value t :=
  scan_append fun c hc t => L.blank c t (h c hc)

/-- **The first line decides.** -/
theorem scan_sameLine (h : SameLine t t') (s : L.σ) :
    scan L.step L.done s t = scan L.step L.done s t' := by
  induction h generalizing s with
  | nil => rfl
  | newline t t' =>
    obtain ⟨r, hr⟩ := L.newline s t
    rw [scan_inr hr, scan_inr ((L.rest s _ t' t).trans hr)]
  | cons c t t' hc h ih =>
    cases hstep : L.step s c t with
    | inl s' =>
      rw [scan_inl hstep, scan_inl ((L.rest s c t' t).trans hstep)]
      exact ih s'
    | inr r => rw [scan_inr hstep, scan_inr ((L.rest s c t' t).trans hstep)]

end ValueLoop

/-! ## The overloads -/

/-- The type of the value. -/
inductive Kind where
  | int
  | double
  | string
  deriving DecidableEq

/-- What an overload returns. -/
def Kind.Value : Kind → Type
  | int => Bool × Int32
  | double => Bool × Float
  | string => Except Fault (Option Text)

/-- The value loop from `seekKey` on. -/
def Kind.read : (k : Kind) → Text → k.Value
  | int, rest => readInt rest
  | double, rest => readDouble rest
  | string, rest => readString rest rest

/-- `return false`. -/
def Kind.missing : (k : Kind) → k.Value
  | int => ((false, 0) : Bool × Int32)
  | double => ((false, 0) : Bool × Float)
  | string => (.ok none : Except Fault (Option Text))

def intLoop : ValueLoop (Bool × Int32) where
  σ := IntScan
  step := IntScan.step
  done := IntScan.failed
  seek := ⟨false, false, false, 0⟩
  ready := ⟨true, false, false, 0⟩
  missing := (false, 0)
  seeks := intScan_seeks
  rest _ _ _ _ := rfl
  blank _ _ hc := by
    rcases isBlank_cases hc with rfl | rfl | rfl <;> rfl
  newline _ _ := ⟨_, rfl⟩

def doubleLoop : ValueLoop (Bool × Float) where
  σ := DoubleScan
  step := DoubleScan.step
  done := DoubleScan.failed
  seek := ⟨false, false, false, false, 1, 0⟩
  ready := ⟨true, false, false, false, 1, 0⟩
  missing := (false, 0)
  seeks := doubleScan_seeks
  rest _ _ _ _ := rfl
  blank _ _ hc := by
    rcases isBlank_cases hc with rfl | rfl | rfl <;> rfl
  newline _ _ := ⟨_, rfl⟩

def stringLoop : ValueLoop (Except Fault (Option Text)) where
  σ := QuoteScan
  step := QuoteScan.step
  done := QuoteScan.done
  seek := .seek
  ready := .ready
  missing := .ok none
  seeks := by
    refine ⟨fun c t hc => ?_, fun t => rfl, fun t => rfl⟩
    simp only [isEquals, Bool.or_eq_false_iff, decide_eq_false_iff_not] at hc
    simp [QuoteScan.step, hc]
  rest _ _ _ _ := rfl
  blank _ _ hc := by
    rcases isBlank_cases hc with rfl | rfl | rfl <;> rfl
  newline v t := by
    cases v <;> exact ⟨_, rfl⟩

def Kind.loop : (k : Kind) → ValueLoop k.Value
  | int => intLoop
  | double => doubleLoop
  | string => stringLoop

/-- **The value loops** look for `=` and then read a value. -/
theorem Kind.read_eq (k : Kind) (rest : Text) :
    k.read rest = k.loop.read rest ∧ k.missing = k.loop.missing := by
  cases k with
  | int => exact ⟨rfl, rfl⟩
  | double => exact ⟨rfl, rfl⟩
  | string => exact ⟨readString_eq_quote le_rfl, rfl⟩

/-- One of the six overloads. -/
structure Overload where
  tagged : Bool
  kind : Kind
  deriving DecidableEq

namespace Overload

/-- The overload; without a tag `tag` makes no difference. -/
def getValue (o : Overload) (i : Int32) (d : Float) (buffer tag key : Text) : o.kind.Value :=
  match o with
  | ⟨true, .int⟩ => getValueInt (some buffer) tag key i
  | ⟨true, .double⟩ => getValueDouble (some buffer) tag key d
  | ⟨true, .string⟩ => getValueString (some buffer) tag key
  | ⟨false, .int⟩ => getTopInt (some buffer) key i
  | ⟨false, .double⟩ => getTopDouble (some buffer) key d
  | ⟨false, .string⟩ => getTopString (some buffer) key

/-- The text behind the key. -/
def behind (o : Overload) (tag key buffer : Text) : Option Text :=
  if o.tagged then keyBehind tag key buffer else topBehind key buffer

/-- How far behind the key the value loop begins. -/
def skip (o : Overload) : Nat := if !o.tagged && o.kind = .string then 0 else 1

variable {o : Overload} {i : Int32} {d : Float} {tag key behind : Text}

/-- The key stands in front of it. -/
theorem behind_split (o : Overload) (h : o.behind tag key buffer = some behind) :
    ∃ front, buffer = front ++ key ++ behind := by
  unfold Overload.behind at h
  split at h
  · exact keyBehind_split h
  · exact topBehind_split h

theorem behind_length (h : o.behind tag key buffer = some behind) :
    behind.length ≤ buffer.length := by
  obtain ⟨front, rfl⟩ := o.behind_split h
  rw [List.length_append]
  exact Nat.le_add_left _ _

/-- What is in front of the key makes no difference to the value loop. -/
theorem readString_behind {n : Nat} (h : o.behind tag key buffer = some behind) :
    readString buffer (behind.drop n) = Kind.string.read (behind.drop n) := by
  have hlength : (behind.drop n).length ≤ buffer.length := by
    have hbehind := behind_length h
    rw [List.length_drop]
    omega
  exact (readString_eq_quote hlength).trans (readString_eq_quote le_rfl).symm

/-- **An overload** finds its key and reads behind it. -/
theorem getValue_eq : o.getValue i d buffer tag key =
    ((o.behind tag key buffer).map fun behind => o.kind.read (behind.drop o.skip)).getD
      o.kind.missing := by
  obtain ⟨tagged, kind⟩ := o
  cases tagged with
  | true =>
    have hbehind : Overload.behind ⟨true, kind⟩ tag key buffer = keyBehind tag key buffer := rfl
    rw [hbehind]
    cases kind with
    | int =>
      simp only [getValue, getValueInt, seek_eq_behind]
      cases keyBehind tag key buffer <;> rfl
    | double =>
      simp only [getValue, getValueDouble, seek_eq_behind]
      cases keyBehind tag key buffer <;> rfl
    | string =>
      simp only [getValue, getValueString, seek_eq_behind]
      cases hfound : keyBehind tag key buffer with
      | none => rfl
      | some behind => exact readString_behind (hbehind.trans hfound)
  | false =>
    have hbehind : Overload.behind ⟨false, kind⟩ tag key buffer = topBehind key buffer := rfl
    rw [hbehind]
    cases kind with
    | int =>
      simp only [getValue, getTopInt, seekTop_eq_behind]
      cases topBehind key buffer <;> rfl
    | double =>
      simp only [getValue, getTopDouble, seekTop_eq_behind]
      cases topBehind key buffer <;> rfl
    | string =>
      simp only [getValue, getTopString, seekTop_eq_behind]
      cases hfound : topBehind key buffer with
      | none => rfl
      | some behind => exact readString_behind (hbehind.trans hfound)

end Overload

/-! ## The line of a setting -/

/-- The value loop reads the same from a line when it does not see its `=`. -/
def SameSkipped (k : Kind) (rest : Text) : Prop := k.read rest = k.read (wchar '=' :: rest)

/-- The overload finds a value of its type in a line behind `=`: a digit in front of the quotes, or
two quotes. -/
def Kind.Takes : Kind → Text → Prop
  | string, l => List.Sublist [wchar '"', wchar '"'] l
  | _, l => ∃ c ∈ l.takeWhile (· ≠ wchar '"'), isDigit c = true

end Parser

end IocpServer
