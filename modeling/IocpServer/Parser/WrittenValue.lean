import IocpServer.Parser.ValueLoop

/-!
# The value that is written in a line

What the value loops return, by the text alone.

* `numeral` — the digits of a number, with the signs in front of them and among them.
* `Numerals` — a loop that takes up the characters of a numeral one by one.
* `Numerals.scan_eq` — **such a loop stops behind the numeral.**
* `Kind.lineValue` — the value behind `=`, and `Kind.nextValue` that behind the next `=`.
* `Kind.read_written` — **the value loops return what is written.**
* `sameSkipped_written` — a line with an `=` that is not seen.
* `sameSkipped_iff` — one with a single `=`.
-/

set_option autoImplicit false

namespace IocpServer

open Lib

namespace Parser

variable {rest l t x : Text} {c : WChar}

/-! ## Numerals -/

def isNot (p : WChar → Bool) (c : WChar) : Bool := !p c

/-- In a number. -/
def isInside (isSign : WChar → Bool) (c : WChar) : Bool := isDigit c || isSign c

/-- What is in front of the number, and its digits with the signs among them. -/
def numeral (isSign : WChar → Bool) (t : Text) : Text :=
  t.takeWhile (isNot isNumber) ++ (t.dropWhile (isNot isNumber)).takeWhile (isInside isSign)

/-- The text does not end with the numeral, and there is no quote behind it. -/
def closed (isSign : WChar → Bool) (t : Text) : Bool :=
  ((t.dropWhile (isNot isNumber)).dropWhile (isInside isSign)).head?.any (· ≠ wchar '"')

/-- A loop that takes up the characters of a numeral one by one. -/
structure Numerals {σ ρ : Type} (step : σ → WChar → Text → σ ⊕ ρ) (done : σ → ρ)
    (isSign : WChar → Bool) (takeUp : σ → WChar → σ) (ready : σ → Prop) (inNumber : σ → Bool)
    (found failed : σ → ρ) : Prop where
  ends : ∀ s, done s = failed s
  keeps : ∀ s c, ready s → ready (takeUp s c)
  before : ∀ s c t, ready s → inNumber s = false → isNumber c = false →
    step s c t = .inl (takeUp s c) ∧ inNumber (takeUp s c) = false
  inside : ∀ s c t, ready s → isDigit c = true ∨ inNumber s = true ∧ isSign c = true →
    step s c t = .inl (takeUp s c) ∧ inNumber (takeUp s c) = true
  quote : ∀ s t, ready s → step s (wchar '"') t = .inr (failed s)
  newline : ∀ s t, ready s → step s 0x0a t = .inr (if inNumber s then found s else failed s)
  stop : ∀ s c t, ready s → inNumber s = true → isNumber c = false → isSign c = false →
    step s c t = .inr (found s)
  signs : isSign 0x0a = false ∧ isSign (wchar '"') = false

section

variable {σ ρ : Type} {step : σ → WChar → Text → σ ⊕ ρ} {done : σ → ρ} {isSign : WChar → Bool}
  {takeUp : σ → WChar → σ} {ready : σ → Prop} {inNumber : σ → Bool} {found failed : σ → ρ} {s : σ}

/-- In a number, up to its end. -/
theorem Numerals.scan_inside (N : Numerals step done isSign takeUp ready inNumber found failed)
    (hready : ready s) (hnum : inNumber s = true) :
    scan step done s t =
        (if (t.dropWhile (isInside isSign)).head?.any (· ≠ wchar '"') then found else failed)
          ((t.takeWhile (isInside isSign)).foldl takeUp s) ∧
      inNumber ((t.takeWhile (isInside isSign)).foldl takeUp s) = true := by
  induction t generalizing s with
  | nil => exact ⟨N.ends s, hnum⟩
  | cons c t ih =>
    by_cases hc : isInside isSign c = true
    · have hin : isDigit c = true ∨ inNumber s = true ∧ isSign c = true :=
        (Bool.or_eq_true_iff.mp hc).imp_right fun hsign => ⟨hnum, hsign⟩
      obtain ⟨hstep, hnum'⟩ := N.inside s c t hready hin
      rw [scan_inl hstep, List.takeWhile_cons_of_pos hc, List.dropWhile_cons_of_pos hc,
        List.foldl_cons]
      exact ih (N.keeps s c hready) hnum'
    · rw [List.takeWhile_cons_of_neg hc, List.dropWhile_cons_of_neg hc, List.head?_cons,
        Option.any_some]
      refine ⟨?_, hnum⟩
      obtain ⟨hdigit, hsign⟩ := Bool.or_eq_false_iff.mp (Bool.not_eq_true _ ▸ hc)
      by_cases hquote : c = wchar '"'
      · subst hquote
        exact scan_inr (N.quote s t hready)
      by_cases hnewline : c = 0x0a
      · subst hnewline
        rw [scan_inr (N.newline s t hready), if_pos hnum]
        rfl
      rw [scan_inr (N.stop s c t hready hnum (by simp [isNumber, hnewline, hquote, hdigit]) hsign)]
      simp [hquote]

/-- **A loop that takes up a numeral** stops behind it. -/
theorem Numerals.scan_eq (N : Numerals step done isSign takeUp ready inNumber found failed)
    (hready : ready s) (hnum : inNumber s = false) :
    scan step done s t =
      (if inNumber ((numeral isSign t).foldl takeUp s) && closed isSign t then found else failed)
        ((numeral isSign t).foldl takeUp s) := by
  induction t generalizing s with
  | nil =>
    have hnil : (numeral isSign []).foldl takeUp s = s := rfl
    rw [hnil, hnum]
    exact N.ends s
  | cons c t ih =>
    by_cases hc : isNot isNumber c = true
    · have hnumeral : numeral isSign (c :: t) = c :: numeral isSign t := by
        rw [numeral, List.takeWhile_cons_of_pos hc, List.dropWhile_cons_of_pos hc]
        rfl
      have hclosed : closed isSign (c :: t) = closed isSign t := by
        rw [closed, List.dropWhile_cons_of_pos hc, closed]
      obtain ⟨hstep, hbefore⟩ := N.before s c t hready hnum (Bool.not_eq_true' _ ▸ hc)
      rw [scan_inl hstep, hnumeral, hclosed, List.foldl_cons]
      exact ih (N.keeps s c hready) hbefore
    · have hnumeral : numeral isSign (c :: t) = (c :: t).takeWhile (isInside isSign) := by
        rw [numeral, List.takeWhile_cons_of_neg hc, List.dropWhile_cons_of_neg hc]
        rfl
      rw [hnumeral, closed, List.dropWhile_cons_of_neg hc]
      by_cases hdigit : isDigit c = true
      · have hpos : isInside isSign c = true := Bool.or_eq_true_iff.mpr (Or.inl hdigit)
        obtain ⟨hstep, hnum'⟩ := N.inside s c t hready (Or.inl hdigit)
        obtain ⟨hscan, hfold⟩ := N.scan_inside (t := t) (N.keeps s c hready) hnum'
        rw [scan_inl hstep, List.takeWhile_cons_of_pos hpos, List.dropWhile_cons_of_pos hpos,
          List.foldl_cons, hfold, Bool.true_and]
        exact hscan
      · have hends : c = 0x0a ∨ c = wchar '"' := by
          simpa [isNot, isNumber, hdigit, or_iff_not_imp_left] using hc
        have hneg : ¬isInside isSign c = true := by
          rcases hends with rfl | rfl
          · simp [isInside, hdigit, N.signs.1]
          · simp [isInside, hdigit, N.signs.2]
        rw [List.takeWhile_cons_of_neg hneg, List.foldl_nil, hnum]
        rcases hends with rfl | rfl
        · rw [scan_inr (N.newline s t hready), hnum]
          rfl
        · exact scan_inr (N.quote s t hready)

end

/-! ## `int` -/

def intSign (c : WChar) : Bool := c = wchar '-'

/-- The number in a line, `int` arithmetic wrapping. -/
def writtenInt (t : Text) : Bool × Int32 :=
  let l := numeral intSign t
  let value := Int32.ofNat (digitsFrom 0 (l.filter isDigit))
  if l.any isDigit && closed intSign t then (true, if l.any intSign then -value else value)
  else (false, value)

/-- A pass over a character of a numeral. -/
def IntScan.takeUp (v : IntScan) (c : WChar) : IntScan :=
  { v with
    numberSign := v.numberSign || isDigit c
    minusSign := v.minusSign || intSign c
    value := if isDigit c then v.value * 10 + Int32.ofNat (c - wchar '0').toNat else v.value }

theorem IntScan.foldl_takeUp {seek num minus : Bool} {n : Nat} :
    l.foldl IntScan.takeUp ⟨seek, num, minus, Int32.ofNat n⟩ =
      ⟨seek, num || l.any isDigit, minus || l.any intSign,
        Int32.ofNat (digitsFrom n (l.filter isDigit))⟩ := by
  induction l generalizing num minus n with
  | nil => simp [digitsFrom]
  | cons c l ih =>
    rw [List.foldl_cons, List.any_cons, List.any_cons, ← Bool.or_assoc, ← Bool.or_assoc]
    by_cases hc : isDigit c = true
    · have hvalue : Int32.ofNat n * 10 + Int32.ofNat (c - wchar '0').toNat =
          Int32.ofNat (n * 10 + (c - wchar '0').toNat) := by
        rw [Int32.ofNat_add, Int32.ofNat_mul]
        rfl
      rw [List.filter_cons_of_pos hc, IntScan.takeUp, if_pos hc, hvalue, ih]
      rfl
    · rw [List.filter_cons_of_neg hc, IntScan.takeUp, if_neg hc, ih]

theorem intScan_numerals : Numerals IntScan.step IntScan.failed intSign IntScan.takeUp
    (·.seekSign = true) (·.numberSign) IntScan.found IntScan.failed where
  ends _ := rfl
  keeps _ _ hready := hready
  before := by
    rintro ⟨seek, num, minus, v⟩ c t rfl rfl hc
    simp only [isNumber, Bool.or_eq_false_iff, decide_eq_false_iff_not] at hc
    simp only [IntScan.step, IntScan.takeUp, intSign, hc]
    by_cases hminus : c = wchar '-' <;> simp [hminus]
  inside := by
    rintro ⟨seek, num, minus, v⟩ c t rfl hc
    by_cases hdigit : isDigit c = true
    · have hminus : c ≠ wchar '-' := by
        rintro rfl
        cases hdigit
      rw [intStep_digit rfl hdigit]
      simp [IntScan.takeUp, intSign, hdigit, hminus]
    · obtain ⟨rfl, hsign⟩ := hc.resolve_left hdigit
      obtain rfl : c = wchar '-' := of_decide_eq_true hsign
      rw [IntScan.takeUp, if_neg hdigit, Bool.or_eq_true_iff.mpr (Or.inr hsign)]
      exact ⟨rfl, rfl⟩
  quote := by
    rintro ⟨seek, num, minus, v⟩ t rfl
    rfl
  newline := by
    rintro ⟨seek, num, minus, v⟩ t rfl
    rfl
  stop := by
    rintro ⟨seek, num, minus, v⟩ c t rfl rfl hc hsign
    simp only [isNumber, Bool.or_eq_false_iff, decide_eq_false_iff_not] at hc
    simp only [intSign, decide_eq_false_iff_not] at hsign
    simp [IntScan.step, hc, hsign]
  signs := by decide

theorem intLoop_written : intLoop.value t = writtenInt t := by
  have hscan := intScan_numerals.scan_eq (s := ⟨true, false, false, Int32.ofNat 0⟩) (t := t) rfl rfl
  rw [IntScan.foldl_takeUp] at hscan
  refine hscan.trans ?_
  simp only [writtenInt, Bool.false_or]
  split <;> rfl

/-! ## `double` -/

def doubleSign (c : WChar) : Bool := c = wchar '-' || c = wchar '.'

def isPoint (c : WChar) : Bool := c = wchar '.'

/-- The digits in front of the point, behind `value`. -/
def wholeFrom (value : Float) (digits : Text) : Float :=
  digits.foldl (fun v c => v * 10 + Float.ofNat (c - wchar '0').toNat) value

/-- The digits behind the point; the first is the one with 10 to the power of `-depth`. -/
def decimalsFrom (depth : Nat) (value : Float) (digits : Text) : Float :=
  (digits.zipIdx depth).foldl (fun v d =>
    v + Float.ofNat (d.1 - wchar '0').toNat / Float.pow 10 (Float.ofNat d.2)) value

/-- The number in a line. -/
def writtenDouble (t : Text) : Bool × Float :=
  let l := numeral doubleSign t
  let whole := (l.takeWhile (isNot isPoint)).filter isDigit
  let decimals := (l.dropWhile (isNot isPoint)).filter isDigit
  let value := decimalsFrom 1 (wholeFrom 0 whole) decimals
  if l.any isDigit && closed doubleSign t then (true, if l.any intSign then -value else value)
  else (false, value)

/-- A pass over a character of a numeral. -/
def DoubleScan.takeUp (v : DoubleScan) (c : WChar) : DoubleScan :=
  let digit := Float.ofNat (c - wchar '0').toNat
  { v with
    numberSign := v.numberSign || isDigit c
    minusSign := v.minusSign || intSign c
    demicalSign := v.demicalSign || isPoint c
    demicalDepth := if isDigit c && v.demicalSign then v.demicalDepth + 1 else v.demicalDepth
    value :=
      if isDigit c then
        if v.demicalSign then v.value + digit / Float.pow 10 (Float.ofNat v.demicalDepth)
        else v.value * 10 + digit
      else v.value }

theorem DoubleScan.foldl_signs {v : DoubleScan} :
    (l.foldl DoubleScan.takeUp v).numberSign = (v.numberSign || l.any isDigit) ∧
      (l.foldl DoubleScan.takeUp v).minusSign = (v.minusSign || l.any intSign) := by
  induction l generalizing v with
  | nil => simp
  | cons c l ih =>
    rw [List.foldl_cons, List.any_cons, List.any_cons, ← Bool.or_assoc, ← Bool.or_assoc]
    exact ih

/-- Behind the point. -/
theorem DoubleScan.foldl_decimals {v : DoubleScan} (hpoint : v.demicalSign = true) :
    (l.foldl DoubleScan.takeUp v).value =
      decimalsFrom v.demicalDepth v.value (l.filter isDigit) := by
  induction l generalizing v with
  | nil => rfl
  | cons c l ih =>
    have hpoint' : (v.takeUp c).demicalSign = true := by simp [DoubleScan.takeUp, hpoint]
    rw [List.foldl_cons, ih hpoint']
    by_cases hc : isDigit c = true
    · rw [List.filter_cons_of_pos hc]
      simp [DoubleScan.takeUp, decimalsFrom, hc, hpoint]
    · rw [List.filter_cons_of_neg hc]
      simp [DoubleScan.takeUp, hc]

/-- From in front of the point on. -/
theorem DoubleScan.foldl_whole {v : DoubleScan} (hpoint : v.demicalSign = false) :
    (l.foldl DoubleScan.takeUp v).value = decimalsFrom v.demicalDepth
      (wholeFrom v.value ((l.takeWhile (isNot isPoint)).filter isDigit))
      ((l.dropWhile (isNot isPoint)).filter isDigit) := by
  induction l generalizing v with
  | nil => rfl
  | cons c l ih =>
    by_cases hc : isNot isPoint c = true
    · have hc' : isPoint c = false := Bool.not_eq_true' _ ▸ hc
      have hpoint' : (v.takeUp c).demicalSign = false := by
        simp [DoubleScan.takeUp, hpoint, hc']
      rw [List.foldl_cons, ih hpoint', List.takeWhile_cons_of_pos hc, List.dropWhile_cons_of_pos hc]
      by_cases hdigit : isDigit c = true
      · rw [List.filter_cons_of_pos hdigit]
        simp [DoubleScan.takeUp, wholeFrom, hdigit, hpoint]
      · rw [List.filter_cons_of_neg hdigit]
        simp [DoubleScan.takeUp, hdigit]
    · have hc' : c = wchar '.' := by simpa [isNot, isPoint] using hc
      have hpoint' : (v.takeUp c).demicalSign = true := by
        simp [DoubleScan.takeUp, isPoint, hc']
      subst hc'
      rw [List.foldl_cons, DoubleScan.foldl_decimals hpoint', List.takeWhile_cons_of_neg hc,
        List.dropWhile_cons_of_neg hc]
      rfl

theorem doubleScan_numerals : Numerals DoubleScan.step DoubleScan.failed doubleSign
    DoubleScan.takeUp (·.seekSign = true) (·.numberSign) DoubleScan.found DoubleScan.failed where
  ends _ := rfl
  keeps _ _ hready := hready
  before := by
    rintro ⟨seek, num, minus, decimal, depth, v⟩ c t rfl rfl hc
    simp only [isNumber, Bool.or_eq_false_iff, decide_eq_false_iff_not] at hc
    simp only [DoubleScan.step, DoubleScan.takeUp, intSign, isPoint, hc]
    have hne : wchar '.' ≠ wchar '-' := by decide
    by_cases hminus : c = wchar '-'
    · simp [hminus, hne.symm]
    · by_cases hdot : c = wchar '.' <;> simp [hminus, hdot, hne]
  inside := by
    rintro ⟨seek, num, minus, decimal, depth, v⟩ c t rfl hc
    by_cases hdigit : isDigit c = true
    · have hother : ∀ d : WChar, isDigit d = false → c ≠ d := by
        rintro d hd rfl
        rw [hd] at hdigit
        cases hdigit
      have hnewline := hother 0x0a rfl
      have hquote := hother (wchar '"') rfl
      have hminus := hother (wchar '-') rfl
      have hdot := hother (wchar '.') rfl
      cases decimal <;>
        simp [DoubleScan.step, DoubleScan.takeUp, intSign, isPoint, hdigit, hnewline, hquote,
          hminus, hdot]
    · obtain ⟨rfl, hsign⟩ := hc.resolve_left hdigit
      have hsign : c = wchar '-' ∨ c = wchar '.' := by simpa [doubleSign] using hsign
      rcases hsign with rfl | rfl
      · cases minus <;> cases decimal <;> exact ⟨rfl, rfl⟩
      · cases minus <;> cases decimal <;> exact ⟨rfl, rfl⟩
  quote := by
    rintro ⟨seek, num, minus, decimal, depth, v⟩ t rfl
    rfl
  newline := by
    rintro ⟨seek, num, minus, decimal, depth, v⟩ t rfl
    rfl
  stop := by
    rintro ⟨seek, num, minus, decimal, depth, v⟩ c t rfl rfl hc hsign
    simp only [isNumber, Bool.or_eq_false_iff, decide_eq_false_iff_not] at hc
    simp only [doubleSign, Bool.or_eq_false_iff, decide_eq_false_iff_not] at hsign
    simp [DoubleScan.step, hc, hsign]
  signs := by decide

theorem doubleLoop_written : doubleLoop.value t = writtenDouble t := by
  have hscan := doubleScan_numerals.scan_eq (s := ⟨true, false, false, false, 1, 0⟩) (t := t) rfl
    rfl
  obtain ⟨hnum, hminus⟩ :=
    @DoubleScan.foldl_signs (numeral doubleSign t) ⟨true, false, false, false, 1, 0⟩
  have hvalue := @DoubleScan.foldl_whole (numeral doubleSign t)
    ⟨true, false, false, false, 1, 0⟩ rfl
  refine hscan.trans ?_
  rw [hnum, writtenDouble, Bool.false_or]
  rw [Bool.false_or] at hminus
  split
  · rw [DoubleScan.found, hminus, hvalue]
  · rw [DoubleScan.failed, hvalue]

/-! ## Strings -/

/-- What is between the quotes of a line; a text that ends between them is the fault of a negative
size. -/
def writtenString (t : Text) : Except Fault (Option Text) :=
  match t.dropWhile (isNot isQuote) with
  | [] => .ok (some [])
  | c :: inside =>
    if c = 0x0a then .ok none
    else
      match inside.dropWhile (isNot isQuote) with
      | [] => .error .negativeSize
      | c :: _ => .ok (if c = 0x0a then none else some (inside.takeWhile (isNot isQuote)))

/-- Between the quotes, behind `x`. -/
theorem quoteScan_written : scan QuoteScan.step QuoteScan.done (.inside x) t =
    match t.dropWhile (isNot isQuote) with
    | [] => .error .negativeSize
    | c :: _ => .ok (if c = 0x0a then none else some (x ++ t.takeWhile (isNot isQuote))) := by
  induction t generalizing x with
  | nil => rfl
  | cons c t ih =>
    by_cases hc : isNot isQuote c = true
    · have hne : c ≠ 0x0a ∧ c ≠ wchar '"' := by simpa [isNot, isQuote] using hc
      have hstep : QuoteScan.step (.inside x) c t = .inl (.inside (x ++ [c])) := by
        simp [QuoteScan.step, hne]
      rw [scan_inl hstep, ih, List.dropWhile_cons_of_pos hc, List.takeWhile_cons_of_pos hc,
        List.append_assoc, List.singleton_append]
    · have hends : c = 0x0a ∨ c = wchar '"' := by
        simpa [isNot, isQuote, or_iff_not_imp_left] using hc
      rw [List.dropWhile_cons_of_neg hc, List.takeWhile_cons_of_neg hc, List.append_nil]
      rcases hends with rfl | rfl
      · rfl
      · have hstep : QuoteScan.step (.inside x) (wchar '"') t = .inl (.closed x) := rfl
        rw [scan_inl hstep, quoteScan_closed]
        rfl

theorem stringLoop_written : stringLoop.value t = writtenString t := by
  show scan QuoteScan.step QuoteScan.done .ready t = writtenString t
  induction t with
  | nil => rfl
  | cons c t ih =>
    by_cases hc : isNot isQuote c = true
    · have hne : c ≠ 0x0a ∧ c ≠ wchar '"' := by simpa [isNot, isQuote] using hc
      have hstep : QuoteScan.step .ready c t = .inl .ready := by simp [QuoteScan.step, hne]
      rw [scan_inl hstep, ih, writtenString, writtenString, List.dropWhile_cons_of_pos hc]
    · have hends : c = 0x0a ∨ c = wchar '"' := by
        simpa [isNot, isQuote, or_iff_not_imp_left] using hc
      rw [writtenString, List.dropWhile_cons_of_neg hc]
      rcases hends with rfl | rfl
      · rfl
      · have hstep : QuoteScan.step .ready (wchar '"') t = .inl (.inside []) := rfl
        rw [scan_inl hstep, quoteScan_written]
        rfl

/-! ## The line of a setting -/

namespace Kind

/-- The value behind `=`. -/
def lineValue : (k : Kind) → Text → k.Value
  | int, t => writtenInt t
  | double, t => writtenDouble t
  | string, t => writtenString t

/-- The value behind the next `=` of the line; a line without one has none. -/
def nextValue (k : Kind) (t : Text) : k.Value :=
  match t.dropWhile (isNot isEquals) with
  | [] => k.lineValue []
  | c :: t => if c = 0x0a then k.missing else k.lineValue t

theorem value_eq (k : Kind) : k.loop.value t = k.lineValue t := by
  cases k with
  | int => exact intLoop_written
  | double => exact doubleLoop_written
  | string => exact stringLoop_written

/-- **The value loops** return what is written. -/
theorem read_written (k : Kind) : k.read t = k.nextValue t := by
  rw [(k.read_eq t).1]
  induction t with
  | nil => cases k <;> rfl
  | cons c t ih =>
    by_cases hc : isNot isEquals c = true
    · have hc' : isEquals c = false := Bool.not_eq_true' _ ▸ hc
      have hpass : k.loop.read (c :: t) = k.loop.read t := scan_inl (k.loop.seeks.other c t hc')
      rw [hpass, ih, nextValue, nextValue, List.dropWhile_cons_of_pos hc]
    · have hends : c = 0x0a ∨ c = wchar '=' := by
        simpa [isNot, isEquals, or_iff_not_imp_left] using hc
      rw [nextValue, List.dropWhile_cons_of_neg hc]
      rcases hends with rfl | rfl
      · exact ValueLoop.read_newline.trans (k.read_eq t).2.symm
      · exact ValueLoop.read_equals.trans k.value_eq

end Kind

/-- **A line whose `=` is not seen** reads the same if and only if behind the next `=` of the line,
if there is one, the same value is written. -/
theorem sameSkipped_written (k : Kind) : SameSkipped k t ↔ k.nextValue t = k.lineValue t := by
  rw [SameSkipped, k.read_written, (k.read_eq _).1, ValueLoop.read_equals, k.value_eq]

/-- The value is in the comment once more. -/
example : SameSkipped .int (text "-5 // b = -05\n") := (sameSkipped_written .int).mpr rfl

/-! ## Lines with one `=` -/

/-- A character that is not passed over stays. -/
theorem dropWhile_line {p : WChar → Bool} (hp : p c = false) :
    (l ++ c :: t).dropWhile p = l.dropWhile p ++ c :: t := by
  induction l with
  | nil => exact List.dropWhile_cons_of_neg (by simp [hp])
  | cons d l ih =>
    rw [List.cons_append]
    by_cases hd : p d = true
    · rw [List.dropWhile_cons_of_pos hd, List.dropWhile_cons_of_pos hd, ih]
    · rw [List.dropWhile_cons_of_neg hd, List.dropWhile_cons_of_neg hd, List.cons_append]

/-- The numeral of a line has a digit if there is one in front of the first quote. -/
theorem numeral_line {isSign : WChar → Bool} (hsign : isSign 0x0a = false)
    (hquote : isSign (wchar '"') = false) (hnewline : (0x0a : WChar) ∉ l) :
    (numeral isSign (l ++ 0x0a :: t)).any isDigit = true ↔
      ∃ c ∈ l.takeWhile (· ≠ wchar '"'), isDigit c = true := by
  induction l with
  | nil =>
    have hneg : ¬isInside isSign 0x0a = true := by
      rw [isInside, hsign]
      decide
    rw [List.nil_append, numeral, List.takeWhile_cons_of_neg (by decide),
      List.dropWhile_cons_of_neg (by decide), List.takeWhile_cons_of_neg hneg]
    simp
  | cons c l ih =>
    rw [List.mem_cons, not_or] at hnewline
    have hne : c ≠ 0x0a := Ne.symm hnewline.1
    rw [List.cons_append, numeral]
    by_cases hc : isNot isNumber c = true
    · have hother : c ≠ wchar '"' ∧ isDigit c = false := by
        simpa [isNot, isNumber, hne] using hc
      rw [List.takeWhile_cons_of_pos hc, List.dropWhile_cons_of_pos hc,
        List.takeWhile_cons_of_pos (by simp [hother.1]), List.cons_append, List.any_cons, hother.2,
        Bool.false_or]
      refine (ih hnewline.2).trans ?_
      simp [hother.2]
    · rw [List.takeWhile_cons_of_neg hc, List.dropWhile_cons_of_neg hc, List.nil_append]
      by_cases hdigit : isDigit c = true
      · have hc' : c ≠ wchar '"' := by
          rintro rfl
          cases hdigit
        have hin : isInside isSign c = true := Bool.or_eq_true_iff.mpr (Or.inl hdigit)
        rw [List.takeWhile_cons_of_pos hin, List.takeWhile_cons_of_pos (by simp [hc'])]
        simp [hdigit]
      · obtain rfl : c = wchar '"' := by simpa [isNot, isNumber, hne, hdigit] using hc
        have hneg : ¬isInside isSign (wchar '"') = true := by
          rw [isInside, hquote]
          decide
        rw [List.takeWhile_cons_of_neg hneg, List.takeWhile_cons_of_neg (by simp)]
        simp

/-- No quote in the line. -/
theorem closed_line {isSign : WChar → Bool} (hsign : isSign 0x0a = false)
    (hquote : wchar '"' ∉ l) : closed isSign (l ++ 0x0a :: t) = true := by
  have hin : isInside isSign 0x0a = false := by
    rw [isInside, hsign]
    rfl
  rw [closed, dropWhile_line rfl, dropWhile_line hin]
  cases hrest : (l.dropWhile (isNot isNumber)).dropWhile (isInside isSign) with
  | nil => rfl
  | cons c rest =>
    have hsuffix : c :: rest <:+ l :=
      hrest ▸ (List.dropWhile_suffix _).trans (List.dropWhile_suffix _)
    have hne : c ≠ wchar '"' := ne_of_mem_of_not_mem (hsuffix.subset List.mem_cons_self) hquote
    rw [List.cons_append, List.head?_cons, Option.any_some]
    exact decide_eq_true hne

/-- **A line of a number**, or one whose digits are in quotes. -/
theorem number_line {isSign : WChar → Bool}
    (hsigns : isSign 0x0a = false ∧ isSign (wchar '"') = false) (hnewline : (0x0a : WChar) ∉ l)
    (hquotes : wchar '"' ∈ l → ∀ c ∈ l.takeWhile (· ≠ wchar '"'), isDigit c = false) :
    ((numeral isSign (l ++ 0x0a :: t)).any isDigit && closed isSign (l ++ 0x0a :: t)) =
      (numeral isSign (l ++ 0x0a :: t)).any isDigit := by
  cases hany : (numeral isSign (l ++ 0x0a :: t)).any isDigit with
  | false => rfl
  | true =>
    have hquote : wchar '"' ∉ l := by
      intro hquote
      obtain ⟨c, hc, hdigit⟩ := (numeral_line hsigns.1 hsigns.2 hnewline).mp hany
      rw [hquotes hquote c hc] at hdigit
      cases hdigit
    rw [closed_line hsigns.1 hquote, Bool.and_self]

/-- No digits, no value. -/
theorem filter_isDigit (h : l.any isDigit = false) (hsub : x ⊆ l) : x.filter isDigit = [] := by
  rw [List.filter_eq_nil_iff]
  intro c hc hdigit
  rw [List.any_eq_false] at h
  exact h c (hsub hc) hdigit

theorem int_line_iff (hnewline : (0x0a : WChar) ∉ l)
    (hquotes : wchar '"' ∈ l → ∀ c ∈ l.takeWhile (· ≠ wchar '"'), isDigit c = false) :
    intLoop.value (l ++ 0x0a :: t) = intLoop.missing ↔ ¬Kind.int.Takes l := by
  have hsigns : intSign 0x0a = false ∧ intSign (wchar '"') = false := by decide
  have hiff : (numeral intSign (l ++ 0x0a :: t)).any isDigit = true ↔ Kind.int.Takes l :=
    numeral_line hsigns.1 hsigns.2 hnewline
  rw [intLoop_written, writtenInt, number_line hsigns hnewline hquotes, ← hiff]
  cases hany : (numeral intSign (l ++ 0x0a :: t)).any isDigit with
  | true => exact iff_of_false (fun h => by cases h) fun h => h rfl
  | false =>
    rw [filter_isDigit hany (List.Subset.refl _)]
    exact iff_of_true rfl (by decide)

theorem double_line_iff (hnewline : (0x0a : WChar) ∉ l)
    (hquotes : wchar '"' ∈ l → ∀ c ∈ l.takeWhile (· ≠ wchar '"'), isDigit c = false) :
    doubleLoop.value (l ++ 0x0a :: t) = doubleLoop.missing ↔ ¬Kind.double.Takes l := by
  have hsigns : doubleSign 0x0a = false ∧ doubleSign (wchar '"') = false := by decide
  have hiff : (numeral doubleSign (l ++ 0x0a :: t)).any isDigit = true ↔ Kind.double.Takes l :=
    numeral_line hsigns.1 hsigns.2 hnewline
  rw [doubleLoop_written, writtenDouble, number_line hsigns hnewline hquotes, ← hiff]
  cases hany : (numeral doubleSign (l ++ 0x0a :: t)).any isDigit with
  | true => exact iff_of_false (fun h => by cases h) fun h => h rfl
  | false =>
    rw [filter_isDigit hany (List.takeWhile_sublist _).subset,
      filter_isDigit hany (List.dropWhile_sublist _).subset]
    exact iff_of_true rfl (by decide)

/-- A line that begins between the quotes. -/
theorem quoteScan_inside (hnewline : (0x0a : WChar) ∉ l) :
    scan QuoteScan.step QuoteScan.done (.inside x) (l ++ 0x0a :: t) = .ok none ↔
      wchar '"' ∉ l := by
  induction l generalizing x with
  | nil => exact iff_of_true rfl List.not_mem_nil
  | cons c l ih =>
    rw [List.mem_cons, not_or] at hnewline
    rw [List.cons_append, List.mem_cons, not_or]
    by_cases hquote : c = wchar '"'
    · subst hquote
      refine iff_of_false ?_ fun h => h.1 rfl
      have hstep : QuoteScan.step (.inside x) (wchar '"') (l ++ 0x0a :: t) = .inl (.closed x) := rfl
      rw [scan_inl hstep, quoteScan_closed]
      intro h
      cases h
    · have hstep : QuoteScan.step (.inside x) c (l ++ 0x0a :: t) = .inl (.inside (x ++ [c])) := by
        simp [QuoteScan.step, Ne.symm hnewline.1, hquote]
      rw [scan_inl hstep, ih hnewline.2]
      exact (and_iff_right (Ne.symm hquote)).symm

/-- **A line of a string.** -/
theorem string_line_iff (hnewline : (0x0a : WChar) ∉ l) :
    stringLoop.value (l ++ 0x0a :: t) = stringLoop.missing ↔ ¬Kind.string.Takes l := by
  show scan QuoteScan.step QuoteScan.done .ready (l ++ 0x0a :: t) = .ok none ↔
    ¬List.Sublist [wchar '"', wchar '"'] l
  induction l with
  | nil => exact iff_of_true rfl (by simp)
  | cons c l ih =>
    rw [List.mem_cons, not_or] at hnewline
    rw [List.cons_append]
    by_cases hquote : c = wchar '"'
    · subst hquote
      have hstep : QuoteScan.step .ready (wchar '"') (l ++ 0x0a :: t) = .inl (.inside []) := rfl
      rw [scan_inl hstep, quoteScan_inside hnewline.2, List.cons_sublist_cons,
        List.singleton_sublist]
    · have hstep : QuoteScan.step .ready c (l ++ 0x0a :: t) = .inl .ready := by
        simp [QuoteScan.step, Ne.symm hnewline.1, hquote]
      rw [scan_inl hstep, ih hnewline.2]
      refine not_congr ⟨fun h => h.cons c, fun h => ?_⟩
      rcases List.sublist_cons_iff.mp h with h | ⟨r, hr, -⟩
      · exact h
      · exact absurd (List.cons_eq_cons.mp hr).1.symm hquote

/-- **A line with one `=`** reads the same without it if and only if the overload finds no value of
its type in it. -/
theorem sameSkipped_iff (k : Kind) (hnewline : (0x0a : WChar) ∉ l) (hequals : wchar '=' ∉ l)
    (hquotes : wchar '"' ∈ l → ∀ c ∈ l.takeWhile (· ≠ wchar '"'), isDigit c = false) :
    SameSkipped k (l ++ 0x0a :: t) ↔ ¬k.Takes l := by
  have hmissing : k.loop.read (l ++ 0x0a :: t) = k.loop.missing := by
    rw [ValueLoop.read_append fun c hc => ?_, ValueLoop.read_newline]
    have h1 := ne_of_mem_of_not_mem hc hnewline
    have h2 := ne_of_mem_of_not_mem hc hequals
    simp [isEquals, h1, h2]
  rw [SameSkipped, (k.read_eq _).1, (k.read_eq _).1, ValueLoop.read_equals, hmissing, eq_comm]
  cases k with
  | int => exact int_line_iff hnewline hquotes
  | double => exact double_line_iff hnewline hquotes
  | string => exact string_line_iff hnewline

end Parser

end IocpServer
