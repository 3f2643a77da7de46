import IocpServer.Parser.TopLevel
import IocpServer.Parser.RawReading

/-!
# The slice of a quoted value

What the two overloads for strings return, as the indices between which they copy.

* `slice` — the value loop up to its end.
* `Encloses` — the two indices are those of the quotes around the value on the key's line.
* `slice_cases` — how the loop ends.
* `getValueString_safe_iff` — **the slice is safe if and only if the line of the key has a newline
  at its end, or `=` and two quotes behind the key.**
-/

set_option autoImplicit false

namespace IocpServer

open Lib

namespace Parser

namespace StringScan

/-- A pass of the value loop: `none` for `return false`, and the scan at `break`. -/
def sliceStep (v : StringScan) (c : WChar) (rest : Text) : StringScan ⊕ Option StringScan :=
  if c = 0x0a ∧ !(v.seekSign && v.charStartSign && v.charEndSign) then .inr none
  else if !v.seekSign then .inl { v with seekSign := c = wchar '=' }
  else if !v.charStartSign && c = wchar '"' then
    .inl { v with charStartSign := true, startText := rest }
  else if !v.charEndSign && c = wchar '"' then
    .inl { v with charEndSign := true, endText := c :: rest }
  else if v.charStartSign && v.charEndSign then .inr (some v)
  else .inl v

def startIndex (v : StringScan) (buffer : Text) : Nat := buffer.length - v.startText.length

def endIndex (v : StringScan) (buffer : Text) : Nat := buffer.length - v.endText.length

end StringScan

/-- The scan behind the value loop, `none` for `return false`. -/
def slice (buffer : Text) : Text → Option StringScan :=
  scan StringScan.sliceStep some ⟨false, false, false, buffer, buffer⟩

/-- `between = gap "value"`, on one line: `=` is the first one, and the quotes are the first ones
behind it. -/
structure Quoted (between gap value : Text) : Prop where
  line : (0x0a : WChar) ∉ between ++ gap ++ value
  equals : wchar '=' ∉ between
  quotes : wchar '"' ∉ gap ++ value

/-- The quotes in front of `startIndex` and at `endIndex` enclose the value behind `=` on the line
of the key, which stands behind `front`. -/
structure Encloses (buffer front key : Text) (startIndex endIndex : Nat) : Prop where
  one_le : 1 ≤ startIndex
  order : startIndex ≤ endIndex
  inside : endIndex < buffer.length
  opening : buffer[startIndex - 1]? = some (wchar '"')
  closing : buffer[endIndex]? = some (wchar '"')
  value : ∃ between gap value back, Quoted between gap value ∧
    buffer = front ++ key ++
      (between ++ wchar '=' :: (gap ++ wchar '"' :: (value ++ wchar '"' :: back))) ∧
    startIndex = (front ++ key ++ between).length + gap.length + 2 ∧
    endIndex = startIndex + value.length

/-- An overload that finds the key in front of `found` and goes on `skip` characters behind it:
`result` is `return false`, or what is copied lies between the quotes. -/
def Safe (buffer key : Text) (skip : Nat) (found : Option Text)
    (result : Except Fault (Option Text)) : Prop :=
  result = .ok none ∨ ∃ front behind v, found = some behind ∧ buffer = front ++ key ++ behind ∧
    slice buffer (behind.drop skip) = some v ∧
    Encloses buffer front key (v.startIndex buffer) (v.endIndex buffer) ∧
    result = .ok (some ((buffer.drop (v.startIndex buffer)).take
      (v.endIndex buffer - v.startIndex buffer)))

/-- The text up to the newline. -/
def lineOf (rest : Text) : Text := rest.takeWhile (· ≠ 0x0a)

/-- `=` and two quotes behind it, on the first line. -/
def Complete (rest : Text) : Prop :=
  List.Sublist [wchar '=', wchar '"', wchar '"'] (lineOf rest)

instance (rest : Text) : Decidable (Complete rest) :=
  inferInstanceAs (Decidable (List.Sublist _ _))

/-- The condition, for the characters behind the key that are not read and those that are: the first
line of the latter is complete, and the former are no newline, and no `=` with a quote in front of
the next one; or it has a newline. -/
def Ends (skipped rest : Text) : Prop :=
  (Complete rest →
    ∀ c ∈ skipped, c ≠ 0x0a ∧ (c = wchar '=' → wchar '"' ∉ rest.takeWhile (· ≠ wchar '='))) ∧
  (¬Complete rest → (0x0a : WChar) ∈ rest)

instance (skipped rest : Text) : Decidable (Ends skipped rest) :=
  inferInstanceAs (Decidable (_ ∧ _))

variable {buffer tag key front behind between gap value back rest l skipped : Text} {v : StringScan}
  {c : WChar}

/-! ## The value loop -/

/-- What the overload returns then. -/
def copied : Option StringScan → Except Fault (Option Text)
  | none => .ok none
  | some v => v.found

theorem readString_eq_slice : readString buffer rest = copied (slice buffer rest) := by
  refine scan_map copied (fun _ => rfl) fun v c rest => ?_
  unfold StringScan.step StringScan.sliceStep
  repeat' split
  all_goals rfl

/-- The first character that is a newline or `p`. -/
theorem line_cases (p : WChar) (ps l : Text) :
    ((0x0a : WChar) ∉ l ∧ p ∉ l ∧ ¬(p :: ps).Sublist (lineOf l)) ∨
      (∃ pre post, l = pre ++ 0x0a :: post ∧ (0x0a : WChar) ∉ pre ∧ p ∉ pre ∧
        ¬(p :: ps).Sublist (lineOf l)) ∨
      ∃ pre post, l = pre ++ p :: post ∧ (0x0a : WChar) ∉ pre ∧ p ∉ pre ∧
        ((p :: ps).Sublist (lineOf l) ↔ ps.Sublist (lineOf post)) := by
  induction l with
  | nil => exact Or.inl ⟨List.not_mem_nil, List.not_mem_nil, by simp [lineOf]⟩
  | cons c l ih =>
    by_cases hnewline : c = 0x0a
    · refine Or.inr (Or.inl ⟨[], l, ?_, List.not_mem_nil, List.not_mem_nil, ?_⟩)
      · rw [hnewline, List.nil_append]
      · simp [lineOf, hnewline]
    have hline : lineOf (c :: l) = c :: lineOf l := by simp [lineOf, hnewline]
    by_cases hc : c = p
    · refine Or.inr (Or.inr ⟨[], l, ?_, List.not_mem_nil, List.not_mem_nil, ?_⟩)
      · rw [hc, List.nil_append]
      · rw [hline, hc, List.cons_sublist_cons]
    have hskip : (p :: ps).Sublist (lineOf (c :: l)) ↔ (p :: ps).Sublist (lineOf l) := by
      rw [hline]
      exact ⟨fun h => (List.sublist_cons_iff.mp h).resolve_right
        fun ⟨r, hr, _⟩ => hc (List.cons_eq_cons.mp hr).1.symm, fun h => h.cons c⟩
    have hmem : ∀ {d : WChar} {s : Text}, d ≠ c → d ∉ s → d ∉ c :: s := fun hd hs h =>
      (List.mem_cons.mp h).elim hd hs
    rw [hskip]
    rcases ih with ⟨h1, h2, h3⟩ | ⟨pre, post, rfl, h1, h2, h3⟩ | ⟨pre, post, rfl, h1, h2, h3⟩
    · exact Or.inl ⟨hmem (Ne.symm hnewline) h1, hmem (Ne.symm hc) h2, h3⟩
    · exact Or.inr (Or.inl ⟨c :: pre, post, rfl, hmem (Ne.symm hnewline) h1, hmem (Ne.symm hc) h2,
        h3⟩)
    · exact Or.inr (Or.inr ⟨c :: pre, post, rfl, hmem (Ne.symm hnewline) h1, hmem (Ne.symm hc) h2,
        h3⟩)

/-- The characters up to `=`. -/
theorem slice_before {r : Text} (hnewline : (0x0a : WChar) ∉ l) (hequals : wchar '=' ∉ l) :
    slice buffer (l ++ r) = slice buffer r := by
  refine scan_append fun c hc t => ?_
  have h1 : c ≠ 0x0a := ne_of_mem_of_not_mem hc hnewline
  have h2 : c ≠ wchar '=' := ne_of_mem_of_not_mem hc hequals
  simp [StringScan.sliceStep, h1, h2]

/-- The characters up to a quote. -/
theorem sliceStep_other {start : Bool} {s e : Text} (hc : isQuote c = false) :
    StringScan.sliceStep ⟨true, start, false, s, e⟩ c l = .inl ⟨true, start, false, s, e⟩ := by
  simp only [isQuote, Bool.or_eq_false_iff, decide_eq_false_iff_not] at hc
  simp [StringScan.sliceStep, hc]

theorem scanSlice_before {start : Bool} {s e r : Text} (hnewline : (0x0a : WChar) ∉ l)
    (hquote : wchar '"' ∉ l) :
    scan StringScan.sliceStep some ⟨true, start, false, s, e⟩ (l ++ r) =
      scan StringScan.sliceStep some ⟨true, start, false, s, e⟩ r := by
  refine scan_append fun c hc t => sliceStep_other ?_
  have h1 : c ≠ 0x0a := ne_of_mem_of_not_mem hc hnewline
  have h2 : c ≠ wchar '"' := ne_of_mem_of_not_mem hc hquote
  simp [isQuote, h1, h2]

/-- Behind the closing quote the loop ends. -/
theorem scanSlice_closed {s e : Text} :
    scan StringScan.sliceStep some ⟨true, true, true, s, e⟩ l = some ⟨true, true, true, s, e⟩ := by
  cases l with
  | nil => rfl
  | cons c l => exact scan_inr (by simp [StringScan.sliceStep])

/-- **How the value loop ends**: at a newline, at the end of the text, or behind two quotes. -/
inductive SliceEnd (buffer rest : Text) : Prop
  | newline (hmem : (0x0a : WChar) ∈ rest) (hline : ¬Complete rest)
      (hslice : slice buffer rest = none)
  | text (v : StringScan) (hmem : (0x0a : WChar) ∉ rest) (hline : ¬Complete rest)
      (hslice : slice buffer rest = some v) (hend : v.endText = buffer)
  | quotes (between gap value back : Text) (hquoted : Quoted between gap value)
      (hrest : rest = between ++ wchar '=' :: (gap ++ wchar '"' :: (value ++ wchar '"' :: back)))
      (hline : Complete rest)
      (hslice : slice buffer rest =
        some ⟨true, true, true, value ++ wchar '"' :: back, wchar '"' :: back⟩)

theorem slice_cases (buffer rest : Text) : SliceEnd buffer rest := by
  have hequals : (0x0a : WChar) ≠ wchar '=' := by decide
  have hquote : (0x0a : WChar) ≠ wchar '"' := by decide
  rcases line_cases (wchar '=') [wchar '"', wchar '"'] rest with ⟨h1, h2, hline⟩ |
    ⟨between, back, rfl, h1, h2, hline⟩ | ⟨between, rest, rfl, h1, h2, hline⟩
  · refine .text ⟨false, false, false, buffer, buffer⟩ h1 hline ?_ rfl
    rw [← List.append_nil rest, slice_before h1 h2]
    rfl
  · refine .newline (by simp) hline ?_
    rw [slice_before h1 h2]
    rfl
  have hslice : slice buffer (between ++ wchar '=' :: rest) =
      scan StringScan.sliceStep some ⟨true, false, false, buffer, buffer⟩ rest := by
    rw [slice_before h1 h2]
    rfl
  rcases line_cases (wchar '"') [wchar '"'] rest with ⟨h3, h4, hgap⟩ |
    ⟨gap, back, rfl, h3, h4, hgap⟩ | ⟨gap, rest, rfl, h3, h4, hgap⟩
  · refine .text ⟨true, false, false, buffer, buffer⟩ ?_ (fun h => hgap (hline.mp h)) ?_ rfl
    · simp [h1, h3, hequals]
    · rw [hslice, ← List.append_nil rest, scanSlice_before h3 h4]
      rfl
  · refine .newline (by simp) (fun h => hgap (hline.mp h)) ?_
    rw [hslice, scanSlice_before h3 h4]
    rfl
  have hslice' : slice buffer (between ++ wchar '=' :: (gap ++ wchar '"' :: rest)) =
      scan StringScan.sliceStep some ⟨true, true, false, rest, buffer⟩ rest := by
    rw [hslice, scanSlice_before h3 h4]
    rfl
  rcases line_cases (wchar '"') [] rest with ⟨h5, h6, hvalue⟩ |
    ⟨value, back, rfl, h5, h6, hvalue⟩ | ⟨value, back, rfl, h5, h6, hvalue⟩
  · refine .text ⟨true, true, false, rest, buffer⟩ ?_ (fun h => hvalue (hgap.mp (hline.mp h))) ?_
      rfl
    · simp [h1, h3, h5, hequals, hquote]
    · have hend := @scanSlice_before rest true rest buffer [] h5 h6
      rw [List.append_nil] at hend
      exact hslice'.trans hend
  · refine .newline (by simp) (fun h => hvalue (hgap.mp (hline.mp h))) ?_
    rw [hslice', scanSlice_before h5 h6]
    rfl
  · refine .quotes between gap value back ⟨?_, h2, ?_⟩ rfl ?_ ?_
    · simp [h1, h3, h5]
    · simp [h4, h6]
    · exact hline.mpr (hgap.mpr (hvalue.mpr (List.nil_sublist _)))
    · rw [hslice', scanSlice_before h5 h6]
      exact scanSlice_closed

/-! ## The slice -/

theorem found_quoted :
    StringScan.found ⟨true, true, true, value ++ wchar '"' :: back, wchar '"' :: back⟩ =
      .ok (some value) := by
  have hnot : ¬(value ++ wchar '"' :: back).length < (wchar '"' :: back).length := by
    rw [List.length_append]
    omega
  rw [StringScan.found, if_neg hnot, List.length_append, Nat.add_sub_cancel, List.take_left]

/-- A loop that falls out of the text has no end of the value. -/
theorem found_ne (v : StringScan) : v.found ≠ .ok none := by
  unfold StringScan.found
  split <;> simp

/-- The quotes, where the line is known. -/
theorem Encloses.of_line {startIndex endIndex : Nat} (hquoted : Quoted between gap value)
    (hbuffer : buffer = front ++ key ++
      (between ++ wchar '=' :: (gap ++ wchar '"' :: (value ++ wchar '"' :: back))))
    (hstart : startIndex = (front ++ key ++ between).length + gap.length + 2)
    (hend : endIndex = startIndex + value.length) :
    Encloses buffer front key startIndex endIndex := by
  have hopening : buffer = (front ++ key ++ between ++ wchar '=' :: gap) ++
      wchar '"' :: (value ++ wchar '"' :: back) := by
    rw [hbuffer]
    simp only [List.append_assoc, List.cons_append]
  have hclosing : buffer = (front ++ key ++ between ++ wchar '=' :: (gap ++ wchar '"' :: value)) ++
      wchar '"' :: back := by
    rw [hbuffer]
    simp only [List.append_assoc, List.cons_append]
  have hlength := congrArg List.length hclosing
  simp only [List.length_append, List.length_cons] at hstart hlength
  refine ⟨by omega, by omega, by omega, ?_, ?_, between, gap, value, back, hquoted, hbuffer, ?_,
    hend⟩
  · rw [hopening, List.getElem?_append_right (by simp; omega)]
    refine (congrArg _ ?_).trans List.getElem?_cons_zero
    simp only [List.length_append, List.length_cons]
    omega
  · rw [hclosing, List.getElem?_append_right (by simp; omega)]
    refine (congrArg _ ?_).trans List.getElem?_cons_zero
    simp only [List.length_append, List.length_cons]
    omega
  · simp only [List.length_append]
    omega

theorem takeWhile_equals (h : wchar '=' ∉ between) :
    (between ++ wchar '=' :: l).takeWhile (· ≠ wchar '=') = between := by
  rw [List.takeWhile_append_of_pos fun c hc => decide_eq_true (ne_of_mem_of_not_mem hc h),
    List.takeWhile_cons_of_neg (by simp), List.append_nil]

/-- The value read behind a character that is not read is the one behind the first `=`. -/
theorem quoted_skipped (hlength : skipped.length ≤ 1) (hquoted : Quoted between gap value)
    (hskipped : ∀ c ∈ skipped, c ≠ 0x0a ∧ (c = wchar '=' → wchar '"' ∉ between)) :
    ∃ between' gap', Quoted between' gap' value ∧
      skipped ++ (between ++ wchar '=' :: gap) = between' ++ wchar '=' :: gap' := by
  cases skipped with
  | nil => exact ⟨between, gap, hquoted, rfl⟩
  | cons c skipped =>
    obtain rfl : skipped = [] := List.length_eq_zero_iff.mp (by simpa using hlength)
    obtain ⟨hnewline, hquote⟩ := hskipped c List.mem_cons_self
    obtain ⟨hline, hequals, hquotes⟩ := hquoted
    by_cases hc : c = wchar '='
    · refine ⟨[], between ++ wchar '=' :: gap, ⟨?_, List.not_mem_nil, ?_⟩, by rw [hc]; rfl⟩
      · have h1 : (0x0a : WChar) ≠ wchar '=' := by decide
        simpa [h1] using hline
      · have h1 : wchar '"' ≠ wchar '=' := by decide
        simpa [h1, hquote hc] using hquotes
    · refine ⟨c :: between, gap, ⟨?_, ?_, hquotes⟩, rfl⟩
      · simpa [Ne.symm hnewline] using hline
      · simpa [Ne.symm hc] using hequals

/-- Conversely. -/
theorem skipped_quoted {between' gap' value' : Text} (hlength : skipped.length ≤ 1)
    (hquoted : Quoted between' gap' value')
    (heq : skipped ++ (between ++ wchar '=' :: gap) = between' ++ wchar '=' :: gap')
    (hc : c ∈ skipped) : c ≠ 0x0a ∧ (c = wchar '=' → wchar '"' ∉ between) := by
  cases skipped with
  | nil => cases hc
  | cons d skipped =>
    obtain rfl : skipped = [] := List.length_eq_zero_iff.mp (by simpa using hlength)
    obtain rfl := List.mem_singleton.mp hc
    obtain ⟨hline, hequals, hquotes⟩ := hquoted
    cases between' with
    | nil =>
      obtain ⟨rfl, rfl⟩ := List.cons_eq_cons.mp heq
      exact ⟨by decide, fun _ hmem => hquotes (by simp [hmem])⟩
    | cons d between' =>
      obtain ⟨rfl, -⟩ := List.cons_eq_cons.mp heq
      refine ⟨?_, ?_⟩
      · rintro rfl
        exact hline List.mem_cons_self
      · rintro rfl
        exact absurd List.mem_cons_self hequals

/-- The indices behind two quotes, and what is copied. -/
theorem quoted_indices (hbuffer : buffer = front ++ wchar '"' :: (value ++ wchar '"' :: back))
    (hv : v = ⟨true, true, true, value ++ wchar '"' :: back, wchar '"' :: back⟩) :
    v.startIndex buffer = front.length + 1 ∧ v.endIndex buffer = front.length + 1 + value.length ∧
      v.found = .ok (some ((buffer.drop (v.startIndex buffer)).take
        (v.endIndex buffer - v.startIndex buffer))) := by
  have hstart : v.startIndex buffer = front.length + 1 := by
    rw [StringScan.startIndex, hbuffer, hv]
    simp only [List.length_append, List.length_cons]
    omega
  have hend : v.endIndex buffer = front.length + 1 + value.length := by
    rw [StringScan.endIndex, hbuffer, hv]
    simp only [List.length_append, List.length_cons]
    omega
  refine ⟨hstart, hend, ?_⟩
  rw [hstart, hend, Nat.add_sub_cancel_left, hv, found_quoted]
  have hvalue : buffer = (front ++ [wchar '"']) ++ (value ++ wchar '"' :: back) := by
    rw [hbuffer, List.append_assoc, List.singleton_append]
  have hlength : front.length + 1 = (front ++ [wchar '"']).length := by
    rw [List.length_append, List.length_singleton]
  rw [hvalue, hlength, List.drop_left, List.take_left]

/-- What stands between the key and the opening quote. -/
theorem Encloses.equals_value {startIndex endIndex : Nat}
    (h : Encloses buffer front key startIndex endIndex)
    (hbuffer : buffer = front ++ key ++ l ++ wchar '"' :: rest)
    (hstart : startIndex = (front ++ key ++ l).length + 1) :
    ∃ between gap value, Quoted between gap value ∧ l = between ++ wchar '=' :: gap := by
  obtain ⟨between, gap, value, back, hquoted, hvalue, hstart', -⟩ := h.value
  refine ⟨between, gap, value, hquoted, ?_⟩
  have hsame : l ++ wchar '"' :: rest =
      (between ++ wchar '=' :: gap) ++ wchar '"' :: (value ++ wchar '"' :: back) := by
    rw [hbuffer, List.append_assoc (front ++ key)] at hvalue
    have hcancel := List.append_cancel_left hvalue
    simpa only [List.append_assoc, List.cons_append] using hcancel
  have hlength : l.length = (between ++ wchar '=' :: gap).length := by
    simp only [List.length_append, List.length_cons] at hstart hstart' ⊢
    omega
  exact (List.append_inj hsame hlength).1

/-- **Two quotes are found**: the slice is safe if what is not read does not belong to the line. -/
theorem safe_quotes_iff {skip : Nat} (hsplit : buffer = front ++ key ++ behind)
    (hbehind : behind = skipped ++ (between ++ wchar '=' :: (gap ++ wchar '"' ::
      (value ++ wchar '"' :: back))))
    (hlength : skipped.length ≤ 1) (hquoted : Quoted between gap value)
    (hslice : slice buffer (behind.drop skip) = some v)
    (hv : v = ⟨true, true, true, value ++ wchar '"' :: back, wchar '"' :: back⟩) :
    Safe buffer key skip (some behind) v.found ↔
      ∀ c ∈ skipped, c ≠ 0x0a ∧ (c = wchar '=' → wchar '"' ∉ between) := by
  have hbuffer : buffer = front ++ key ++ (skipped ++ (between ++ wchar '=' :: gap)) ++
      wchar '"' :: (value ++ wchar '"' :: back) := by
    rw [hsplit, hbehind]
    simp only [List.append_assoc, List.cons_append]
  obtain ⟨hstart, hend, hfound⟩ := quoted_indices hbuffer hv
  constructor
  · rintro (hnone | ⟨front', behind', v', hfound', hsplit', hslice', hencloses, -⟩) c hc
    · exact absurd hnone (found_ne v)
    obtain rfl := Option.some.inj hfound'
    obtain rfl := Option.some.inj (hslice.symm.trans hslice')
    obtain rfl : front = front' := by
      rw [hsplit, List.append_left_inj, List.append_left_inj] at hsplit'
      exact hsplit'
    obtain ⟨between', gap', value', hquoted', heq⟩ := hencloses.equals_value hbuffer hstart
    exact skipped_quoted hlength hquoted' heq hc
  · intro h
    obtain ⟨between', gap', hquoted', heq⟩ := quoted_skipped hlength hquoted h
    refine Or.inr ⟨front, behind, v, rfl, hsplit, hslice, ?_, hfound⟩
    rw [heq] at hbuffer hstart hend
    have hline : buffer = front ++ key ++
        (between' ++ wchar '=' :: (gap' ++ wchar '"' :: (value ++ wchar '"' :: back))) := by
      rw [hbuffer]
      simp only [List.append_assoc, List.cons_append]
    refine Encloses.of_line hquoted' hline ?_ ?_
    · rw [hstart]
      simp only [List.length_append, List.length_cons]
      omega
    · rw [hstart, hend]

/-- **One overload**, where the key is found in front of `behind`. -/
theorem safe_iff {skip : Nat} (hskip : skip ≤ 1) (hsplit : buffer = front ++ key ++ behind) :
    Safe buffer key skip (some behind) (readString buffer (behind.drop skip)) ↔
      Ends (behind.take skip) (behind.drop skip) := by
  have hbehind := (List.take_append_drop skip behind).symm
  rw [readString_eq_slice]
  cases slice_cases buffer (behind.drop skip) with
  | newline hmem hline hslice =>
    rw [hslice]
    exact iff_of_true (Or.inl rfl) ⟨fun h => absurd h hline, fun _ => hmem⟩
  | text v hmem hline hslice hend =>
    rw [hslice]
    refine iff_of_false ?_ fun h => hmem (h.2 hline)
    rintro (hnone | ⟨front', behind', v', hfound, -, hslice', hencloses, -⟩)
    · exact found_ne v hnone
    · obtain rfl := Option.some.inj hfound
      obtain rfl := Option.some.inj (hslice.symm.trans hslice')
      have hzero : v.endIndex buffer = 0 := by rw [StringScan.endIndex, hend, Nat.sub_self]
      have hone := hencloses.one_le
      have horder := hencloses.order
      omega
  | quotes between gap value back hquoted hrest hline hslice =>
    rw [hslice]
    have hends : Ends (behind.take skip) (behind.drop skip) ↔
        ∀ c ∈ behind.take skip, c ≠ 0x0a ∧ (c = wchar '=' → wchar '"' ∉ between) := by
      rw [Ends, hrest, takeWhile_equals hquoted.equals, ← hrest]
      exact ⟨fun h => h.1 hline, fun h => ⟨fun _ => h, fun h => absurd hline h⟩⟩
    rw [hends]
    refine safe_quotes_iff hsplit (hbehind.trans (congrArg _ hrest)) ?_ hquoted hslice rfl
    rw [List.length_take]
    omega

/-- **The slice of both overloads is safe if and only if the value loop does not run out of text**,
and the character the overload with a tag does not read is no newline, and no `=` with a quote in
front of the next one. -/
theorem getValueString_safe_iff (buffer tag key : Text) :
    (Safe buffer key 1 (keyBehind tag key buffer) (getValueString (some buffer) tag key) ↔
        ∀ behind ∈ keyBehind tag key buffer, Ends (behind.take 1) (behind.drop 1)) ∧
      (Safe buffer key 0 (topBehind key buffer) (getTopString (some buffer) key) ↔
        ∀ behind ∈ topBehind key buffer, Ends [] behind) := by
  refine ⟨?_, ?_⟩
  · simp only [getValueString, seek_eq_behind]
    cases hfound : keyBehind tag key buffer with
    | none => exact iff_of_true (Or.inl rfl) fun _ h => absurd h (Option.not_mem_none _)
    | some behind =>
      obtain ⟨front, hsplit⟩ := keyBehind_split hfound
      refine (safe_iff le_rfl hsplit).trans ?_
      simp
  · simp only [getTopString, seekTop_eq_behind]
    cases hfound : topBehind key buffer with
    | none => exact iff_of_true (Or.inl rfl) fun _ h => absurd h (Option.not_mem_none _)
    | some behind =>
      obtain ⟨front, hsplit⟩ := topBehind_split hfound
      refine (safe_iff (Nat.zero_le 1) hsplit).trans ?_
      simp

/-- At the end of the text: an open quote gives a negative size, and no quote an empty value. -/
theorem value_not_closed :
    (∃ buffer tag key, getValueString (some buffer) tag key = .error .negativeSize ∧
      ¬Safe buffer key 1 (keyBehind tag key buffer) (getValueString (some buffer) tag key)) ∧
    ∃ buffer key, getTopString (some buffer) key = .ok (some []) ∧
      ¬Safe buffer key 0 (topBehind key buffer) (getTopString (some buffer) key) := by
  refine ⟨⟨text ":A\n\x7b\nk = \"ab", text "A", text "k", rfl, ?_⟩,
    text "k =", text "k", rfl, ?_⟩
  · rintro (h | ⟨front, behind, v, -, -, -, -, h⟩)
    · cases h
    · cases h
  · rintro (h | ⟨front, behind, v, hfound, -, hslice, hencloses, -⟩)
    · cases h
    · cases hfound
      cases hslice
      exact absurd hencloses.one_le (by decide)

end Parser

end IocpServer
