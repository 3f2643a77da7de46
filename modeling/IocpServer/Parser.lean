import IocpServer.Lib.Scan

/-!
# The configuration parser

The three overloads of `Parser::GetValue` with a tag.  Each runs three loops over the buffer: to the
tag and the brace behind it, to the key, and over the value; the first two are the same in all
three.

A text is the characters in front of the terminator, and an index into the buffer is the text from
there on.  `i++` inside a pass, which skips a character, is the flag `skipped`.

* `comment` — the part of a pass that deals with comments and blanks.
* `seek` — the first two loops: the text behind the key and the character after it.
* `readInt`, `readDouble`, `readString` — the third loop.
-/

set_option autoImplicit false

namespace IocpServer

open Lib

namespace Parser

/-- `WCHAR`. -/
abbrev WChar := UInt16

/-- What is in front of the terminator. -/
abbrev Text := List WChar

/-- The characters of a text one by one, not all of `WChar`. -/
instance (priority := 2000) decidableForallMem (p : WChar → Prop) [DecidablePred p] (s : Text) :
    Decidable (∀ c ∈ s, p c) := List.decidableBAll p s

/-- A character literal. -/
def wchar (c : Char) : WChar := UInt16.ofNat c.toNat

/-- A string literal. -/
def text (s : String) : Text := s.toList.map wchar

structure Flags where
  doubleSlashFlag : Bool
  singleSlashFlag : Bool
  /-- The pass before has counted `i` up. -/
  skipped : Bool
  deriving DecidableEq

/-- Both flags are down. -/
def Flags.none : Flags := ⟨false, false, false⟩

/-- 0x20, 0x08 and 0x09. -/
def isBlank (c : WChar) : Bool := c = 0x20 || c = 0x08 || c = 0x09

/-- The comments of a pass: the flags if it ends here, `none` if it looks at `c`.  `next` is
`buffer[i + 1]`, if `i + 1 < len`. -/
def comment (f : Flags) (c : WChar) (next : Option WChar) : Option Flags :=
  if f.skipped then some { f with skipped := false }
  else if c = 0x0a then some { f with doubleSlashFlag := false }
  else if f.doubleSlashFlag then some f
  else if f.singleSlashFlag then
    if c = wchar '*' ∧ next = some (wchar '/') then
      some { f with singleSlashFlag := false, skipped := true }
    else some f
  else if c = wchar '/' ∧ next = some (wchar '*') then
    some { f with singleSlashFlag := true, skipped := true }
  else if c = wchar '/' ∧ next = some (wchar '/') then
    some { f with doubleSlashFlag := true, skipped := true }
  else if isBlank c then some f
  else none

/-- `{` behind the tag. -/
def openBrace : Text → Option Text
  | [] => none
  | c :: rest => if c = wchar '{' then some rest else openBrace rest

/-- A pass of the loop that looks for the tag. -/
def tagStep (tag : Text) (f : Flags) (c : WChar) (rest : Text) :
    Flags ⊕ Option (Flags × Text) :=
  match comment f c rest.head? with
  | some f => .inl f
  | none =>
    if c = wchar ':' then
      -- `break`: the text is too short
      if rest.length ≤ tag.length then .inr none
      else if tag <+: rest then .inr ((openBrace (rest.drop tag.length)).map (f, ·))
      else .inl f
    else .inl f

/-- The loop that looks for the tag: the flags and `seekTag`. -/
def seekTag (tag : Text) : Flags → Text → Option (Flags × Text) :=
  scan (tagStep tag) fun _ => none

/-- A pass of the loop that looks for the key. -/
def keyStep (key : Text) (f : Flags) (c : WChar) (rest : Text) : Flags ⊕ Option Text :=
  if !f.skipped && c = wchar '}' then .inr none
  else
    match comment f c rest.head? with
    | some f => .inl f
    | none =>
      if key.head? = some c then
        -- `break`: the text is too short
        if (c :: rest).length < key.length then .inr none
        else if key <+: c :: rest then .inr (some ((c :: rest).drop (key.length + 1)))
        else .inl f
      else .inl f

/-- The loop that looks for the key: `seekKey`, one character behind the key. -/
def seekKey (key : Text) : Flags → Text → Option Text :=
  scan (keyStep key) fun _ => none

/-- The first two loops. -/
def seek (tag key buffer : Text) : Option Text := do
  let (f, rest) ← seekTag tag .none buffer
  seekKey key f rest

def isDigit (c : WChar) : Bool := wchar '0' ≤ c && c ≤ wchar '9'

/-! ## `int` -/

structure IntScan where
  seekSign : Bool
  numberSign : Bool
  minusSign : Bool
  value : Int32

namespace IntScan

/-- `return true`. -/
def found (v : IntScan) : Bool × Int32 := (true, if v.minusSign then -v.value else v.value)

/-- `return false`. -/
def failed (v : IntScan) : Bool × Int32 := (false, v.value)

def step (v : IntScan) (c : WChar) (_rest : Text) : IntScan ⊕ Bool × Int32 :=
  if c = 0x0a then .inr (if v.seekSign && v.numberSign then v.found else v.failed)
  else if !v.seekSign then .inl { v with seekSign := c = wchar '=' }
  else if c = wchar '"' then .inr v.failed
  else if isDigit c then
    .inl { v with
      numberSign := true
      value := v.value * 10 + Int32.ofNat (c - wchar '0').toNat }
  else if c = wchar '-' then .inl { v with minusSign := true }
  else if v.numberSign then .inr v.found
  else .inl v

end IntScan

def readInt : Text → Bool × Int32 :=
  scan IntScan.step IntScan.failed ⟨false, false, false, 0⟩

/-- `GetValue(tag, key, int& value)`; `buffer` is `none` before `ReadFile`. -/
def getValueInt (buffer : Option Text) (tag key : Text) (value : Int32) : Bool × Int32 :=
  match buffer with
  | none => (false, value)
  | some buffer =>
    match seek tag key buffer with
    | none => (false, 0)
    | some rest => readInt rest

/-! ## `double` -/

structure DoubleScan where
  seekSign : Bool
  numberSign : Bool
  minusSign : Bool
  demicalSign : Bool
  demicalDepth : Nat
  value : Float

namespace DoubleScan

/-- `return true`. -/
def found (v : DoubleScan) : Bool × Float := (true, if v.minusSign then -v.value else v.value)

/-- `return false`. -/
def failed (v : DoubleScan) : Bool × Float := (false, v.value)

def step (v : DoubleScan) (c : WChar) (_rest : Text) : DoubleScan ⊕ Bool × Float :=
  let digit := Float.ofNat (c - wchar '0').toNat
  if c = 0x0a then .inr (if v.seekSign && v.numberSign then v.found else v.failed)
  else if !v.seekSign then .inl { v with seekSign := c = wchar '=' }
  else if c = wchar '"' then .inr v.failed
  else if isDigit c then
    .inl (if v.demicalSign then
        { v with
          numberSign := true
          value := v.value + digit / Float.pow 10 (Float.ofNat v.demicalDepth)
          demicalDepth := v.demicalDepth + 1 }
      else { v with numberSign := true, value := v.value * 10 + digit })
  else if c = wchar '-' then .inl { v with minusSign := true }
  else if c = wchar '.' then .inl { v with demicalSign := true }
  else if v.numberSign then .inr v.found
  else .inl v

end DoubleScan

def readDouble : Text → Bool × Float :=
  scan DoubleScan.step DoubleScan.failed ⟨false, false, false, false, 1, 0⟩

/-- `GetValue(tag, key, double& value)`. -/
def getValueDouble (buffer : Option Text) (tag key : Text) (value : Float) : Bool × Float :=
  match buffer with
  | none => (false, value)
  | some buffer =>
    match seek tag key buffer with
    | none => (false, 0)
    | some rest => readDouble rest

/-! ## Strings -/

/-- `malloc`, `wmemset` and `wmemcpy_s` get a negative size. -/
inductive Fault where
  | negativeSize
  deriving DecidableEq

structure StringScan where
  seekSign : Bool
  charStartSign : Bool
  charEndSign : Bool
  /-- The buffer from `startIndex` on. -/
  startText : Text
  /-- The buffer from `endIndex` on. -/
  endText : Text

namespace StringScan

/-- `*value`: the characters from `startIndex` to `endIndex`. -/
def found (v : StringScan) : Except Fault (Option Text) :=
  if v.startText.length < v.endText.length then .error .negativeSize
  else .ok (some (v.startText.take (v.startText.length - v.endText.length)))

def step (v : StringScan) (c : WChar) (rest : Text) :
    StringScan ⊕ Except Fault (Option Text) :=
  if c = 0x0a ∧ !(v.seekSign && v.charStartSign && v.charEndSign) then .inr (.ok none)
  else if !v.seekSign then .inl { v with seekSign := c = wchar '=' }
  else if !v.charStartSign && c = wchar '"' then
    .inl { v with charStartSign := true, startText := rest }
  else if !v.charEndSign && c = wchar '"' then
    .inl { v with charEndSign := true, endText := c :: rest }
  else if v.charStartSign && v.charEndSign then .inr v.found
  else .inl v

end StringScan

/-- `startIndex` and `endIndex` are 0 at first. -/
def readString (buffer : Text) : Text → Except Fault (Option Text) :=
  scan StringScan.step StringScan.found ⟨false, false, false, buffer, buffer⟩

/-- `GetValue(tag, key, WCHAR** value)`: what is stored in `*value`, `none` for `return false`. -/
def getValueString (buffer : Option Text) (tag key : Text) : Except Fault (Option Text) :=
  match buffer with
  | none => .ok none
  | some buffer =>
    match seek tag key buffer with
    | none => .ok none
    | some rest => readString buffer rest

/-! ## Lemmas -/

variable {f : Flags} {c : WChar} {next : Option WChar} {tag key l rest : Text}

/-- Outside comments only `/` begins one. -/
theorem comment_none (h : c ≠ wchar '/') :
    comment .none c next = if c = 0x0a ∨ isBlank c then some .none else none := by
  by_cases hc : c = 0x0a <;> simp [comment, Flags.none, h, hc]

/-- A pass looks at its character only outside comments. -/
theorem comment_eq_none (h : comment f c next = none) : f = .none := by
  obtain ⟨double, single, skipped⟩ := f
  unfold comment at h
  cases skipped <;> cases double <;> cases single <;> first | rfl | grind

theorem tagStep_other (hslash : c ≠ wchar '/') (hcolon : c ≠ wchar ':') :
    tagStep tag .none c rest = .inl .none := by
  rw [tagStep, comment_none hslash]
  by_cases hc : c = 0x0a ∨ isBlank c <;> simp [hc, hcolon]

theorem keyStep_other (hslash : c ≠ wchar '/') (hbrace : c ≠ wchar '}')
    (hkey : key.head? ≠ some c) : keyStep key .none c rest = .inl .none := by
  rw [keyStep, comment_none hslash]
  by_cases hc : c = 0x0a ∨ isBlank c <;> simp [hc, hbrace, hkey]

/-- No tag is found in a text that is not longer. -/
theorem seekTag_short (h : l.length ≤ tag.length) : seekTag tag f l = none := by
  refine scan_eq_of_returns (fun _ => rfl) fun f c rest hsuffix r hr => ?_
  have hlen := hsuffix.length_le
  rw [List.length_cons] at hlen
  unfold tagStep at hr
  split at hr
  · cases hr
  · split at hr
    · rw [if_pos (by omega)] at hr
      cases hr
      rfl
    · cases hr

/-- No key is found in a text that is shorter. -/
theorem seekKey_short (h : l.length < key.length) : seekKey key f l = none := by
  refine scan_eq_of_returns (fun _ => rfl) fun f c rest hsuffix r hr => ?_
  have hlen := hsuffix.length_le
  unfold keyStep at hr
  split at hr
  · cases hr
    rfl
  · split at hr
    · cases hr
    · split at hr
      · rw [if_pos (by omega)] at hr
        cases hr
        rfl
      · cases hr

/-- **A colon**: the tag is behind it or somewhere later. -/
theorem seekTag_colon : seekTag tag .none (wchar ':' :: rest) =
    if tag <+: rest then (openBrace (rest.drop tag.length)).map (Flags.none, ·)
    else seekTag tag .none rest := by
  have hcomment : comment .none (wchar ':') rest.head? = none := by
    rw [comment_none (by decide)]
    rfl
  by_cases hlen : rest.length ≤ tag.length
  · have hstep : tagStep tag .none (wchar ':') rest = .inr none := by
      rw [tagStep, hcomment]
      exact if_pos hlen
    rw [seekTag, scan_inr hstep]
    split
    · rw [List.drop_eq_nil_of_le hlen]
      rfl
    · exact (seekTag_short hlen).symm
  · by_cases htag : tag <+: rest
    · have hstep : tagStep tag .none (wchar ':') rest =
          .inr ((openBrace (rest.drop tag.length)).map (Flags.none, ·)) := by
        rw [tagStep, hcomment]
        simp [hlen, htag]
      rw [seekTag, scan_inr hstep, if_pos htag]
    · have hstep : tagStep tag .none (wchar ':') rest = .inl .none := by
        rw [tagStep, hcomment]
        simp [hlen, htag]
      rw [seekTag, scan_inl hstep, if_neg htag]

/-- What the loops can look for: a text that begins with no blank. -/
structure Sought (key : Text) : Prop where
  nonempty : key ≠ []
  first : ∀ c ∈ key.head?, c ≠ 0x0a ∧ isBlank c = false

/-- **One character of a block**: the key begins there or later. -/
theorem seekKey_cons (hkey : Sought key) (hslash : c ≠ wchar '/') (hbrace : c ≠ wchar '}') :
    seekKey key .none (c :: rest) =
      if key <+: c :: rest then some ((c :: rest).drop (key.length + 1))
      else seekKey key .none rest := by
  by_cases hhead : key.head? = some c
  · obtain ⟨hnewline, hblank⟩ := hkey.first c hhead
    have hcomment : comment .none c rest.head? = none := by
      rw [comment_none hslash, hblank]
      simp [hnewline]
    by_cases hlen : (c :: rest).length < key.length
    · have hstep : keyStep key .none c rest = .inr none := by
        simp only [keyStep, hcomment, hbrace, decide_false, Bool.and_false, hhead, hlen,
          Bool.false_eq_true, if_false, if_true]
      have hnot : ¬key <+: c :: rest := fun h => absurd h.length_le (by omega)
      rw [seekKey, scan_inr hstep, if_neg hnot]
      rw [List.length_cons] at hlen
      exact (seekKey_short (by omega)).symm
    · by_cases hbegins : key <+: c :: rest
      · have hstep : keyStep key .none c rest =
            .inr (some ((c :: rest).drop (key.length + 1))) := by
          simp only [keyStep, hcomment, hbrace, decide_false, Bool.and_false, hhead, hlen, hbegins,
            Bool.false_eq_true, if_false, if_true]
        rw [seekKey, scan_inr hstep, if_pos hbegins]
      · have hstep : keyStep key .none c rest = .inl .none := by
          simp only [keyStep, hcomment, hbrace, decide_false, Bool.and_false, hhead, hlen, hbegins,
            Bool.false_eq_true, if_false, if_true]
        rw [seekKey, scan_inl hstep, if_neg hbegins]
  · have hnot : ¬key <+: c :: rest := by
      rw [List.prefix_cons_iff]
      rintro (h | ⟨t, rfl, -⟩)
      · exact hkey.nonempty h
      · exact hhead rfl
    rw [seekKey, scan_inl (keyStep_other hslash hbrace hhead), if_neg hnot]

/-- The end of the block. -/
theorem seekKey_brace : seekKey key .none (wchar '}' :: rest) = none := by
  have hstep : keyStep key .none (wchar '}') rest = .inr none := by simp [keyStep, Flags.none]
  rw [seekKey, scan_inr hstep]

theorem openBrace_none (h : wchar '{' ∉ l) : openBrace l = none := by
  induction l with
  | nil => rfl
  | cons c l ih =>
    rw [List.mem_cons, not_or] at h
    exact (if_neg (Ne.symm h.1)).trans (ih h.2)

theorem openBrace_append (h : wchar '{' ∉ l) :
    openBrace (l ++ wchar '{' :: rest) = some rest := by
  induction l with
  | nil => exact if_pos rfl
  | cons c l ih =>
    rw [List.mem_cons, not_or] at h
    exact (if_neg (Ne.symm h.1)).trans (ih h.2)

end Parser

end IocpServer
