import IocpServer.Parser

/-!
# Which line `GetValue` reads

Texts in the form of `config.txt`, without comments: blocks of lines `key = number`.  The loops
match raw text, a tag as the beginning of a name and a key anywhere in a name or in the digits of a
number.

* `Config` — such a text, with names and numbers that are well formed.
* `Gives`, `Hides` — what the lines of a block make of a key.
* `seekTag_config`, `looked_lines` — the block and the line that are found.
* `getValueInt_exact_iff` — **the lookup is exact if and only if the first block whose tag begins with
  the tag gives, or hides, the key.**
-/

set_option autoImplicit false

namespace IocpServer

open Lib

namespace Parser

/-- The characters that are no letters, digits or spaces. -/
def special : List WChar :=
  [0, 0x08, 0x09, 0x0a, wchar '"', wchar '*', wchar '-', wchar '/', wchar ':', wchar '=', wchar '{',
    wchar '}']

/-- A name: letters, digits and inner spaces. -/
structure IsName (s : Text) : Prop where
  nonempty : s ≠ []
  chars : ∀ c ∈ s, c ∉ special
  first : s.head? ≠ some 0x20
  last : s.getLast? ≠ some 0x20

/-- The value of a sequence of digits, behind `v`. -/
def digitsFrom (v : Nat) (digits : Text) : Nat :=
  digits.foldl (fun v c => v * 10 + (c - wchar '0').toNat) v

/-- A written number. -/
def number (minus : Bool) (digits : Text) : Int :=
  if minus then -digitsFrom 0 digits else digitsFrom 0 digits

/-- `key = number`. -/
structure Line where
  name : Text
  minus : Bool
  digits : Text
  isName : IsName name
  digits_ne : digits ≠ []
  isDigits : ∀ c ∈ digits, isDigit c = true
  inRange : -2147483648 ≤ number minus digits ∧ number minus digits < 2147483648

structure Block where
  tag : Text
  lines : List Line
  isName : IsName tag
  nodup : (lines.map Line.name).Nodup

/-- The text ends with `}` or with a newline behind it. -/
structure Config where
  blocks : List Block
  newline : Bool
  nodup : (blocks.map Block.tag).Nodup

def Line.number (l : Line) : Int := Parser.number l.minus l.digits

def sign (minus : Bool) : Text := if minus then [wchar '-'] else []

def Line.render (l : Line) : Text :=
  l.name ++ text " = " ++ sign l.minus ++ l.digits ++ [0x0a]

def renderLines (lines : List Line) : Text := lines.flatMap Line.render

/-- The text of a block in front of `after`. -/
def Block.render (b : Block) (after : Text) : Text :=
  wchar ':' :: (b.tag ++ text "\n\x7b\n" ++ renderLines b.lines ++ wchar '}' :: after)

def renderBlocks (newline : Bool) : List Block → Text
  | [] => []
  | [b] => b.render (if newline then [0x0a] else [])
  | b :: b' :: blocks => b.render (0x0a :: renderBlocks newline (b' :: blocks))

def Config.render (c : Config) : Text := renderBlocks c.newline c.blocks

/-! ## The condition -/

/-- The key's text is in the line. -/
def Touches (key : Text) (l : Line) : Prop := key <:+: l.name ∨ key <:+: l.digits

instance (key : Text) (l : Line) : Decidable (Touches key l) :=
  inferInstanceAs (Decidable (_ ∨ _))

/-- The first place of the key in the digits is their end. -/
def EndsIn (key digits : Text) : Prop := key <:+ digits ∧ ¬key <:+: digits.dropLast

instance (key digits : Text) : Decidable (EndsIn key digits) :=
  inferInstanceAs (Decidable (_ ∧ _))

/-- From the first line with the key's text on. -/
def touched (key : Text) (lines : List Line) : List Line :=
  lines.dropWhile fun l => ¬Touches key l

/-- The first line with the key's text has it in its name and carries `n`; or it has it at the end
of its digits, and the next line carries `n`. -/
def Gives (key : Text) (lines : List Line) (n : Int) : Prop :=
  match touched key lines with
  | [] => False
  | l :: rest =>
    if key <:+: l.name then l.number = n
    else EndsIn key l.digits ∧ ∃ m ∈ rest.head?, m.number = n

/-- No line has the key's text; or the first that has it has it in its digits, and it is not at their
end or the line is the last. -/
def Hides (key : Text) (lines : List Line) : Prop :=
  match touched key lines with
  | [] => True
  | l :: rest => ¬key <:+: l.name ∧ (EndsIn key l.digits → rest = [])

/-- The first block whose tag begins with `tag`. -/
def Config.found (c : Config) (tag : Text) : Option Block := c.blocks.find? fun b => tag <+: b.tag

/-- The condition. -/
def Config.Clear (c : Config) (b : Block) (key : Text) : Prop :=
  ∃ b' ∈ c.found b.tag, (∀ l ∈ b.lines, l.name = key → Gives key b'.lines l.number) ∧
    ((∀ l ∈ b.lines, l.name ≠ key) → Hides key b'.lines)

/-- The number written for the key, or false. -/
def Block.Exact (b : Block) (key : Text) (result : Bool × Int32) : Prop :=
  (∀ l ∈ b.lines, l.name = key → result.1 = true ∧ result.2.toInt = l.number) ∧
    ((∀ l ∈ b.lines, l.name ≠ key) → result.1 = false)

variable {key tag digits : Text} {c : WChar} {l r rest pre post : Text} {m : Line}
  {lines : List Line} {v : Nat} {minus : Bool}

/-! ## Names -/

theorem IsName.sought (h : IsName key) : Sought key := by
  refine ⟨h.nonempty, fun c hc => ?_⟩
  have hspecial := h.chars c (List.mem_of_mem_head? hc)
  have hspace : c ≠ 0x20 := by
    rintro rfl
    exact h.first hc
  simp only [special, List.mem_cons, not_or] at hspecial
  simp [isBlank, hspace, hspecial]

theorem IsName.ne (h : IsName key) {s : WChar} (hs : s ∈ special) (hc : c ∈ key) : c ≠ s := by
  rintro rfl
  exact h.chars c hc hs

/-- What ends a name or a number in the text. -/
inductive Stop : Text → Prop
  | newline (t : Text) : Stop (0x0a :: t)
  | equals (t : Text) : Stop (0x20 :: wchar '=' :: t)

/-- A name does not reach beyond. -/
theorem IsName.prefix_iff (h : IsName key) (hr : Stop r) : key <+: l ++ r ↔ key <+: l := by
  refine ⟨?_, fun hl => hl.trans (List.prefix_append l r)⟩
  rintro ⟨t, ht⟩
  obtain ⟨u, rfl, -⟩ | ⟨u, rfl, hu⟩ := List.append_eq_append_iff.mp ht
  · exact List.prefix_append key u
  cases u with
  | nil => rw [List.append_nil]
  | cons b u =>
    exfalso
    cases hr with
    | newline =>
      obtain ⟨rfl, -⟩ := List.cons_eq_cons.mp hu
      exact h.ne (by decide) (List.mem_append_right l List.mem_cons_self) rfl
    | equals =>
      obtain ⟨rfl, htail⟩ := List.cons_eq_cons.mp hu
      cases u with
      | nil => exact h.last (by simp)
      | cons b u =>
        obtain ⟨rfl, -⟩ := List.cons_eq_cons.mp htail
        refine h.ne (s := wchar '=') (by decide) (List.mem_append_right l ?_) rfl
        exact List.mem_cons_of_mem _ List.mem_cons_self

/-! ## A name and a number are searched -/

/-- A text that neither begins a comment nor ends the block. -/
def Plain (l : Text) : Prop := wchar '/' ∉ l ∧ wchar '}' ∉ l

theorem Plain.tail (h : Plain (c :: l)) : Plain l :=
  ⟨fun hc => h.1 (List.mem_cons_of_mem c hc), fun hc => h.2 (List.mem_cons_of_mem c hc)⟩

theorem Plain.seekKey_cons (h : Plain (c :: l)) (hkey : IsName key) (hr : Stop r) :
    seekKey key .none (c :: l ++ r) =
      if key <+: c :: l then some ((c :: l ++ r).drop (key.length + 1))
      else seekKey key .none (l ++ r) := by
  have hslash : c ≠ wchar '/' := fun hc => h.1 (hc ▸ List.mem_cons_self)
  have hbrace : c ≠ wchar '}' := fun hc => h.2 (hc ▸ List.mem_cons_self)
  rw [List.cons_append, Parser.seekKey_cons hkey.sought hslash hbrace]
  rw [← List.cons_append]
  simp only [hkey.prefix_iff hr]

/-- The key is not there. -/
theorem seekKey_pass (hkey : IsName key) (hl : Plain l) (hr : Stop r) (hnot : ¬key <:+: l) :
    seekKey key .none (l ++ r) = seekKey key .none r := by
  induction l with
  | nil => rfl
  | cons c l ih =>
    rw [List.infix_cons_iff, not_or] at hnot
    rw [hl.seekKey_cons hkey hr, if_neg hnot.1]
    exact ih hl.tail hnot.2

/-- **The key is found at its first place.** -/
theorem seekKey_found (hkey : IsName key) (hl : Plain l) (hr : Stop r) (hin : key <:+: l) :
    ∃ pre post, l = pre ++ key ++ post ∧ ¬key <:+: (pre ++ key).dropLast ∧
      seekKey key .none (l ++ r) = some ((post ++ r).drop 1) := by
  induction l with
  | nil => exact absurd (List.infix_nil.mp hin) hkey.nonempty
  | cons c l ih =>
    by_cases hbegins : key <+: c :: l
    · obtain ⟨post, hpost⟩ := hbegins
      refine ⟨[], post, hpost.symm, ?_, ?_⟩
      · intro hinfix
        have hlen := hinfix.length_le
        have hpos := List.length_pos_of_ne_nil hkey.nonempty
        rw [List.nil_append, List.length_dropLast] at hlen
        omega
      · rw [hl.seekKey_cons hkey hr, if_pos ⟨post, hpost⟩, ← hpost, List.append_assoc,
          ← List.drop_drop, List.drop_left]
    · have hin := (List.infix_cons_iff.mp hin).resolve_left hbegins
      obtain ⟨pre, post, rfl, hfirst, hseek⟩ := ih hl.tail hin
      refine ⟨c :: pre, post, rfl, ?_, ?_⟩
      · intro hinfix
        have hne : pre ++ key ≠ [] := by simp [hkey.nonempty]
        rw [List.cons_append, List.dropLast_cons_of_ne_nil hne] at hinfix
        rcases List.infix_cons_iff.mp hinfix with hbegins' | hinfix
        · refine hbegins (hbegins'.trans ?_)
          rw [List.prefix_cons_inj]
          exact List.IsPrefix.trans ( List.dropLast_prefix _) (List.prefix_append _ _)
        · exact hfirst hinfix
      · rw [hl.seekKey_cons hkey hr, if_neg hbegins]
        exact hseek

/-- Characters no name begins with are passed over. -/
theorem seekKey_skip (hl : Plain l) (hkey : ∀ c ∈ l, key.head? ≠ some c) :
    seekKey key .none (l ++ r) = seekKey key .none r := by
  refine scan_append fun c hc rest => keyStep_other ?_ ?_ (hkey c hc)
  · rintro rfl
    exact hl.1 hc
  · rintro rfl
    exact hl.2 hc

/-! ## The number -/

theorem intStep_digit {v : IntScan} (hseek : v.seekSign = true) (hc : isDigit c = true) :
    v.step c rest = .inl { v with
      numberSign := true
      value := v.value * 10 + Int32.ofNat (c - wchar '0').toNat } := by
  have hnewline : c ≠ 0x0a := by
    rintro rfl
    cases hc
  have hquote : c ≠ wchar '"' := by
    rintro rfl
    cases hc
  simp [IntScan.step, hnewline, hquote, hseek, hc]

/-- **Digits up to the end of the line.** -/
theorem readInt_digits {num : Bool} (hdigits : ∀ c ∈ digits, isDigit c = true)
    (hnum : num = true ∨ digits ≠ []) :
    scan IntScan.step IntScan.failed ⟨true, num, minus, Int32.ofNat v⟩ (digits ++ 0x0a :: rest) =
      (true, Int32.ofInt (if minus then -digitsFrom v digits else digitsFrom v digits)) := by
  induction digits generalizing num v with
  | nil =>
    have hnum := hnum.resolve_right fun h => h rfl
    subst hnum
    have hvalue : Int32.ofNat v = Int32.ofInt (v : Int) := Int32.ofInt_eq_ofNat.symm
    cases minus with
    | false => exact congrArg _ hvalue
    | true =>
      show (true, -Int32.ofNat v) = (true, Int32.ofInt (-(v : Int)))
      rw [Int32.ofInt_neg, hvalue]
  | cons c digits ih =>
    rw [List.cons_append, scan_inl (intStep_digit rfl (hdigits c List.mem_cons_self))]
    have hvalue : Int32.ofNat v * 10 + Int32.ofNat (c - wchar '0').toNat =
        Int32.ofNat (v * 10 + (c - wchar '0').toNat) := by
      rw [Int32.ofNat_add, Int32.ofNat_mul]
      rfl
    dsimp only
    rw [hvalue]
    exact ih (fun d hd => hdigits d (List.mem_cons_of_mem c hd)) (Or.inl rfl)

/-- What is in front of `=` is passed over. -/
theorem readInt_before {s : IntScan} (hs : s.seekSign = false) (hequals : wchar '=' ∉ l)
    (hnewline : (0x0a : WChar) ∉ l) :
    scan IntScan.step IntScan.failed s (l ++ r) = scan IntScan.step IntScan.failed s r := by
  refine scan_append fun c hc rest => ?_
  have hc1 : c ≠ 0x0a := fun h => hnewline (h ▸ hc)
  have hc2 : c ≠ wchar '=' := fun h => hequals (h ▸ hc)
  obtain ⟨seek, num, minus, value⟩ := s
  cases hs
  simp [IntScan.step, hc1, hc2]

/-- No `=` in the line. -/
theorem readInt_newline (hequals : wchar '=' ∉ l) (hnewline : (0x0a : WChar) ∉ l) :
    readInt (l ++ 0x0a :: r) = (false, 0) := by
  rw [readInt, readInt_before rfl hequals hnewline]
  rfl

/-- **The number of a line is read.** -/
theorem readInt_line (hequals : wchar '=' ∉ l) (hnewline : (0x0a : WChar) ∉ l) :
    ∃ value, readInt (l ++ wchar '=' :: 0x20 :: (sign m.minus ++ (m.digits ++ 0x0a :: r))) =
        (true, value) ∧ value.toInt = m.number := by
  refine ⟨Int32.ofInt m.number, ?_, Int32.toInt_ofInt_of_le m.inRange.1 m.inRange.2⟩
  have hdigits := fun minus => @readInt_digits m.digits r 0 minus false m.isDigits
    (Or.inr m.digits_ne)
  rw [readInt, readInt_before rfl hequals hnewline, Line.number, number]
  cases m.minus with
  | false => exact hdigits false
  | true => exact hdigits true

/-! ## The lines of a block -/

theorem IsName.not_mem (h : IsName key) (hc : c ∈ special) : c ∉ key := fun hmem =>
  h.chars c hmem hc

theorem IsName.plain (h : IsName key) : Plain key := ⟨h.not_mem (by decide), h.not_mem (by decide)⟩

theorem Line.not_mem_digits (m : Line) (hc : isDigit c = false) : c ∉ m.digits := by
  intro hmem
  rw [m.isDigits c hmem] at hc
  cases hc

theorem Line.plain_digits (m : Line) : Plain m.digits :=
  ⟨m.not_mem_digits rfl, m.not_mem_digits rfl⟩

theorem render_append : m.render ++ rest =
    m.name ++ 0x20 :: wchar '=' :: 0x20 :: (sign m.minus ++ (m.digits ++ 0x0a :: rest)) := by
  have htext : text " = " = [0x20, wchar '=', 0x20] := by decide
  simp [Line.render, htext]

theorem endsIn_iff (h : digits = pre ++ key ++ post) (hfirst : ¬key <:+: (pre ++ key).dropLast) :
    EndsIn key digits ↔ post = [] := by
  subst h
  constructor
  · rintro ⟨-, hnot⟩
    by_contra hpost
    refine hnot ⟨pre, post.dropLast, ?_⟩
    rw [List.dropLast_append_of_ne_nil hpost]
  · rintro rfl
    rw [List.append_nil]
    exact ⟨List.suffix_append pre key, hfirst⟩

/-- The third loop behind the second. -/
def readAt (position : Option Text) : Bool × Int32 :=
  match position with
  | none => (false, 0)
  | some rest => readInt rest

/-- What a lookup makes of the lines from the first with the key's text on. -/
inductive Looked (key : Text) : List Line → Bool × Int32 → Prop
  | absent : Looked key [] (false, 0)
  | name {m : Line} {lines : List Line} {value : Int32} (hname : key <:+: m.name)
      (hvalue : value.toInt = m.number) : Looked key (m :: lines) (true, value)
  | inside {m : Line} {lines : List Line} (hname : ¬key <:+: m.name)
      (hends : ¬EndsIn key m.digits) : Looked key (m :: lines) (false, 0)
  | last {m : Line} (hname : ¬key <:+: m.name) (hends : EndsIn key m.digits) :
      Looked key [m] (false, 0)
  | next {m m' : Line} {lines : List Line} {value : Int32} (hname : ¬key <:+: m.name)
      (hends : EndsIn key m.digits) (hvalue : value.toInt = m'.number) :
      Looked key (m :: m' :: lines) (true, value)

/-- The line with the key in its name. -/
theorem looked_name (hkey : IsName key) (hname : key <:+: m.name) :
    Looked key (m :: lines) (readAt (seekKey key .none (m.render ++ rest))) := by
  obtain ⟨pre, post, hsplit, -, hseek⟩ := seekKey_found hkey m.isName.plain (.equals _) hname
  rw [render_append, hseek]
  have hpost : ∀ {c}, c ∈ special → c ∉ post := by
    intro c hc hmem
    refine m.isName.not_mem hc ?_
    rw [hsplit]
    exact List.mem_append_right _ hmem
  cases post with
  | nil =>
    obtain ⟨value, hread, hvalue⟩ := @readInt_line [] rest m (by simp) (by simp)
    show Looked key _ (readInt _)
    rw [show List.drop 1 ([] ++ 0x20 :: wchar '=' :: _) = [] ++ wchar '=' :: _ from rfl, hread]
    exact .name hname hvalue
  | cons c post =>
    have hnot : ∀ {d}, d ∈ special → d ≠ 0x20 → d ∉ post ++ [0x20] := by
      intro d hd hspace hmem
      rcases List.mem_append.mp hmem with hmem | hmem
      · exact hpost hd (List.mem_cons_of_mem c hmem)
      · exact hspace (List.mem_singleton.mp hmem)
    obtain ⟨value, hread, hvalue⟩ := @readInt_line (post ++ [0x20]) rest m
      (hnot (by decide) (by decide)) (hnot (by decide) (by decide))
    rw [List.append_assoc] at hread
    show Looked key _ (readInt (post ++ _))
    rw [show (0x20 :: wchar '=' :: _ : Text) = [0x20] ++ wchar '=' :: _ from rfl, hread]
    exact .name hname hvalue

/-- What stands behind a brace. -/
def Closed (after : Text) : Prop := after = [] ∨ ∃ t, after = 0x0a :: t

variable {after : Text}

/-- The third loop at the beginning of a line, or at the brace. -/
theorem readInt_next :
    ∃ value, readInt (renderLines (m :: lines) ++ wchar '}' :: after) = (true, value) ∧
      value.toInt = m.number := by
  have hnot : ∀ {d}, d ∈ special → d ≠ 0x20 → d ∉ m.name ++ [0x20] := by
    intro d hd hspace hmem
    rcases List.mem_append.mp hmem with hmem | hmem
    · exact m.isName.not_mem hd hmem
    · exact hspace (List.mem_singleton.mp hmem)
  have hread := @readInt_line (m.name ++ [0x20]) (renderLines lines ++ wchar '}' :: after) m
    (hnot (by decide) (by decide)) (hnot (by decide) (by decide))
  rw [renderLines, List.flatMap_cons, List.append_assoc, render_append]
  rwa [List.append_assoc] at hread

theorem readInt_brace (hafter : Closed after) : readInt (wchar '}' :: after) = (false, 0) := by
  rcases hafter with rfl | ⟨t, rfl⟩
  · rfl
  · exact @readInt_newline [wchar '}'] t (by decide) (by decide)

theorem head_ne (hkey : IsName key) (hc : c ∈ special ∨ c = 0x20) : key.head? ≠ some c := by
  intro hhead
  rcases hc with hc | rfl
  · exact hkey.not_mem hc (List.mem_of_mem_head? hhead)
  · exact hkey.first hhead

/-- Between the name and the digits no key begins. -/
theorem seekKey_equals (hkey : IsName key) :
    seekKey key .none (0x20 :: wchar '=' :: 0x20 :: (sign minus ++ rest)) =
      seekKey key .none rest := by
  have hskip : ∀ c ∈ ([0x20, wchar '=', 0x20, wchar '-'] : Text), key.head? ≠ some c := by
    intro c hc
    refine head_ne hkey ?_
    revert c
    decide
  cases minus with
  | false =>
    refine @seekKey_skip key [0x20, wchar '=', 0x20] rest ⟨by decide, by decide⟩ fun c hc =>
      hskip c ?_
    exact List.mem_append_left [wchar '-'] hc
  | true =>
    exact @seekKey_skip key [0x20, wchar '=', 0x20, wchar '-'] rest ⟨by decide, by decide⟩ hskip

/-- The line with the key in its digits. -/
theorem looked_digits (hkey : IsName key) (hafter : Closed after) (hname : ¬key <:+: m.name)
    (hdigits : key <:+: m.digits) :
    Looked key (m :: lines)
      (readAt (seekKey key .none (m.render ++ (renderLines lines ++ wchar '}' :: after)))) := by
  obtain ⟨pre, post, hsplit, hfirst, hseek⟩ :=
    seekKey_found (r := 0x0a :: (renderLines lines ++ wchar '}' :: after)) hkey m.plain_digits
      (.newline _) hdigits
  have hends := endsIn_iff hsplit hfirst
  rw [render_append, seekKey_pass hkey m.isName.plain (.equals _) hname, seekKey_equals hkey, hseek]
  cases post with
  | nil =>
    have hends := hends.mpr rfl
    show Looked key _ (readInt (renderLines lines ++ wchar '}' :: after))
    cases lines with
    | nil =>
      rw [show renderLines [] ++ wchar '}' :: after = wchar '}' :: after from rfl,
        readInt_brace hafter]
      exact .last hname hends
    | cons m' lines =>
      obtain ⟨value, hread, hvalue⟩ := @readInt_next m' lines after
      rw [hread]
      exact .next hname hends hvalue
  | cons c post =>
    have hnot : ∀ {d}, isDigit d = false → d ∉ post := by
      intro d hd hmem
      refine m.not_mem_digits hd ?_
      rw [hsplit]
      exact List.mem_append_right _ (List.mem_cons_of_mem c hmem)
    show Looked key _ (readInt (post ++ 0x0a :: _))
    rw [readInt_newline (hnot rfl) (hnot rfl)]
    exact .inside hname fun h => absurd (hends.mp h) (List.cons_ne_nil c post)

/-- A line without the key's text is passed over. -/
theorem seekKey_line (hkey : IsName key) (hnot : ¬Touches key m) :
    seekKey key .none (m.render ++ rest) = seekKey key .none rest := by
  obtain ⟨hname, hdigits⟩ := not_or.mp hnot
  rw [render_append, seekKey_pass hkey m.isName.plain (.equals _) hname, seekKey_equals hkey,
    seekKey_pass hkey m.plain_digits (.newline _) hdigits]
  exact @seekKey_skip key [0x0a] rest ⟨by decide, by decide⟩ fun c hc =>
    head_ne hkey (Or.inl (by rw [List.mem_singleton.mp hc]; decide))

/-- **The second and the third loop over the lines of a block.** -/
theorem looked_lines (hkey : IsName key) (hafter : Closed after) :
    Looked key (touched key lines)
      (readAt (seekKey key .none (renderLines lines ++ wchar '}' :: after))) := by
  induction lines with
  | nil =>
    have hbrace := @seekKey_brace key after
    rw [show renderLines [] ++ wchar '}' :: after = wchar '}' :: after from rfl, hbrace]
    exact .absent
  | cons m lines ih =>
    rw [renderLines, List.flatMap_cons, List.append_assoc, touched, List.dropWhile_cons]
    by_cases htouches : Touches key m
    · rw [if_neg (by simpa using htouches)]
      by_cases hname : key <:+: m.name
      · exact looked_name hkey hname
      · exact looked_digits hkey hafter hname (htouches.resolve_left hname)
    · rw [if_pos (by simpa using htouches), seekKey_line hkey htouches]
      exact ih

/-! ## The blocks -/

/-- No tag begins in a block's lines. -/
theorem seekTag_pass (hslash : wchar '/' ∉ l) (hcolon : wchar ':' ∉ l) :
    seekTag tag .none (l ++ r) = seekTag tag .none r := by
  refine scan_append fun c hc rest => tagStep_other ?_ ?_
  · rintro rfl
    exact hslash hc
  · rintro rfl
    exact hcolon hc

theorem not_mem_renderLines (hspecial : c ∈ special)
    (hother : c ∉ [0x0a, 0x20, wchar '=', wchar '-']) : c ∉ renderLines lines := by
  have hdigit : isDigit c = false := by
    revert c
    decide
  simp only [List.mem_cons, not_or, List.not_mem_nil, not_false_eq_true, and_true] at hother
  obtain ⟨h1, h2, h3, h4⟩ := hother
  rw [renderLines, List.mem_flatMap]
  rintro ⟨m, -, hmem⟩
  rw [← List.append_nil m.render, render_append] at hmem
  have hsign : c ∉ sign m.minus := by
    cases m.minus <;> simp [sign, h4]
  simp [m.isName.not_mem hspecial, m.not_mem_digits hdigit, hsign, h1, h2, h3] at hmem

variable {b : Block} {blocks : List Block} {newline : Bool}

theorem text_brace : text "\n\x7b\n" = [0x0a, wchar '{', 0x0a] := by decide

/-- Another block is passed over. -/
theorem seekTag_other (hname : IsName tag) (hnot : ¬tag <+: b.tag) :
    seekTag tag .none (b.render rest) = seekTag tag .none rest := by
  have hrest : Stop (text "\n\x7b\n" ++ renderLines b.lines ++ wchar '}' :: rest) := by
    rw [text_brace]
    exact .newline _
  have hmem : ∀ {d}, d ∈ special → d ∉ [0x0a, 0x20, wchar '=', wchar '-', wchar '{', wchar '}'] →
      d ∉ b.tag ++ text "\n\x7b\n" ++ renderLines b.lines ++ [wchar '}'] := by
    intro d hd hother
    simp only [List.mem_cons, not_or, List.not_mem_nil, not_false_eq_true, and_true] at hother
    have hlines : d ∉ renderLines b.lines := not_mem_renderLines hd (by simp [hother])
    simp [text_brace, b.isName.not_mem hd, hother, hlines]
  have hbegins : ¬tag <+: b.tag ++ text "\n\x7b\n" ++ renderLines b.lines ++ wchar '}' :: rest := by
    rw [List.append_assoc, List.append_assoc, hname.prefix_iff]
    · exact hnot
    · rw [← List.append_assoc]
      exact hrest
  rw [Block.render, seekTag_colon, if_neg hbegins]
  have hpass := @seekTag_pass tag (b.tag ++ text "\n\x7b\n" ++ renderLines b.lines ++ [wchar '}']) rest
    (hmem (by decide) (by decide)) (hmem (by decide) (by decide))
  rwa [List.append_assoc] at hpass

/-- The block with the tag is entered. -/
theorem seekTag_found (hbegins : tag <+: b.tag) :
    seekTag tag .none (b.render rest) =
      some (.none, 0x0a :: (renderLines b.lines ++ wchar '}' :: rest)) := by
  obtain ⟨t, ht⟩ := hbegins
  have hbrace : wchar '{' ∉ t ++ [0x0a] := by
    have hnot := b.isName.not_mem (c := wchar '{') (by decide)
    rw [← ht, List.mem_append, not_or] at hnot
    simp [hnot.2]
    decide
  rw [Block.render, seekTag_colon, if_pos]
  · rw [← ht, List.append_assoc, List.append_assoc, List.append_assoc, List.drop_left, text_brace]
    have hopen := @openBrace_append (t ++ [0x0a])
      (0x0a :: (renderLines b.lines ++ wchar '}' :: rest)) hbrace
    rw [List.append_assoc] at hopen
    exact congrArg (Option.map _) hopen
  · exact ⟨t ++ _, by rw [← List.append_assoc, ht, List.append_assoc, List.append_assoc]⟩

/-- **The first block whose tag begins with the tag.** -/
theorem seekTag_config (newline : Bool) (hname : IsName tag)
    (hfound : blocks.find? (fun b => tag <+: b.tag) = some b) :
    ∃ after, Closed after ∧ seekTag tag .none (renderBlocks newline blocks) =
      some (.none, 0x0a :: (renderLines b.lines ++ wchar '}' :: after)) := by
  induction blocks with
  | nil => cases hfound
  | cons b' blocks ih =>
    have hrender : ∃ after, Closed after ∧ renderBlocks newline (b' :: blocks) = b'.render after ∧
        (blocks ≠ [] → after = 0x0a :: renderBlocks newline blocks) := by
      cases blocks with
      | nil =>
        refine ⟨_, ?_, rfl, fun h => absurd rfl h⟩
        cases newline
        · exact Or.inl rfl
        · exact Or.inr ⟨[], rfl⟩
      | cons b'' blocks => exact ⟨_, Or.inr ⟨_, rfl⟩, rfl, fun _ => rfl⟩
    obtain ⟨after, hclosed, hrender, hmore⟩ := hrender
    rw [hrender]
    by_cases hbegins : tag <+: b'.tag
    · rw [List.find?_cons_of_pos (by simpa using hbegins)] at hfound
      cases hfound
      exact ⟨after, hclosed, seekTag_found hbegins⟩
    · rw [List.find?_cons_of_neg (by simpa using hbegins)] at hfound
      have hne : blocks ≠ [] := by
        rintro rfl
        cases hfound
      obtain ⟨after', hclosed', hseek⟩ := ih hfound
      refine ⟨after', hclosed', ?_⟩
      rw [seekTag_other hname hbegins, hmore hne]
      have hpass := @seekTag_pass tag [0x0a] (renderBlocks newline blocks) (by decide) (by decide)
      exact hpass.trans hseek

/-! ## The condition is exact -/

variable {result : Bool × Int32} {n : Int}

theorem Looked.gives_iff (h : Looked key (touched key lines) result) :
    result.1 = true ∧ result.2.toInt = n ↔ Gives key lines n := by
  unfold Gives
  generalize touched key lines = found at h
  cases h with
  | absent => simp
  | name hname hvalue => simp [hname, hvalue]
  | inside hname hends => simp [hname, hends]
  | last hname hends => simp [hname, hends]
  | next hname hends hvalue => simp [hname, hends, hvalue]

theorem Looked.hides_iff (h : Looked key (touched key lines) result) :
    result.1 = false ↔ Hides key lines := by
  unfold Hides
  generalize touched key lines = found at h
  cases h with
  | absent => simp
  | name hname hvalue => simp [hname]
  | inside hname hends => simp [hname, hends]
  | last hname hends => simp [hname, hends]
  | next hname hends hvalue => simp [hname, hends]

/-- A key in the name of the first line. -/
theorem gives_head (hname : key <:+: m.name) : Gives key (m :: lines) m.number := by
  simp [Gives, touched, Touches, hname]

/-- The lookup of a tag that is there. -/
theorem looked_getValueInt {c : Config} (value : Int32) (hname : IsName tag) (hkey : IsName key)
    (hfound : c.found tag = some b) :
    Looked key (touched key b.lines) (getValueInt (some c.render) tag key value) := by
  obtain ⟨after, hclosed, hseek⟩ := seekTag_config c.newline hname hfound
  have hbegin := @seekKey_skip key [0x0a] (renderLines b.lines ++ wchar '}' :: after)
    ⟨by decide, by decide⟩ fun d hd =>
      head_ne hkey (Or.inl (by rw [List.mem_singleton.mp hd]; decide))
  have hvalue : getValueInt (some c.render) tag key value =
      readAt (seekKey key .none (renderLines b.lines ++ wchar '}' :: after)) := by
    rw [← hbegin]
    show readAt (seek tag key c.render) = _
    rw [seek, Config.render, hseek]
    rfl
  rw [hvalue]
  exact looked_lines hkey hclosed

/-- **`GetValue(tag, key, int&)` is exact if and only if the first block whose tag begins with the
tag gives the key, where the tag's own block has it, and hides it where not.** -/
theorem getValueInt_exact_iff {c : Config} {value : Int32} (hb : b ∈ c.blocks)
    (hkey : IsName key) :
    b.Exact key (getValueInt (some c.render) b.tag key value) ↔ c.Clear b key := by
  have hsome : (c.found b.tag).isSome := by
    rw [Config.found, List.find?_isSome]
    exact ⟨b, hb, by simp⟩
  obtain ⟨b', hfound⟩ := Option.isSome_iff_exists.mp hsome
  have hlooked := looked_getValueInt value b.isName hkey hfound
  unfold Config.Clear Block.Exact
  rw [hlooked.hides_iff]
  simp only [hlooked.gives_iff, hfound, Option.mem_def, Option.some.injEq, exists_eq_left']

/-- A line with a name that another begins with. -/
def players : Line where
  name := text "MaxPlayers"
  minus := false
  digits := text "17"
  isName := ⟨by decide, by decide, by decide, by decide⟩
  digits_ne := by decide
  isDigits := by decide
  inRange := by decide

/-- The other. -/
def player : Line where
  name := text "MaxPlayer"
  minus := true
  digits := text "5"
  isName := ⟨by decide, by decide, by decide, by decide⟩
  digits_ne := by decide
  isDigits := by decide
  inRange := by decide

/-- `:LanServer` with these lines. -/
def lanServer (lines : List Line) (nodup : (lines.map Line.name).Nodup) : Block where
  tag := text "LanServer"
  lines := lines
  isName := ⟨by decide, by decide, by decide, by decide⟩
  nodup := nodup

/-- The shorter name first: both keys are found. -/
theorem getValueInt_exact_players :
    ∃ c : Config, ∃ b ∈ c.blocks, b.lines = [player, players] ∧
      (b.Exact (text "MaxPlayer") (getValueInt (some c.render) b.tag (text "MaxPlayer") 0) ↔
        c.Clear b (text "MaxPlayer")) ∧
      c.Clear b (text "MaxPlayer") := by
  have hkey : IsName (text "MaxPlayer") := player.isName
  refine ⟨⟨[lanServer [player, players] (by decide)], true, by decide⟩, _, List.mem_cons_self, rfl,
    getValueInt_exact_iff List.mem_cons_self hkey, _, rfl, ?_, ?_⟩
  · intro l hl hname
    have hl : l = player ∨ l = players := by simpa [lanServer] using hl
    rcases hl with rfl | rfl
    · exact gives_head (m := player) (by decide)
    · exact absurd hname (by decide)
  · intro hnone
    exact absurd rfl (hnone player List.mem_cons_self)

/-- The longer name first: its number is returned for the shorter. -/
theorem longer_name_first :
    ∃ c : Config, ∃ b ∈ c.blocks, ∃ l ∈ b.lines, l.number = -5 ∧
      getValueInt (some c.render) b.tag l.name 0 = (true, 17) ∧
      ¬b.Exact l.name (getValueInt (some c.render) b.tag l.name 0) := by
  refine ⟨⟨[lanServer [players, player] (by decide)], true, by decide⟩, _, List.mem_cons_self,
    player, by simp [lanServer], by decide, by decide, fun hexact => ?_⟩
  have hnumber := (hexact.1 player (by simp [lanServer]) rfl).2
  exact absurd hnumber (by decide)

end Parser

end IocpServer
