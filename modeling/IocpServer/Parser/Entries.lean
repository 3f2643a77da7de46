import IocpServer.Parser.Comments
import IocpServer.Parser.ValueLoop

/-!
# Looking up a setting

Texts in the form of `config.txt`: groups of lines `key = value`, where a value is a number or a text
in quotes and a comment may follow it.

* `Content`, `Entry`, `Group` — such a text, with names, values and comments that are well formed.
* `Entry.Passed` — a line that has nothing a key begins with.
* `seek_entry` — **the first two loops end behind the name of a line that is the first with it.**
* `getValueInt_entry`, `getValueString_entry` — **the overloads return what is written there.**
-/

set_option autoImplicit false

namespace IocpServer

open Lib

namespace Parser

/-- What is written behind `=`. -/
inductive Content where
  | number (digits : Text)
  | quoted (s : Text)

namespace Content

def render : Content → Text
  | number digits => digits
  | quoted s => wchar '"' :: (s ++ [wchar '"'])

/-- A number has digits only; a text in quotes has letters, digits, dots and spaces. -/
def WellFormed : Content → Prop
  | number digits => digits ≠ [] ∧ ∀ c ∈ digits, isDigit c = true
  | quoted s => ∀ c ∈ s, c ∉ special

end Content

/-- `name = content`, and what may stand behind `//`. -/
structure Entry where
  name : Text
  content : Content
  remark : Option Text
  isName : IsName name
  wellFormed : content.WellFormed
  remark_ok : ∀ body ∈ remark, (0x0a : WChar) ∉ body ∧ wchar '}' ∉ body

namespace Entry

/-- The end of the line. -/
def trail (e : Entry) : Text := e.remark.elim [] fun body => text " //" ++ body

def render (e : Entry) : Text :=
  e.name ++ text " = " ++ e.content.render ++ e.trail ++ [0x0a]

/-- The key neither is in the name nor begins in the value. -/
def Passed (key : Text) (e : Entry) : Prop :=
  ¬key <:+: e.name ∧ ∀ c ∈ key.head?, c ∉ e.content.render

end Entry

structure Group where
  tag : Text
  entries : List Entry
  isName : IsName tag

def renderEntries (entries : List Entry) : Text := entries.flatMap Entry.render

/-- The text of a group in front of `after`. -/
def Group.render (g : Group) (after : Text) : Text :=
  wchar ':' :: (g.tag ++ text "\n\x7b\n" ++ renderEntries g.entries ++ wchar '}' :: after)

/-- The groups, with anything behind the last brace. -/
def renderGroups (ending : Text) : List Group → Text
  | [] => []
  | [g] => g.render ending
  | g :: g' :: groups => g.render (0x0a :: renderGroups ending (g' :: groups))

variable {e : Entry} {entries before after : List Entry} {g : Group} {groups front back : List Group}
  {key tag rest body l ending digits s : Text} {c : WChar} {v : Nat}

/-! ## The characters of a line -/

theorem isDigit_special : ∀ c ∈ special, isDigit c = false := by decide

theorem Content.not_mem (h : e.content.WellFormed) (hc : c ∈ special) (hquote : c ≠ wchar '"') :
    c ∉ e.content.render := by
  intro hmem
  cases hcontent : e.content with
  | number digits =>
    rw [hcontent] at h hmem
    have hdigit := h.2 c hmem
    rw [isDigit_special c hc] at hdigit
    cases hdigit
  | quoted s =>
    rw [hcontent] at h hmem
    rcases List.mem_cons.mp hmem with hmem | hmem
    · exact hquote hmem
    · rcases List.mem_append.mp hmem with hmem | hmem
      · exact h c hmem hc
      · exact hquote (List.mem_singleton.mp hmem)

theorem Entry.render_append : e.render ++ rest = e.name ++
    (0x20 :: wchar '=' :: 0x20 :: (e.content.render ++ (e.trail ++ 0x0a :: rest))) := by
  have hequals : text " = " = [0x20, wchar '=', 0x20] := by decide
  simp only [Entry.render, hequals, List.append_assoc, List.cons_append, List.nil_append]

/-- **A comment at the end of a line is passed over** by the loop to the tag and by the one to the
key. -/
theorem scan_trail {ρ : Type} {step : Flags → WChar → Text → Flags ⊕ ρ} {done : Flags → ρ}
    {bad : WChar → Bool} (hstep : Skips step bad)
    (hbad : ∀ c, bad c = true → c = wchar '}') :
    scan step done .none (e.trail ++ 0x0a :: rest) = scan step done .none rest := by
  have good : ∀ c, c ≠ wchar '}' → bad c = false := fun c hc => by
    by_contra h
    exact hc (hbad c (by simpa using h))
  have newline : ∀ f, f = .none ∨ f = inLine →
      scan step done f (0x0a :: rest) = scan step done .none rest := by
    rintro f (rfl | rfl) <;> exact scan_inl (hstep _ _ _ _ (Or.inr (good _ (by decide))) rfl)
  unfold Entry.trail
  cases hremark : e.remark with
  | none => exact newline _ (Or.inl rfl)
  | some body =>
    obtain ⟨hnewline, hclose⟩ := e.remark_ok body hremark
    have hslashes : text " //" = [0x20, wchar '/', wchar '/'] := by decide
    show scan step done .none (text " //" ++ body ++ 0x0a :: rest) = _
    rw [hslashes, List.append_assoc]
    show scan step done .none (0x20 :: wchar '/' :: wchar '/' :: (body ++ 0x0a :: rest)) = _
    rw [scan_inl (hstep _ _ _ .none (Or.inr (good _ (by decide))) rfl),
      scan_inl (hstep _ _ _ ⟨true, false, true⟩ (Or.inr (good _ (by decide))) rfl),
      scan_inl (hstep _ _ _ inLine (Or.inl rfl) rfl), scan_line hstep hnewline fun c hc => good c ?_]
    · exact newline _ (Or.inr rfl)
    · rintro rfl
      exact hclose hc

/-! ## The loop to the key -/

/-- Past a line that the key is not in. -/
theorem seekKey_entry (hkey : IsName key) (h : e.Passed key) :
    seekKey key .none (e.render ++ rest) = seekKey key .none rest := by
  have hcontent : ∀ c ∈ e.content.render, key.head? ≠ some c := fun c hc hhead =>
    h.2 c hhead hc
  have hplain : Plain e.content.render :=
    ⟨Content.not_mem e.wellFormed (by decide) (by decide),
      Content.not_mem e.wellFormed (by decide) (by decide)⟩
  have hequals := @seekKey_equals key (e.content.render ++ (e.trail ++ 0x0a :: rest)) false hkey
  rw [Entry.render_append, seekKey_pass hkey e.isName.plain (.equals _) h.1]
  refine hequals.trans ?_
  rw [seekKey_skip hplain hcontent]
  exact scan_trail skips_key fun c hc => by simpa [isClose] using hc

theorem seekKey_entries (hkey : IsName key) (h : ∀ e ∈ before, e.Passed key) :
    seekKey key .none (renderEntries before ++ rest) = seekKey key .none rest := by
  induction before with
  | nil => rfl
  | cons e before ih =>
    rw [renderEntries, List.flatMap_cons, List.append_assoc,
      seekKey_entry hkey (h e List.mem_cons_self)]
    exact ih fun e' he' => h e' (List.mem_cons_of_mem e he')

/-- **The line with the name.** -/
theorem seekKey_name : seekKey e.name .none (e.render ++ rest) =
    some (wchar '=' :: 0x20 :: (e.content.render ++ (e.trail ++ 0x0a :: rest))) := by
  obtain ⟨pre, post, hname, -, hfound⟩ := seekKey_found e.isName e.isName.plain
    (.equals (0x20 :: (e.content.render ++ (e.trail ++ 0x0a :: rest)))) (List.infix_refl e.name)
  have hlength := congrArg List.length hname
  rw [List.length_append, List.length_append] at hlength
  obtain rfl : post = [] := List.eq_nil_of_length_eq_zero (by omega)
  rw [Entry.render_append, hfound]
  rfl

/-! ## The loop to the tag -/

theorem seekTag_entry : seekTag tag .none (e.render ++ rest) = seekTag tag .none rest := by
  have hnot : ∀ {d}, d ∈ special → d ∉ [wchar '"', 0x20, wchar '='] →
      d ∉ e.name ++ (0x20 :: wchar '=' :: 0x20 :: e.content.render) := by
    intro d hd hother
    simp only [List.mem_cons, not_or, List.not_mem_nil, not_false_eq_true, and_true] at hother
    have hcontent := Content.not_mem e.wellFormed hd hother.1
    simp [e.isName.not_mem hd, hother, hcontent]
  have hsplit : e.render ++ rest = (e.name ++ (0x20 :: wchar '=' :: 0x20 :: e.content.render)) ++
      (e.trail ++ 0x0a :: rest) := by
    rw [Entry.render_append]
    simp only [List.append_assoc, List.cons_append]
  rw [hsplit, seekTag_pass (hnot (by decide) (by decide)) (hnot (by decide) (by decide))]
  exact scan_trail skips_tag nofun

theorem seekTag_entries :
    seekTag tag .none (renderEntries entries ++ rest) = seekTag tag .none rest := by
  induction entries with
  | nil => rfl
  | cons e entries ih =>
    rw [renderEntries, List.flatMap_cons, List.append_assoc, seekTag_entry]
    exact ih

/-- Past another group. -/
theorem seekTag_group (htag : IsName tag) (hnot : ¬tag <+: g.tag) :
    seekTag tag .none (g.render rest) = seekTag tag .none rest := by
  have hbegins : ¬tag <+: g.tag ++ text "\n\x7b\n" ++ renderEntries g.entries ++ wchar '}' :: rest := by
    rw [List.append_assoc, List.append_assoc, htag.prefix_iff]
    · exact hnot
    · rw [text_brace]
      exact .newline _
  have hopen : seekTag tag .none (g.tag ++ text "\n\x7b\n" ++
      (renderEntries g.entries ++ wchar '}' :: rest)) =
      seekTag tag .none (renderEntries g.entries ++ wchar '}' :: rest) := by
    refine seekTag_pass ?_ ?_ <;> rw [text_brace, List.mem_append, not_or]
    · exact ⟨g.isName.not_mem (by decide), by decide⟩
    · exact ⟨g.isName.not_mem (by decide), by decide⟩
  rw [Group.render, seekTag_colon, if_neg hbegins, List.append_assoc, hopen, seekTag_entries]
  exact @seekTag_pass tag [wchar '}'] rest (by decide) (by decide)

/-- The group with the tag is entered. -/
theorem seekTag_here : seekTag g.tag .none (g.render rest) =
    some (.none, 0x0a :: (renderEntries g.entries ++ wchar '}' :: rest)) := by
  have hbrace : wchar '{' ∉ ([0x0a] : Text) := by decide
  rw [Group.render, seekTag_colon, List.append_assoc, List.append_assoc,
    if_pos (List.prefix_append _ _), List.drop_left, text_brace]
  exact congrArg (Option.map _) (openBrace_append hbrace)

/-- What stands behind the groups in front. -/
theorem renderGroups_cons : ∃ after, renderGroups ending (g :: groups) = g.render after ∧
    (groups ≠ [] → after = 0x0a :: renderGroups ending groups) := by
  cases groups with
  | nil => exact ⟨ending, rfl, fun h => absurd rfl h⟩
  | cons g' groups => exact ⟨_, rfl, fun _ => rfl⟩

/-- **The first group with the tag is entered.** -/
theorem seekTag_groups (hfront : ∀ g' ∈ front, ¬g.tag <+: g'.tag) : ∃ after,
    seekTag g.tag .none (renderGroups ending (front ++ g :: back)) =
      some (.none, 0x0a :: (renderEntries g.entries ++ wchar '}' :: after)) := by
  induction front with
  | nil =>
    obtain ⟨after, hrender, -⟩ := @renderGroups_cons g back ending
    exact ⟨after, by rw [List.nil_append, hrender, seekTag_here]⟩
  | cons g' front ih =>
    obtain ⟨after, hrender, hmore⟩ := @renderGroups_cons g' (front ++ g :: back) ending
    obtain ⟨after', hfound⟩ := ih fun g'' hg'' => hfront g'' (List.mem_cons_of_mem g' hg'')
    refine ⟨after', ?_⟩
    rw [List.cons_append, hrender, seekTag_group g.isName (hfront g' List.mem_cons_self),
      hmore (by simp)]
    exact (@seekTag_pass g.tag [0x0a] _ (by decide) (by decide)).trans hfound

/-! ## A line of the text -/

/-- **A line is found**: its tag is not the beginning of an earlier one, and the lines in front of it
have nothing its name begins with. -/
structure Finds (file : List Group) (tag : Text) (e : Entry) : Prop where
  groups : ∃ front g back, file = front ++ g :: back ∧ g.tag = tag ∧
    (∀ g' ∈ front, ¬tag <+: g'.tag) ∧
    ∃ before after, g.entries = before ++ e :: after ∧ ∀ e' ∈ before, e'.Passed e.name

/-- **The first two loops end behind the name of the line.** -/
theorem seek_entry {file : List Group} (h : Finds file tag e) : ∃ rest,
    seek tag e.name (renderGroups ending file) =
      some (wchar '=' :: 0x20 :: (e.content.render ++ (e.trail ++ 0x0a :: rest))) := by
  obtain ⟨front, g, back, rfl, rfl, hfront, before, after, hentries, hbefore⟩ := h.groups
  obtain ⟨rest, hgroup⟩ := @seekTag_groups g front back ending hfront
  have hnewline : seekKey e.name .none (0x0a :: (renderEntries g.entries ++ wchar '}' :: rest)) =
      seekKey e.name .none (renderEntries g.entries ++ wchar '}' :: rest) := by
    refine @seekKey_skip e.name [0x0a] _ ⟨by decide, by decide⟩ fun c hc => head_ne e.isName ?_
    exact Or.inl (by rw [List.mem_singleton.mp hc]; decide)
  rw [hentries, renderEntries, List.flatMap_append, List.flatMap_cons, List.append_assoc,
    List.append_assoc] at hnewline
  refine ⟨renderEntries after ++ wchar '}' :: rest, ?_⟩
  show ((seekTag g.tag .none _).bind fun x => seekKey e.name x.1 x.2) = _
  rw [hgroup, Option.bind_some, hentries, renderEntries, List.flatMap_append, List.flatMap_cons,
    List.append_assoc, List.append_assoc, hnewline]
  exact (seekKey_entries e.isName hbefore).trans seekKey_name

/-! ## The value -/

/-- A value ends at a blank or at the end of the line. -/
theorem trail_cons : ∃ c t, e.trail ++ 0x0a :: rest = c :: t ∧ (c = 0x0a ∨ c = 0x20) := by
  unfold Entry.trail
  cases e.remark with
  | none => exact ⟨_, _, rfl, Or.inl rfl⟩
  | some body =>
    have hslashes : text " //" = [0x20, wchar '/', wchar '/'] := by decide
    refine ⟨0x20, wchar '/' :: wchar '/' :: (body ++ 0x0a :: rest), ?_, Or.inr rfl⟩
    show text " //" ++ body ++ 0x0a :: rest = _
    rw [hslashes, List.append_assoc]
    rfl

/-- **Digits up to a blank or the end of the line.** -/
theorem scanInt_number {num : Bool} (hdigits : ∀ c ∈ digits, isDigit c = true)
    (hnum : num = true ∨ digits ≠ []) (hc : c = 0x0a ∨ c = 0x20) :
    scan IntScan.step IntScan.failed ⟨true, num, false, Int32.ofNat v⟩ (digits ++ c :: rest) =
      (true, Int32.ofNat (digitsFrom v digits)) := by
  induction digits generalizing num v with
  | nil =>
    obtain rfl := hnum.resolve_right fun h => h rfl
    rcases hc with rfl | rfl <;> rfl
  | cons d digits ih =>
    rw [List.cons_append, scan_inl (intStep_digit rfl (hdigits d List.mem_cons_self))]
    have hvalue : Int32.ofNat v * 10 + Int32.ofNat (d - wchar '0').toNat =
        Int32.ofNat (v * 10 + (d - wchar '0').toNat) := by
      rw [Int32.ofNat_add, Int32.ofNat_mul]
      rfl
    dsimp only
    rw [hvalue]
    exact ih (fun d' hd' => hdigits d' (List.mem_cons_of_mem d hd')) (Or.inl rfl)

/-- A text up to the quote behind it. -/
theorem scanQuote_text {x : Text} (hs : ∀ c ∈ s, c ∉ special) :
    scan QuoteScan.step QuoteScan.done (.inside x) (s ++ wchar '"' :: c :: rest) =
      .ok (some (x ++ s)) := by
  induction s generalizing x with
  | nil =>
    have hstep : QuoteScan.step (.inside x) (wchar '"') (c :: rest) = .inl (.closed x) := rfl
    rw [List.nil_append, List.append_nil, scan_inl hstep]
    exact quoteScan_closed
  | cons d s ih =>
    have hd := hs d List.mem_cons_self
    have hnewline : d ≠ 0x0a := fun h => hd (h ▸ by decide)
    have hquote : d ≠ wchar '"' := fun h => hd (h ▸ by decide)
    have hstep : QuoteScan.step (.inside x) d (s ++ wchar '"' :: c :: rest) =
        .inl (.inside (x ++ [d])) := by
      simp [QuoteScan.step, hnewline, hquote]
    rw [List.cons_append, scan_inl hstep, ih fun c hc => hs c (List.mem_cons_of_mem d hc),
      List.append_assoc, List.singleton_append]

/-- **The number of a line is returned.** -/
theorem getValueInt_entry {file : List Group} {value : Int32} (h : Finds file tag e)
    (hcontent : e.content = .number digits) :
    getValueInt (some (renderGroups ending file)) tag e.name value =
      (true, Int32.ofNat (digitsFrom 0 digits)) := by
  obtain ⟨rest, hseek⟩ := @seek_entry e tag ending file h
  obtain ⟨c, t, htrail, hc⟩ := @trail_cons e rest
  have hdigits := e.wellFormed
  rw [hcontent] at hdigits hseek
  rw [getValueInt]
  simp only [hseek, htrail]
  exact @scanInt_number t digits c 0 false hdigits.2 (Or.inr hdigits.1) hc

/-- **The text of a line is returned.** -/
theorem getValueString_entry {file : List Group} (h : Finds file tag e)
    (hcontent : e.content = .quoted s) :
    getValueString (some (renderGroups ending file)) tag e.name = .ok (some s) := by
  obtain ⟨rest, hseek⟩ := @seek_entry e tag ending file h
  obtain ⟨c, t, htrail, -⟩ := @trail_cons e rest
  have hs := e.wellFormed
  rw [hcontent] at hs hseek
  obtain ⟨behind, hbehind, hdrop⟩ := Option.map_eq_some_iff.mp (seek_eq_behind.symm.trans hseek)
  obtain ⟨before, hsplit⟩ := keyBehind_split hbehind
  have hlength : (behind.drop 1).length ≤ (renderGroups ending file).length := by
    rw [hsplit, List.length_append, List.length_drop]
    omega
  rw [getValueString]
  simp only [hseek]
  rw [← hdrop, readString_eq_quote hlength, hdrop, htrail]
  have hquoted : (Content.quoted s).render ++ c :: t = wchar '"' :: (s ++ wchar '"' :: c :: t) := by
    simp [Content.render]
  have hequals : ∀ t, QuoteScan.step .seek (wchar '=') t = .inl .ready := fun _ => rfl
  have hspace : ∀ t, QuoteScan.step .ready 0x20 t = .inl .ready := fun _ => rfl
  have hopen : ∀ t, QuoteScan.step .ready (wchar '"') t = .inl (.inside []) := fun _ => rfl
  rw [hquoted, scan_inl (hequals _), scan_inl (hspace _), scan_inl (hopen _)]
  exact scanQuote_text hs

end Parser

end IocpServer
