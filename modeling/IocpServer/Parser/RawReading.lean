import IocpServer.Parser.Items
import Mathlib.Data.List.TakeWhile

/-!
# The loops that do not look at comments

The search for the brace, and the third loop of the three overloads, over a text with comments and
without them.

* `Free`, `Calm` — no comment has a character the loop reacts to.
* `KeyClear`, `ValueClear` — the condition on the comments behind the key.
* `openBrace_items`, `scan_calm` — such comments are passed over.
* `ReadsNumber`, `SeeksEquals` — what the overloads have in common.
* `readInt_items`, `readDouble_items`, `readString_items` — **the value is the same.**
-/

set_option autoImplicit false

namespace IocpServer

open Lib

namespace Parser

/-- The items in front of the first character with `p`. -/
def upTo (p : WChar → Bool) (items : List Item) : List Item := items.takeWhile (!·.IsChar p)

/-- The items from the first character with `p` on. -/
def fromFirst (p : WChar → Bool) (items : List Item) : List Item := items.dropWhile (!·.IsChar p)

/-- No comment has a character with `p`. -/
def Free (p : WChar → Bool) (items : List Item) : Prop :=
  ∀ k ∈ items, ∀ c ∈ k.body, p c = false

/-- In front of the first character with `p` no comment has a character with `q`, or a newline only
where the text has one as well. -/
def Calm (p q : WChar → Bool) (items : List Item) : Prop :=
  ∀ k ∈ upTo p items, ∀ c ∈ k.body,
    q c = false ∨ c = 0x0a ∧ (fromFirst p items).head? = some (.char 0x0a)

instance (p q : WChar → Bool) (items : List Item) : Decidable (Calm p q items) :=
  inferInstanceAs (Decidable (∀ _ ∈ _, _))

def isBrace (c : WChar) : Bool := c = wchar '{'

def isClose (c : WChar) : Bool := c = wchar '}'

def isEquals (c : WChar) : Bool := c = 0x0a || c = wchar '='

def isQuote (c : WChar) : Bool := c = 0x0a || c = wchar '"'

/-- What ends the search for a number. -/
def isNumber (c : WChar) : Bool := c = 0x0a || c = wchar '"' || isDigit c

/-- What changes it. -/
def isSigned (c : WChar) : Bool := isNumber c || c = wchar '-' || c = wchar '.'

/-- The comments behind `=`: up to the number none has a character of a number, up to the opening
quote none has a quote, and up to the closing quote there is none. -/
structure ValueClear (value : List Item) : Prop where
  number : Calm isNumber isSigned value
  quote : Calm isQuote isQuote value
  inside : ∀ inside, fromFirst isQuote value = .char (wchar '"') :: inside →
    Calm isQuote isQuote inside ∧
      ∀ after, fromFirst isQuote inside = .char (wchar '"') :: after →
        ∀ k ∈ upTo isQuote inside, k.plain ≠ []

/-- The third loop begins one character behind the key. -/
def skipOne : List Item → List Item
  | .char _ :: rest => rest
  | rest => rest

/-- The comments behind the key: up to `=` none has `=` or a newline, and one right behind the key
is followed by neither. -/
structure KeyClear (rest : List Item) : Prop where
  next : ∀ k items, rest = k :: items → k.plain = [] →
    ∀ c ∈ (plain items).head?, isEquals c = false
  equals : Calm isEquals isEquals (skipOne rest)
  value : ∀ value, fromFirst isEquals (skipOne rest) = .char (wchar '=') :: value →
    ValueClear value

variable {items rest : List Item} {before : Option WChar} {tag key body t : Text} {c : WChar}
  {k : Item} {p : WChar → Bool}

/-! ## Items without a reaction -/

theorem upTo_append (p : WChar → Bool) (items : List Item) :
    upTo p items ++ fromFirst p items = items := List.takeWhile_append_dropWhile

/-- Where the items in front of a character end. -/
theorem fromFirst_cases (p : WChar → Bool) (items : List Item) :
    fromFirst p items = [] ∨ ∃ c rest, fromFirst p items = .char c :: rest ∧ p c = true := by
  induction items with
  | nil => exact Or.inl rfl
  | cons k items ih =>
    unfold fromFirst
    rw [List.dropWhile_cons]
    by_cases hk : k.IsChar p = true
    · rw [if_neg (by simp [hk])]
      cases k with
      | char c => exact Or.inr ⟨c, items, rfl, hk⟩
      | _ => cases hk
    · rw [if_pos (by simp [hk])]
      exact ih

theorem plain_upTo (h : c ∈ plain (upTo p items)) : p c = false := by
  obtain ⟨k, hk, hc⟩ := List.mem_flatMap.mp h
  have hnot := List.mem_takeWhile_imp hk
  cases k with
  | char d =>
    obtain rfl := List.mem_singleton.mp hc
    simpa [Item.IsChar] using hnot
  | _ => cases hc

theorem render_upTo (hfree : Free p (upTo p items)) (hslash : p (wchar '/') = false)
    (hstar : p (wchar '*') = false) (h : c ∈ render (upTo p items)) : p c = false := by
  obtain ⟨k, hk, hc⟩ := List.mem_flatMap.mp h
  rcases Item.mem_render hc with rfl | rfl | rfl | hbody
  · have hnot := List.mem_takeWhile_imp hk
    simpa [Item.IsChar] using hnot
  · exact hslash
  · exact hstar
  · exact hfree k hk c hbody

theorem fromFirst_suffix : fromFirst p items <:+ items := List.dropWhile_suffix _

theorem not_mem_upTo (hfree : Free isBrace (upTo isBrace items)) :
    wchar '{' ∉ render (upTo isBrace items) ∧ wchar '{' ∉ plain (upTo isBrace items) :=
  ⟨fun h => absurd (render_upTo hfree (by decide) (by decide) h) (by decide),
    fun h => absurd (plain_upTo h) (by decide)⟩

/-- No brace. -/
theorem openBrace_missing (hfree : Free isBrace (upTo isBrace items))
    (hnil : fromFirst isBrace items = []) :
    openBrace (render items) = none ∧ openBrace (plain items) = none := by
  rw [← upTo_append isBrace items, hnil, List.append_nil]
  exact ⟨openBrace_none (not_mem_upTo hfree).1, openBrace_none (not_mem_upTo hfree).2⟩

/-- **The brace**, found behind the same items with the comments and without them. -/
theorem openBrace_items {block : List Item} (hfree : Free isBrace (upTo isBrace items))
    (hfirst : fromFirst isBrace items = .char (wchar '{') :: block) :
    openBrace (render items) = some (render block) ∧
      openBrace (plain items) = some (plain block) := by
  have hsplit : items = upTo isBrace items ++ .char (wchar '{') :: block := by
    rw [← hfirst, upTo_append]
  obtain ⟨hrender, hplain⟩ := not_mem_upTo hfree
  refine ⟨?_, ?_⟩
  · conv_lhs => rw [hsplit, render_append_items]
    exact openBrace_append hrender
  · conv_lhs => rw [hsplit, plain_append_items]
    exact openBrace_append hplain

/-- A comment with a character with `q`: the text goes on with a newline. -/
theorem Calm.newline {q : WChar → Bool} (h : Calm p q items) (hfree : ¬Free q (upTo p items)) :
    ∃ rest, fromFirst p items = .char 0x0a :: rest := by
  by_contra hnone
  refine hfree fun k hk c hc => (h k hk c hc).resolve_right fun h => hnone ?_
  exact List.head?_eq_some_iff.mp h.2

/-- What is read in front of the first character with `p`. -/
theorem Calm.render {q : WChar → Bool} (h : Calm p q items) (hpq : ∀ c, q c = false → p c = false)
    (hslash : p (wchar '/') = false) (hstar : p (wchar '*') = false)
    (hc : c ∈ render (upTo p items)) : p c = false ∨ c = 0x0a := by
  obtain ⟨k, hk, hc⟩ := List.mem_flatMap.mp hc
  rcases Item.mem_render hc with rfl | rfl | rfl | hbody
  · have hnot := List.mem_takeWhile_imp hk
    exact Or.inl (by simpa [Item.IsChar] using hnot)
  · exact Or.inl hslash
  · exact Or.inl hstar
  · exact (h k hk c hbody).imp (hpq c) And.left

section

variable {σ ρ : Type} {step : σ → WChar → Text → σ ⊕ ρ} {done : σ → ρ} {s : σ}

/-- **Items in which the loop reacts to nothing.** -/
theorem scan_render_upTo (hstep : ∀ c t, p c = false → step s c t = .inl s)
    (hfree : Free p (upTo p items)) (hslash : p (wchar '/') = false)
    (hstar : p (wchar '*') = false) :
    scan step done s (render items) = scan step done s (render (fromFirst p items)) := by
  conv_lhs => rw [← upTo_append p items, render_append_items]
  exact scan_append fun c hc t => hstep c t (render_upTo hfree hslash hstar hc)

theorem scan_newline {r : ρ} {l : Text} (hstep : ∀ c t, p c = false → step s c t = .inl s)
    (hnewline : ∀ t, step s 0x0a t = .inr r) (hl : ∀ c ∈ l, p c = false ∨ c = 0x0a) :
    scan step done s (l ++ 0x0a :: t) = r := by
  induction l with
  | nil => exact scan_inr (hnewline t)
  | cons c l ih =>
    rw [List.cons_append]
    rcases hl c List.mem_cons_self with hc | rfl
    · rw [scan_inl (hstep c _ hc)]
      exact ih fun d hd => hl d (List.mem_cons_of_mem c hd)
    · exact scan_inr (hnewline _)

/-- **The same with newlines** in the comments, where the loop would end at a newline anyway. -/
theorem scan_calm {r : ρ} (hstep : ∀ c t, p c = false → step s c t = .inl s)
    (hnewline : ∀ t, step s 0x0a t = .inr r) (hcalm : Calm p p items)
    (hslash : p (wchar '/') = false) (hstar : p (wchar '*') = false) :
    scan step done s (render items) = scan step done s (render (fromFirst p items)) := by
  by_cases hfree : Free p (upTo p items)
  · exact scan_render_upTo hstep hfree hslash hstar
  · obtain ⟨rest, hrest⟩ := hcalm.newline hfree
    conv_lhs => rw [← upTo_append p items, render_append_items]
    rw [hrest, render_char, scan_inr (hnewline _)]
    exact scan_newline hstep hnewline fun c hc => hcalm.render (fun _ h => h) hslash hstar hc

theorem scan_plain_upTo (hstep : ∀ c t, p c = false → step s c t = .inl s) :
    scan step done s (plain items) = scan step done s (plain (fromFirst p items)) := by
  conv_lhs => rw [← upTo_append p items, plain_append_items]
  exact scan_append fun c hc t => hstep c t (plain_upTo hc)

/-- The character behind the key makes no difference to a loop that looks for `=`, but for what
`skipOne` drops. -/
theorem scan_skipOne (hstep : ∀ c t, isEquals c = false → step s c t = .inl s)
    (hnext : ∀ k items', items = k :: items' → k.plain = [] →
      ∀ c ∈ (plain items').head?, isEquals c = false) :
    scan step done s ((render items).drop 1) = scan step done s (render (skipOne items)) ∧
      scan step done s ((plain items).drop 1) = scan step done s (plain (skipOne items)) := by
  cases items with
  | nil => exact ⟨rfl, rfl⟩
  | cons k items =>
    rcases k.cases_plain with ⟨c, rfl⟩ | hk
    · exact ⟨rfl, rfl⟩
    have hskip : skipOne (k :: items) = k :: items := by
      cases k with
      | char c => cases hk
      | _ => rfl
    have hdrop : ∀ text : Text, (∀ c ∈ text.head?, isEquals c = false) →
        scan step done s (text.drop 1) = scan step done s text := by
      intro text hhead
      cases text with
      | nil => rfl
      | cons c text => exact (scan_inl (hstep c text (hhead c rfl))).symm
    rw [hskip]
    refine ⟨hdrop _ fun c hc => ?_, hdrop _ fun c hc => ?_⟩
    · cases k with
      | char d => cases hk
      | blockComment body =>
        cases hc
        rfl
      | lineComment body =>
        cases hc
        rfl
    · rw [plain_cons, hk] at hc
      exact hnext k items rfl hk c hc

end

/-! ## The value -/

/-- How a loop reads a number behind `=`: what the two overloads have in common. -/
structure ReadsNumber {σ ρ : Type} (step : σ → WChar → Text → σ ⊕ ρ) (ready : σ → Prop)
    (inNumber : σ → Bool) (found failed : σ → ρ) : Prop where
  rest : ∀ s c t t', step s c t = step s c t'
  keeps : ∀ s c t s', ready s → step s c t = .inl s' → ready s'
  newline : ∀ s t, ready s → inNumber s = false → step s 0x0a t = .inr (failed s)
  quiet : ∀ s c t, ready s → inNumber s = false → isSigned c = false → step s c t = .inl s
  passes : ∀ s c t, ready s → inNumber s = false → isNumber c = false →
    ∃ s', step s c t = .inl s' ∧ inNumber s' = false ∧ failed s' = failed s
  starts : ∀ s c t s', ready s → isNumber c = true → step s c t = .inl s' → inNumber s' = true
  first : ∀ s c t s', ready s → inNumber s = false → step s c t = .inl s' →
    inNumber s' = true → isDigit c = true
  later : ∀ s c t s', ready s → inNumber s = true → step s c t = .inl s' → inNumber s' = true ∧
    (isDigit c = true ∨ c = wchar '-' ∨ c = wchar '.')
  stop : ∀ s c t, ready s → inNumber s = true → isDigit c = false →
    c ≠ wchar '-' → c ≠ wchar '.' → c ≠ wchar '"' → step s c t = .inr (found s)

section

variable {σ ρ : Type} {step : σ → WChar → Text → σ ⊕ ρ} {done : σ → ρ} {ready : σ → Prop}
  {inNumber : σ → Bool} {found failed : σ → ρ} {s : σ}

/-- A character of a number is no blank and ends no token. -/
theorem number_char (hc : isDigit c = true ∨ c = wchar '-' ∨ c = wchar '.') :
    isBlank c = false ∧ c ∉ ends := by
  have hne : ∀ d : WChar, isDigit d = false → d ≠ wchar '-' → d ≠ wchar '.' → c ≠ d := by
    rintro d hd h1 h2 rfl
    rcases hc with h | h | h
    · rw [hd] at h
      cases h
    · exact h1 h
    · exact h2 h
  have h20 := hne 0x20 rfl (by decide) (by decide)
  have h08 := hne 0x08 rfl (by decide) (by decide)
  have h09 := hne 0x09 rfl (by decide) (by decide)
  refine ⟨by simp [isBlank, h20, h08, h09], ?_⟩
  simp only [ends, List.mem_cons, List.not_mem_nil, or_false, not_or]
  exact ⟨hne _ rfl (by decide) (by decide), hne _ rfl (by decide) (by decide),
    hne _ rfl (by decide) (by decide), hne _ rfl (by decide) (by decide)⟩

/-- What stands behind a comment between tokens, where no token ends in front of it. -/
theorem Between.plain_head (h : Between before rest) (hbefore : ∃ c ∈ before, c ∉ ends) :
    ∃ c t, plain rest = c :: t ∧ (isBlank c = true ∨ c ∈ begins) := by
  rcases h with hend | ⟨c, hc, hbegin⟩
  · obtain ⟨c, hc, hnot⟩ := hbefore
    exact absurd (hend c hc) hnot
  cases hplain : plain rest with
  | nil =>
    rw [hplain] at hc
    cases hc
  | cons d t =>
    refine ⟨d, t, rfl, ?_⟩
    rw [hplain, Option.mem_def, List.find?_cons] at hc
    by_cases hd : isBlank d = true
    · exact Or.inl hd
    · simp only [hd, Bool.not_false] at hc
      cases hc
      exact Or.inr hbegin

/-- **In a number** a comment ends it, and so does what is behind it. -/
theorem ReadsNumber.inside (R : ReadsNumber step ready inNumber found failed) (hready : ready s)
    (hnum : inNumber s = true) (hbefore : ∃ c ∈ before, c ∉ ends) (hplaced : Placed before items) :
    scan step done s (render items) = scan step done s (plain items) := by
  induction items generalizing s before with
  | nil => rfl
  | cons k items ih =>
    rcases k.cases_plain with ⟨c, rfl⟩ | hk
    · rw [render_char, plain_char]
      cases hstep : step s c (render items) with
      | inr r => rw [scan_inr hstep, scan_inr ((R.rest s c _ _).trans hstep)]
      | inl s' =>
        rw [scan_inl hstep, scan_inl ((R.rest s c _ _).trans hstep)]
        obtain ⟨hnum', hc⟩ := R.later s c _ s' hready hnum hstep
        obtain ⟨hblank, hends⟩ := number_char hc
        obtain ⟨hnext, hbefore'⟩ := hplaced.char_not_ends hblank hends
        exact ih (R.keeps s c _ s' hready hstep) hnum' hbefore' hnext
    · obtain ⟨-, -, hbetween, -⟩ := hplaced.comment hk
      obtain ⟨c, t, hplain, hc⟩ := hbetween.plain_head hbefore
      have hrender : ∃ t', render (k :: items) = wchar '/' :: t' := by
        cases k with
        | char c => cases hk
        | blockComment body => exact ⟨_, rfl⟩
        | lineComment body => exact ⟨_, rfl⟩
      obtain ⟨t', hrender⟩ := hrender
      have hstop : ∀ {d t}, isBlank d = true ∨ d ∈ wchar '/' :: begins →
          scan step done s (d :: t) = found s := by
        intro d t hd
        refine scan_inr (R.stop s d t hready hnum ?_ ?_ ?_ ?_)
        all_goals
          rcases hd with hd | hd
          · have hd : d = 0x20 ∨ d = 0x08 ∨ d = 0x09 := by simpa [isBlank, or_assoc] using hd
            rcases hd with rfl | rfl | rfl <;> decide
          · revert d
            decide
      rw [hrender, plain_cons, hk, List.nil_append, hplain, hstop (Or.inr List.mem_cons_self)]
      exact (hstop (hc.imp id (List.mem_cons_of_mem _))).symm

/-- **Behind `=`**, with comments that have no character of a number. -/
theorem ReadsNumber.reads (R : ReadsNumber step ready inNumber found failed) (hready : ready s)
    (hnum : inNumber s = false) (hplaced : Placed before items)
    (hfree : Free isSigned (upTo isNumber items)) :
    scan step done s (render items) = scan step done s (plain items) := by
  induction items generalizing s before with
  | nil => rfl
  | cons k items ih =>
    have hupTo : upTo isNumber (k :: items) =
        if k.IsChar isNumber then [] else k :: upTo isNumber items := by
      unfold upTo
      rw [List.takeWhile_cons]
      cases k.IsChar isNumber <;> rfl
    rcases k.cases_plain with ⟨c, rfl⟩ | hk
    · rw [render_char, plain_char]
      cases hstep : step s c (render items) with
      | inr r => rw [scan_inr hstep, scan_inr ((R.rest s c _ _).trans hstep)]
      | inl s' =>
        rw [scan_inl hstep, scan_inl ((R.rest s c _ _).trans hstep)]
        have hready' := R.keeps s c _ s' hready hstep
        by_cases hnum' : inNumber s' = true
        · obtain ⟨hblank, hends⟩ := number_char (Or.inl (R.first s c _ s' hready hnum hstep hnum'))
          obtain ⟨hnext, hbefore⟩ := hplaced.char_not_ends hblank hends
          exact R.inside hready' hnum' hbefore hnext
        · have hc : isNumber c = false := by
            by_contra hc
            exact hnum' (R.starts s c _ s' hready (by simpa using hc) hstep)
          rw [hupTo, if_neg (by simp [Item.IsChar, hc])] at hfree
          exact ih hready' (by simpa using hnum') hplaced.char
            fun k hk => hfree k (List.mem_cons_of_mem _ hk)
    · have hchar : k.IsChar isNumber = false := by
        cases k with
        | char c => cases hk
        | _ => rfl
      rw [hupTo, hchar, if_neg Bool.false_ne_true] at hfree
      rw [render_cons, plain_cons, hk, List.nil_append]
      refine (scan_append fun c hc t => R.quiet s c t hready hnum ?_).trans ?_
      · rcases Item.mem_render hc with rfl | rfl | rfl | hbody
        · cases hk
        · decide
        · decide
        · exact hfree k List.mem_cons_self c hbody
      · exact ih hready hnum (hplaced.comment hk).2.2.2
          fun k' hk' => hfree k' (List.mem_cons_of_mem k hk')

/-- No number in front of the newline. -/
theorem ReadsNumber.none (R : ReadsNumber step ready inNumber found failed) (hready : ready s)
    (hnum : inNumber s = false) {l : Text} (hl : ∀ c ∈ l, isNumber c = false ∨ c = 0x0a) :
    scan step done s (l ++ 0x0a :: t) = failed s := by
  induction l generalizing s with
  | nil => exact scan_inr (R.newline s t hready hnum)
  | cons c l ih =>
    rw [List.cons_append]
    rcases hl c List.mem_cons_self with hc | rfl
    · obtain ⟨s', hstep, hnum', hfailed⟩ := R.passes s c (l ++ 0x0a :: t) hready hnum hc
      rw [scan_inl hstep, ← hfailed]
      exact ih (R.keeps s c _ s' hready hstep) hnum' fun d hd => hl d (List.mem_cons_of_mem c hd)
    · exact scan_inr (R.newline s _ hready hnum)

/-- **Behind `=`**, where the comments are calm. -/
theorem ReadsNumber.calm (R : ReadsNumber step ready inNumber found failed) (hready : ready s)
    (hnum : inNumber s = false) (hplaced : Placed before items)
    (hcalm : Calm isNumber isSigned items) :
    scan step done s (render items) = scan step done s (plain items) := by
  by_cases hfree : Free isSigned (upTo isNumber items)
  · exact R.reads hready hnum hplaced hfree
  · obtain ⟨rest, hrest⟩ := hcalm.newline hfree
    have hsigned : ∀ c, isSigned c = false → isNumber c = false := by
      intro c hc
      simp only [isSigned, Bool.or_eq_false_iff] at hc
      exact hc.1.1
    rw [← upTo_append isNumber items, render_append_items, plain_append_items,
      hrest, render_char, plain_char,
      R.none hready hnum fun c hc => hcalm.render hsigned (by decide) (by decide) hc]
    exact (R.none hready hnum fun c hc => Or.inl (plain_upTo hc)).symm

/-- How a loop looks for `=`, in the state `s`. -/
structure SeeksEquals (step : σ → WChar → Text → σ ⊕ ρ) (s s' : σ) (failed : ρ) : Prop where
  other : ∀ c t, isEquals c = false → step s c t = .inl s
  equals : ∀ t, step s (wchar '=') t = .inl s'
  newline : ∀ t, step s 0x0a t = .inr failed

/-- **The third loop**, up to `=`. -/
theorem SeeksEquals.reads {s₁ s' s₁' : σ} {failed : ρ}
    (E : SeeksEquals step s s' failed) (E' : SeeksEquals step s₁ s₁' failed)
    (hdone : done s = done s₁) (hclear : KeyClear items)
    (hvalue : ∀ value, value <:+ items → ValueClear value →
      scan step done s' (render value) = scan step done s₁' (plain value)) :
    scan step done s ((render items).drop 1) = scan step done s₁ ((plain items).drop 1) := by
  rw [(scan_skipOne E.other hclear.next).1, (scan_skipOne E'.other hclear.next).2,
    scan_calm E.other E.newline hclear.equals (by decide) (by decide), scan_plain_upTo E'.other]
  rcases fromFirst_cases isEquals (skipOne items) with hnil | ⟨c, value, hsome, hc⟩
  · rw [hnil]
    exact hdone
  · rw [hsome, render_char, plain_char]
    have hc : c = 0x0a ∨ c = wchar '=' := by simpa [isEquals] using hc
    rcases hc with rfl | rfl
    · rw [scan_inr (E.newline _), scan_inr (E'.newline _)]
    · rw [scan_inl (E.equals _), scan_inl (E'.equals _)]
      have hskip : skipOne items <:+ items := by
        cases items with
        | nil => exact List.suffix_rfl
        | cons k items =>
          cases k with
          | char c => exact List.suffix_cons _ items
          | _ => exact List.suffix_rfl
      have hsuffix : .char (wchar '=') :: value <:+ skipOne items := hsome ▸ fromFirst_suffix
      exact hvalue value ((List.suffix_cons _ value).trans (hsuffix.trans hskip))
        (hclear.value value hsome)

end

/-! ## The three overloads -/

theorem intScan_reads :
    ReadsNumber IntScan.step (·.seekSign = true) (·.numberSign) IntScan.found
      IntScan.failed where
  rest _ _ _ _ := rfl
  keeps := by
    rintro ⟨seek, num, minus, v⟩ c t s' rfl hstep
    simp only [IntScan.step] at hstep
    grind
  newline := by
    rintro ⟨seek, num, minus, v⟩ t rfl rfl
    rfl
  passes := by
    rintro ⟨seek, num, minus, v⟩ c t rfl rfl hc
    simp only [isNumber, Bool.or_eq_false_iff, decide_eq_false_iff_not] at hc
    simp only [IntScan.step, hc, Bool.not_true, Bool.false_eq_true, if_false]
    repeat' split
    all_goals exact ⟨_, rfl, rfl, rfl⟩
  quiet := by
    rintro ⟨seek, num, minus, v⟩ c t rfl rfl hc
    simp only [isSigned, isNumber, Bool.or_eq_false_iff, decide_eq_false_iff_not] at hc
    simp [IntScan.step, hc]
  starts := by
    rintro ⟨seek, num, minus, v⟩ c t s' rfl hc hstep
    simp only [isNumber, Bool.or_eq_true, decide_eq_true_eq] at hc
    simp only [IntScan.step] at hstep
    grind
  first := by
    rintro ⟨seek, num, minus, v⟩ c t s' rfl rfl hstep hnum
    simp only [IntScan.step] at hstep
    grind
  later := by
    rintro ⟨seek, num, minus, v⟩ c t s' rfl rfl hstep
    simp only [IntScan.step] at hstep
    grind
  stop := by
    rintro ⟨seek, num, minus, v⟩ c t rfl rfl hdigit hminus hdot hquote
    by_cases hc : c = 0x0a <;> simp [IntScan.step, hc, hdigit, hminus, hquote]

theorem doubleScan_reads :
    ReadsNumber DoubleScan.step (·.seekSign = true) (·.numberSign) DoubleScan.found
      DoubleScan.failed where
  rest _ _ _ _ := rfl
  keeps := by
    rintro ⟨seek, num, minus, decimal, depth, v⟩ c t s' rfl hstep
    simp only [DoubleScan.step] at hstep
    grind
  newline := by
    rintro ⟨seek, num, minus, decimal, depth, v⟩ t rfl rfl
    rfl
  passes := by
    rintro ⟨seek, num, minus, decimal, depth, v⟩ c t rfl rfl hc
    simp only [isNumber, Bool.or_eq_false_iff, decide_eq_false_iff_not] at hc
    simp only [DoubleScan.step, hc, Bool.not_true, Bool.false_eq_true, if_false]
    repeat' split
    all_goals exact ⟨_, rfl, rfl, rfl⟩
  quiet := by
    rintro ⟨seek, num, minus, decimal, depth, v⟩ c t rfl rfl hc
    simp only [isSigned, isNumber, Bool.or_eq_false_iff, decide_eq_false_iff_not] at hc
    simp [DoubleScan.step, hc]
  starts := by
    rintro ⟨seek, num, minus, decimal, depth, v⟩ c t s' rfl hc hstep
    simp only [isNumber, Bool.or_eq_true, decide_eq_true_eq] at hc
    simp only [DoubleScan.step] at hstep
    grind
  first := by
    rintro ⟨seek, num, minus, decimal, depth, v⟩ c t s' rfl rfl hstep hnum
    simp only [DoubleScan.step] at hstep
    grind
  later := by
    rintro ⟨seek, num, minus, decimal, depth, v⟩ c t s' rfl rfl hstep
    simp only [DoubleScan.step] at hstep
    grind
  stop := by
    rintro ⟨seek, num, minus, decimal, depth, v⟩ c t rfl rfl hdigit hminus hdot hquote
    by_cases hc : c = 0x0a <;> simp [DoubleScan.step, hc, hdigit, hminus, hdot, hquote]

theorem intScan_seeks :
    SeeksEquals IntScan.step ⟨false, false, false, 0⟩ ⟨true, false, false, 0⟩ (false, 0) := by
  refine ⟨fun c t hc => ?_, fun t => rfl, fun t => rfl⟩
  simp only [isEquals, Bool.or_eq_false_iff, decide_eq_false_iff_not] at hc
  simp [IntScan.step, hc]

theorem doubleScan_seeks :
    SeeksEquals DoubleScan.step ⟨false, false, false, false, 1, 0⟩
      ⟨true, false, false, false, 1, 0⟩ (false, 0) := by
  refine ⟨fun c t hc => ?_, fun t => rfl, fun t => rfl⟩
  simp only [isEquals, Bool.or_eq_false_iff, decide_eq_false_iff_not] at hc
  simp [DoubleScan.step, hc]

theorem readInt_items (hplaced : Placed before items) (hclear : KeyClear items) :
    readInt ((render items).drop 1) = readInt ((plain items).drop 1) := by
  refine intScan_seeks.reads intScan_seeks rfl hclear fun value hsuffix hvalue => ?_
  obtain ⟨before', hplaced'⟩ := hplaced.of_suffix hsuffix
  exact intScan_reads.calm rfl rfl hplaced' hvalue.number

theorem readDouble_items (hplaced : Placed before items) (hclear : KeyClear items) :
    readDouble ((render items).drop 1) = readDouble ((plain items).drop 1) := by
  refine doubleScan_seeks.reads doubleScan_seeks rfl hclear fun value hsuffix hvalue => ?_
  obtain ⟨before', hplaced'⟩ := hplaced.of_suffix hsuffix
  exact doubleScan_reads.calm rfl rfl hplaced' hvalue.number

/-- The characters up to the opening quote, and up to the closing quote. -/
theorem stringStep_other {start : Bool} {s e : Text} (hc : isQuote c = false) :
    StringScan.step ⟨true, start, false, s, e⟩ c t = .inl ⟨true, start, false, s, e⟩ := by
  simp only [isQuote, Bool.or_eq_false_iff, decide_eq_false_iff_not] at hc
  simp [StringScan.step, hc]

/-- The opening quote. -/
theorem stringStep_open (l t : Text) :
    StringScan.step ⟨true, false, false, l, l⟩ (wchar '"') t = .inl ⟨true, true, false, t, l⟩ := rfl

/-- The closing quote. -/
theorem scan_closed {s e : Text} (hs : s = body ++ wchar '"' :: t) :
    scan StringScan.step StringScan.found ⟨true, true, false, s, e⟩ (wchar '"' :: t) =
      .ok (some body) := by
  have hfound : StringScan.found ⟨true, true, true, s, wchar '"' :: t⟩ = .ok (some body) := by
    have hnot : ¬s.length < (wchar '"' :: t).length := by
      rw [hs, List.length_append]
      omega
    rw [StringScan.found, if_neg hnot, hs, List.length_append, Nat.add_sub_cancel, List.take_left]
  have hclose : StringScan.step ⟨true, true, false, s, e⟩ (wchar '"') t =
      .inl ⟨true, true, true, s, wchar '"' :: t⟩ := rfl
  rw [scan_inl hclose]
  cases t with
  | nil => exact hfound
  | cons c t => exact (scan_inr (by simp [StringScan.step])).trans hfound

theorem found_unquoted {b s e : Bool} : StringScan.found ⟨b, s, e, t, t⟩ = .ok (some []) := by
  simp [StringScan.found]

/-- Without a closing quote `endIndex` is still 0. -/
theorem found_unclosed {b s e : Bool} (h : body.length < t.length) :
    StringScan.found ⟨b, s, e, body, t⟩ = .error .negativeSize := if_pos h

/-- No comments between the quotes. -/
theorem render_eq_plain (h : ∀ k ∈ items, k.plain ≠ []) : render items = plain items := by
  induction items with
  | nil => rfl
  | cons k items ih =>
    rcases k.cases_plain with ⟨c, rfl⟩ | hk
    · rw [render_char, plain_char, ih fun k' hk' => h k' (List.mem_cons_of_mem _ hk')]
    · exact absurd hk (h k List.mem_cons_self)

/-- **Behind `=`**, up to the closing quote. -/
theorem scanString_value {value : List Item} (hsuffix : value <:+ items)
    (hclear : ValueClear value) :
    scan StringScan.step StringScan.found ⟨true, false, false, render items, render items⟩
        (render value) =
      scan StringScan.step StringScan.found ⟨true, false, false, plain items, plain items⟩
        (plain value) := by
  rw [scan_calm (fun c t hc => stringStep_other hc) (fun _ => rfl) hclear.quote (by decide)
      (by decide),
    scan_plain_upTo (p := isQuote) fun c t hc => stringStep_other hc]
  rcases fromFirst_cases isQuote value with hnil | ⟨c, inside, hsome, hc⟩
  · rw [hnil]
    exact found_unquoted.trans found_unquoted.symm
  have hinside : .char c :: inside <:+ items := by
    rw [← hsome]
    exact fromFirst_suffix.trans hsuffix
  rw [hsome, render_char, plain_char]
  have hc : c = 0x0a ∨ c = wchar '"' := by simpa [isQuote] using hc
  rcases hc with rfl | rfl
  · rfl
  obtain ⟨hcalm, hnone⟩ := hclear.inside inside hsome
  rw [scan_inl (stringStep_open _ _), scan_inl (stringStep_open _ _),
    scan_calm (fun c t hc => stringStep_other hc) (fun _ => rfl) hcalm (by decide) (by decide),
    scan_plain_upTo (p := isQuote) fun c t hc => stringStep_other hc]
  rcases fromFirst_cases isQuote inside with hnil | ⟨c, after, hsome', hc⟩
  · rw [hnil]
    obtain ⟨front, hfront⟩ := hinside
    refine (found_unclosed ?_).trans (found_unclosed ?_).symm
    · rw [← hfront, render_append_items, List.length_append, render_char, List.length_cons]
      omega
    · rw [← hfront, plain_append_items, List.length_append, plain_char, List.length_cons]
      omega
  rw [hsome', render_char, plain_char]
  have hc : c = 0x0a ∨ c = wchar '"' := by simpa [isQuote] using hc
  rcases hc with rfl | rfl
  · rfl
  have hsplit : inside = upTo isQuote inside ++ .char (wchar '"') :: after := by
    rw [← hsome', upTo_append]
  refine (@scan_closed (plain (upTo isQuote inside)) _ _ _ ?_).trans (scan_closed ?_).symm
  · conv_lhs => rw [hsplit]
    rw [render_append_items, render_char, render_eq_plain (hnone after hsome')]
  · conv_lhs => rw [hsplit]
    rw [plain_append_items, plain_char]

theorem readString_items {items' : List Item} (hsuffix : items' <:+ items)
    (hclear : KeyClear items') :
    readString (render items) ((render items').drop 1) =
      readString (plain items) ((plain items').drop 1) := by
  have hseeks : ∀ b : Text, SeeksEquals StringScan.step ⟨false, false, false, b, b⟩
      ⟨true, false, false, b, b⟩ (.ok none) := by
    refine fun b => ⟨fun c t hc => ?_, fun t => rfl, fun t => rfl⟩
    simp only [isEquals, Bool.or_eq_false_iff, decide_eq_false_iff_not] at hc
    simp [StringScan.step, hc]
  refine (hseeks _).reads (hseeks _) (found_unquoted.trans found_unquoted.symm) hclear
    fun value hvalue => scanString_value (hvalue.trans hsuffix)

end Parser

end IocpServer
