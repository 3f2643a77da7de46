import IocpServer.Parser.KeyLookup

/-!
# Configuration texts with comments

A text with comments is a list of `Item`s: the characters of the text without them, and comments
between its tokens.

* `render` — what the loops read; `plain` — the text without the comments.
* `Placed` — comments stand between tokens.
* `prefix_items` — **no name is cut by a comment**: it is read where its characters are.
-/

set_option autoImplicit false

namespace IocpServer

open Lib

namespace Parser

inductive Item where
  | char (c : WChar)
  | blockComment (body : Text)
  | lineComment (body : Text)
  deriving DecidableEq

namespace Item

def render : Item → Text
  | char c => [c]
  | blockComment body => wchar '/' :: wchar '*' :: (body ++ [wchar '*', wchar '/'])
  | lineComment body => wchar '/' :: wchar '/' :: body

def plain : Item → Text
  | char c => [c]
  | _ => []

/-- The text of a comment. -/
def body : Item → Text
  | char _ => []
  | blockComment body => body
  | lineComment body => body

def IsChar (p : WChar → Bool) : Item → Bool
  | char c => p c
  | _ => false

/-- A comment's text does not end it, and a line comment is followed by the end of the line. -/
def BodyOk (rest : List Item) : Item → Prop
  | char _ => True
  | blockComment body => ¬[wchar '*', wchar '/'] <:+: body
  | lineComment body => (0x0a : WChar) ∉ body ∧ ∀ k ∈ rest.head?, k = char 0x0a

end Item

instance (rest : List Item) (k : Item) : Decidable (k.BodyOk rest) :=
  match k with
  | .char _ => isTrue trivial
  | .blockComment _ => inferInstanceAs (Decidable (¬_))
  | .lineComment _ => inferInstanceAs (Decidable (_ ∧ _))

def render (items : List Item) : Text := items.flatMap Item.render

def plain (items : List Item) : Text := items.flatMap Item.plain

def chars (s : Text) : List Item := s.map Item.char

/-- What ends the token before. -/
def ends : List WChar := [0x0a, wchar '=', wchar '{', wchar '}']

/-- What begins the token behind. -/
def begins : List WChar := [0x0a, wchar ':', wchar '=', wchar '{', wchar '}']

/-- A comment between `before`, the last character that is no blank, and `rest` is between
tokens. -/
def Between (before : Option WChar) (rest : List Item) : Prop :=
  (∀ c ∈ before, c ∈ ends) ∨ ∃ c ∈ (plain rest).find? (!isBlank ·), c ∈ begins

instance (before : Option WChar) (rest : List Item) : Decidable (Between before rest) :=
  @instDecidableOr _ _ (Option.decidableForallMem _) (Option.decidableExistsMem _)

/-- Every comment stands between tokens, and none right behind a `/`. -/
def Placed : Option WChar → List Item → Prop
  | _, [] => True
  | before, .char c :: rest => Placed (if isBlank c then before else some c) rest
  | before, k :: rest =>
    k.BodyOk rest ∧ before ≠ some (wchar '/') ∧ Between before rest ∧ Placed before rest

instance decidablePlaced : ∀ before items, Decidable (Placed before items)
  | _, [] => isTrue trivial
  | before, .char c :: rest => decidablePlaced (if isBlank c then before else some c) rest
  | before, .blockComment _ :: rest =>
    have := decidablePlaced before rest
    inferInstanceAs (Decidable (_ ∧ _))
  | before, .lineComment _ :: rest =>
    have := decidablePlaced before rest
    inferInstanceAs (Decidable (_ ∧ _))

variable {items rest : List Item} {before : Option WChar} {tag key body t : Text} {c : WChar}
  {k : Item} {p : WChar → Bool}

@[simp] theorem render_cons : render (k :: rest) = k.render ++ render rest := rfl

@[simp] theorem plain_cons : plain (k :: rest) = k.plain ++ plain rest := rfl

theorem render_char : render (.char c :: rest) = c :: render rest := rfl

theorem plain_char : plain (.char c :: rest) = c :: plain rest := rfl

@[simp] theorem render_append_items {items' : List Item} :
    render (items ++ items') = render items ++ render items' := List.flatMap_append

@[simp] theorem plain_append_items {items' : List Item} :
    plain (items ++ items') = plain items ++ plain items' := List.flatMap_append

@[simp] theorem render_chars : render (chars t) = t := by
  induction t with
  | nil => rfl
  | cons c t ih => exact congrArg (c :: ·) ih

@[simp] theorem plain_chars : plain (chars t) = t := by
  induction t with
  | nil => rfl
  | cons c t ih => exact congrArg (c :: ·) ih

/-- An item is a character or a comment. -/
theorem Item.cases_plain (k : Item) : (∃ c, k = .char c) ∨ k.plain = [] := by
  cases k with
  | char c => exact Or.inl ⟨c, rfl⟩
  | _ => exact Or.inr rfl

/-- What is read of an item: its character, or what begins a comment and its text. -/
theorem Item.mem_render (h : c ∈ k.render) : k = .char c ∨ c = wchar '/' ∨ c = wchar '*' ∨
    c ∈ k.body := by
  cases k with
  | char d => exact Or.inl (congrArg _ (List.mem_singleton.mp h).symm)
  | blockComment body =>
    simp only [Item.render, List.mem_cons, List.mem_append, List.not_mem_nil, or_false] at h
    simp only [Item.body]
    tauto
  | lineComment body =>
    simp only [Item.render, List.mem_cons] at h
    simp only [Item.body]
    tauto

/-- What is read of a comment has no newline, if its text has none. -/
theorem render_newline (hk : k.plain = []) (h : (0x0a : WChar) ∉ k.body) :
    (0x0a : WChar) ∉ k.render := by
  intro hmem
  rcases Item.mem_render hmem with rfl | hc | hc | hc
  · cases hk
  · exact absurd hc (by decide)
  · exact absurd hc (by decide)
  · exact h hc

theorem body_render (h : c ∈ k.body) : c ∈ k.render := by
  cases k with
  | char d => cases h
  | blockComment body =>
    simp only [Item.render, List.mem_cons, List.mem_append]
    exact Or.inr (Or.inr (Or.inl h))
  | lineComment body => exact List.mem_cons_of_mem _ (List.mem_cons_of_mem _ h)

/-! ## Names between the comments -/

theorem chars_cons : chars (c :: t) = .char c :: chars t := rfl

theorem Placed.char (h : Placed before (.char c :: rest)) :
    Placed (if isBlank c then before else some c) rest := h

theorem Placed.comment (h : Placed before (k :: rest)) (hk : k.plain = []) :
    k.BodyOk rest ∧ before ≠ some (wchar '/') ∧ Between before rest ∧ Placed before rest := by
  cases k with
  | char c => cases hk
  | blockComment body => exact h
  | lineComment body => exact h

theorem Placed.tail (h : Placed before (k :: rest)) : ∃ before', Placed before' rest := by
  rcases k.cases_plain with ⟨c, rfl⟩ | hk
  · exact ⟨_, h.char⟩
  · exact ⟨before, (h.comment hk).2.2.2⟩

/-- A name is not cut by the comments that are read with it: they begin with `/`. -/
theorem render_begins (hslash : wchar '/' ∉ key) (h : key <+: render items) :
    chars key <+: items := by
  induction key generalizing items with
  | nil => exact List.nil_prefix
  | cons c key ih =>
    rw [List.mem_cons, not_or] at hslash
    cases items with
    | nil => exact absurd (List.prefix_nil.mp h) (List.cons_ne_nil c key)
    | cons k items =>
      cases k with
      | char d =>
        obtain ⟨rfl, htail⟩ := List.cons_prefix_cons.mp h
        exact List.cons_prefix_cons.mpr ⟨rfl, ih hslash.2 htail⟩
      | blockComment body => exact absurd (List.cons_prefix_cons.mp h).1.symm hslash.1
      | lineComment body => exact absurd (List.cons_prefix_cons.mp h).1.symm hslash.1

theorem begins_special (h : c ∈ begins) : c ∈ special := by
  revert c
  decide

theorem ends_special (h : c ∈ ends) : c ∈ special := by
  revert c
  decide

/-- The end of a name, from some place in it on. -/
structure NameEnd (key : Text) : Prop where
  chars : ∀ c ∈ key, c ∉ special
  last : key.getLast? ≠ some 0x20

theorem IsName.nameEnd (h : IsName key) : NameEnd key := ⟨h.chars, h.last⟩

theorem NameEnd.tail (h : NameEnd (c :: key)) : NameEnd key := by
  refine ⟨fun d hd => h.chars d (List.mem_cons_of_mem c hd), fun hlast => h.last ?_⟩
  cases key with
  | nil => cases hlast
  | cons d key => rwa [List.getLast?_cons_cons]

theorem isBlank_eq (hspecial : c ∉ special) : isBlank c = true ↔ c = 0x20 := by
  simp only [special, List.mem_cons, not_or] at hspecial
  simp [isBlank, hspecial]

/-- A name has a character that is no blank. -/
theorem NameEnd.find (h : NameEnd key) (hne : key ≠ []) :
    ∃ c, key.find? (!isBlank ·) = some c ∧ c ∈ key := by
  have hsome : (key.find? (!isBlank ·)).isSome := by
    rw [List.find?_isSome]
    refine ⟨key.getLast hne, List.getLast_mem hne, ?_⟩
    rw [Bool.not_eq_true', ← Bool.not_eq_true, isBlank_eq (h.chars _ (List.getLast_mem hne))]
    rintro hblank
    exact h.last (by rw [List.getLast?_eq_some_getLast hne, hblank])
  obtain ⟨c, hc⟩ := Option.isSome_iff_exists.mp hsome
  exact ⟨c, hc, List.mem_of_find?_eq_some hc⟩

/-- **A name of the text without comments is not cut by them.** -/
theorem plain_begins (hkey : NameEnd key) (hbefore : ∃ c ∈ before, c ∉ ends)
    (hplaced : Placed before items) (h : key <+: plain items) :
    ∃ rest, items = chars key ++ rest ∧ Placed (key.getLast?.or before) rest := by
  induction items generalizing key before with
  | nil =>
    obtain rfl := List.prefix_nil.mp h
    exact ⟨[], rfl, trivial⟩
  | cons k items ih =>
    cases key with
    | nil => exact ⟨k :: items, rfl, hplaced⟩
    | cons c key =>
      rcases k.cases_plain with ⟨d, rfl⟩ | hk
      · obtain ⟨rfl, htail⟩ := List.cons_prefix_cons.mp h
        have hspecial := hkey.chars c List.mem_cons_self
        have hbefore' : ∃ d ∈ (if isBlank c then before else some c), d ∉ ends := by
          split
          · exact hbefore
          · exact ⟨c, rfl, fun hend => hspecial (ends_special hend)⟩
        obtain ⟨rest, rfl, hrest⟩ := ih hkey.tail hbefore' hplaced.char htail
        refine ⟨rest, rfl, ?_⟩
        cases key with
        | nil =>
          have hblank : isBlank c = false := by
            rw [← Bool.not_eq_true, isBlank_eq hspecial]
            rintro rfl
            exact hkey.last rfl
          simpa [hblank] using hrest
        | cons d key =>
          rw [List.getLast?_cons_cons]
          rw [List.getLast?_eq_some_getLast (List.cons_ne_nil d key)] at hrest ⊢
          exact hrest
      · exfalso
        obtain ⟨-, -, hbetween, -⟩ := hplaced.comment hk
        rw [plain_cons, hk, List.nil_append] at h
        rcases hbetween with hend | ⟨d, hd, hbegin⟩
        · obtain ⟨d, hd, hnot⟩ := hbefore
          exact hnot (hend d hd)
        · obtain ⟨e, he, hmem⟩ := hkey.find (List.cons_ne_nil c key)
          obtain ⟨t, ht⟩ := h
          rw [← ht, List.find?_append, he] at hd
          cases hd
          exact hkey.chars _ hmem (begins_special hbegin)

/-- What a name means for the items, for the loops, and for the loops without the comments. -/
theorem prefix_items (hkey : NameEnd key) (hbefore : ∃ c ∈ before, c ∉ ends)
    (hplaced : Placed before items) :
    (key <+: plain items ↔ chars key <+: items) ∧ (key <+: render items ↔ chars key <+: items) := by
  have hslash : wchar '/' ∉ key := fun hmem => hkey.chars _ hmem (by decide)
  refine ⟨⟨fun h => ?_, ?_⟩, ⟨render_begins hslash, ?_⟩⟩
  · obtain ⟨rest, rfl, -⟩ := plain_begins hkey hbefore hplaced h
    exact ⟨rest, rfl⟩
  · rintro ⟨rest, rfl⟩
    rw [plain_append_items, plain_chars]
    exact List.prefix_append key _
  · rintro ⟨rest, rfl⟩
    rw [render_append_items, render_chars]
    exact List.prefix_append key _

theorem Placed.of_suffix {items' : List Item} (h : Placed before items)
    (hsuffix : items' <:+ items) : ∃ before', Placed before' items' := by
  obtain ⟨front, rfl⟩ := hsuffix
  induction front generalizing before with
  | nil => exact ⟨before, h⟩
  | cons k front ih =>
    obtain ⟨before', h'⟩ := h.tail
    exact ih h'

theorem Placed.char_not_ends (h : Placed before (.char c :: rest)) (hblank : isBlank c = false)
    (hc : c ∉ ends) : Placed (some c) rest ∧ ∃ d ∈ some c, d ∉ ends := by
  have hchar := h.char
  rw [hblank] at hchar
  exact ⟨hchar, c, rfl, hc⟩

end Parser

end IocpServer
