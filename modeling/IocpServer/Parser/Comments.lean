import IocpServer.Parser.RawReading

/-!
# Comments in the configuration

The first two loops look at comments, but for `}`, which is tested in front of them; the search for
the brace and the third loop do not look at them.

* `Exposed` — no comment stands in what the loops take for a comment of the text itself.
* `Undisturbed` — the condition, from the tag to the value.
* `seekTag_items`, `seekKey_items` — the first two loops with and without the comments.
* `comments_transparent` — **under the condition the three overloads return what they return without
  the comments.**
* `seek_close` — a `}` in a comment hides the key.
-/

set_option autoImplicit false

namespace IocpServer

open Lib

namespace Parser

/-! ## The condition -/

/-- The flags inside a line comment. -/
def inLine : Flags := ⟨true, false, false⟩

/-- The flags behind an item, for a loop that reads the text without the comments. -/
def Flags.after (f : Flags) (k : Item) (rest : List Item) : Flags :=
  match k with
  | .char c => (comment f c (plain rest).head?).getD f
  | _ => f

/-- The items in front of the first `pattern` that is in no comment of the text itself, and those
behind it; the search ends at `stop`. -/
def behind (pattern : List Item) (stop : Flags → Item → Bool) :
    Flags → List Item → Option (List Item × List Item)
  | _, [] => none
  | f, k :: rest =>
    if stop f k then none
    else if f = .none ∧ pattern <+: k :: rest then some ([], (k :: rest).drop pattern.length)
    else (behind pattern stop (f.after k rest) rest).map fun found => (k :: found.1, found.2)

/-- Up to there no comment is in a comment of the text itself, but in a line. -/
def Exposed (pattern : List Item) (stop : Flags → Item → Bool) : Flags → List Item → Prop
  | _, [] => True
  | f, k :: rest =>
    stop f k = true ∨ (f = .none ∧ pattern <+: k :: rest) ∨
      ((k.plain = [] → f = .none ∨ f = inLine ∧ (0x0a : WChar) ∉ k.body) ∧
        Exposed pattern stop (f.after k rest) rest)

instance decidableExposed (pattern : List Item) (stop : Flags → Item → Bool) :
    ∀ f items, Decidable (Exposed pattern stop f items)
  | _, [] => isTrue trivial
  | f, k :: rest =>
    have := decidableExposed pattern stop (f.after k rest) rest
    inferInstanceAs (Decidable (_ ∨ _))

/-- The loop to the tag ends at no item. -/
def never (_ : Flags) (_ : Item) : Bool := false

/-- The loop to the key ends at `}`. -/
def atClose (f : Flags) (k : Item) : Bool := !f.skipped && k = .char (wchar '}')

instance (p : WChar → Bool) (items : List Item) : Decidable (Free p items) :=
  inferInstanceAs (Decidable (∀ _ ∈ _, _))

/-- The items in front of the tag, and behind it. -/
def behindTag (tag : Text) (items : List Item) : Option (List Item × List Item) :=
  behind (chars (wchar ':' :: tag)) never .none items

/-- The items between the brace and the key, and behind the key. -/
def behindKey (key : Text) (block : List Item) : Option (List Item × List Item) :=
  behind (chars key) atClose .none block

/-- **The condition**: no `{` in the comments between the tag and its brace, no `}` in those between
the brace and the key, `KeyClear` behind the key, and no comment in what the first two loops take for
a comment of the text. -/
structure Undisturbed (tag key : Text) (items : List Item) : Prop where
  front : Exposed (chars (wchar ':' :: tag)) never .none items
  brace : ∀ front body, behindTag tag items = some (front, body) →
    Free isBrace (upTo isBrace body)
  block : ∀ front body block, behindTag tag items = some (front, body) →
    fromFirst isBrace body = .char (wchar '{') :: block →
    Exposed (chars key) atClose .none block ∧
      ∀ lines rest, behindKey key block = some (lines, rest) → Free isClose lines ∧ KeyClear rest

variable {items rest : List Item} {before : Option WChar} {tag key body t : Text} {c : WChar}
  {k : Item} {p : WChar → Bool}

/-! ## A comment is passed over -/

section

variable {ρ : Type} {step : Flags → WChar → Text → Flags ⊕ ρ} {done : Flags → ρ}

/-- A loop that leaves its comments to `comment`, but for the characters with `bad`. -/
def Skips (step : Flags → WChar → Text → Flags ⊕ ρ) (bad : WChar → Bool) : Prop :=
  ∀ f c rest f', f.skipped = true ∨ bad c = false → comment f c rest.head? = some f' →
    step f c rest = .inl f'

/-- The flags inside a block comment. -/
def inBlock : Flags := ⟨false, true, false⟩

theorem comment_inBlock {next : Option WChar} (h : ¬(c = wchar '*' ∧ next = some (wchar '/'))) :
    comment inBlock c next = some inBlock := by
  by_cases hc : c = 0x0a <;> simp [comment, inBlock, hc, h]

/-- The text of a block comment does not end it. -/
theorem not_end (hbody : ¬[wchar '*', wchar '/'] <:+: c :: body) :
    ¬(c = wchar '*' ∧ (body ++ wchar '*' :: wchar '/' :: t).head? = some (wchar '/')) := by
  rintro ⟨rfl, hnext⟩
  cases body with
  | nil => exact absurd (Option.some.inj hnext) (by decide)
  | cons d body =>
    rw [List.cons_append, List.head?_cons, Option.some.injEq] at hnext
    subst hnext
    exact hbody (List.prefix_append [wchar '*', wchar '/'] body).isInfix

/-- **The rest of a block comment.** -/
theorem scan_block {bad : WChar → Bool} (hstep : Skips step bad) (hstar : bad (wchar '*') = false)
    (hbody : ¬[wchar '*', wchar '/'] <:+: body) (hbad : ∀ c ∈ body, bad c = false) :
    scan step done inBlock (body ++ wchar '*' :: wchar '/' :: t) = scan step done .none t := by
  induction body with
  | nil =>
    rw [List.nil_append, scan_inl (hstep _ _ _ ⟨false, false, true⟩ (Or.inr hstar) rfl)]
    exact scan_inl (hstep _ _ _ _ (Or.inl rfl) rfl)
  | cons c body ih =>
    have hbody' : ¬[wchar '*', wchar '/'] <:+: body := fun h =>
      hbody (h.trans (List.suffix_cons c body).isInfix)
    rw [List.cons_append, scan_inl (hstep _ _ _ _ (Or.inr (hbad c List.mem_cons_self))
      (comment_inBlock (not_end hbody)))]
    exact ih hbody' fun d hd => hbad d (List.mem_cons_of_mem c hd)

/-- The rest of a line comment. -/
theorem scan_line {bad : WChar → Bool} (hstep : Skips step bad)
    (hbody : (0x0a : WChar) ∉ body) (hbad : ∀ c ∈ body, bad c = false) :
    scan step done inLine (body ++ t) = scan step done inLine t := by
  refine scan_append fun c hc rest => hstep _ _ _ _ (Or.inr (hbad c hc)) ?_
  have hne : c ≠ 0x0a := by
    rintro rfl
    exact hbody hc
  simp [comment, inLine, hne]

/-- **A comment between tokens is passed over.** -/
theorem scan_comment {bad : WChar → Bool} (hstep : Skips step bad)
    (hdone : ∀ f, done f = done .none) (hbad : ∀ c ∈ [wchar '/', wchar '*', 0x0a], bad c = false)
    (hk : k.plain = []) (hok : k.BodyOk rest) (hbody : ∀ c ∈ k.body, bad c = false) :
    scan step done .none (k.render ++ render rest) = scan step done .none (render rest) := by
  have hslash := hbad (wchar '/') (by decide)
  have hstar := hbad (wchar '*') (by decide)
  cases k with
  | char c => cases hk
  | blockComment body =>
    have hrender : (Item.blockComment body).render ++ render rest =
        wchar '/' :: wchar '*' :: (body ++ wchar '*' :: wchar '/' :: render rest) := by
      simp [Item.render]
    rw [hrender, scan_inl (hstep _ _ _ ⟨false, true, true⟩ (Or.inr hslash) rfl),
      scan_inl (hstep _ _ _ inBlock (Or.inl rfl) rfl)]
    exact scan_block hstep hstar hok hbody
  | lineComment body =>
    obtain ⟨hnewline, hrest⟩ := hok
    rw [show (Item.lineComment body).render ++ render rest =
      wchar '/' :: wchar '/' :: (body ++ render rest) from rfl,
      scan_inl (hstep _ _ _ ⟨true, false, true⟩ (Or.inr hslash) rfl),
      scan_inl (hstep _ _ _ inLine (Or.inl rfl) rfl), scan_line hstep hnewline hbody]
    cases rest with
    | nil => exact hdone inLine
    | cons k items =>
      obtain rfl := hrest k rfl
      have hnl := hbad 0x0a (by decide)
      show scan step done inLine (0x0a :: render items) =
        scan step done .none (0x0a :: render items)
      rw [scan_inl (hstep _ _ _ .none (Or.inr hnl) rfl),
        scan_inl (hstep _ _ _ .none (Or.inr hnl) rfl)]

end

/-- In a line a comment without a newline is passed over. -/
theorem scan_hidden {ρ : Type} {step : Flags → WChar → Text → Flags ⊕ ρ} {done : Flags → ρ}
    {bad : WChar → Bool} (hstep : Skips step bad)
    (hbad : ∀ c ∈ [wchar '/', wchar '*'], bad c = false) (hk : k.plain = [])
    (hnewline : (0x0a : WChar) ∉ k.body) (hbody : ∀ c ∈ k.body, bad c = false) :
    scan step done inLine (k.render ++ t) = scan step done inLine t := by
  refine scan_line hstep (render_newline hk hnewline) fun c hc => ?_
  rcases Item.mem_render hc with rfl | rfl | rfl | h
  · cases hk
  · exact hbad _ (by decide)
  · exact hbad _ (by decide)
  · exact hbody c h

theorem skips_tag : Skips (tagStep tag) fun _ => false := by
  intro f c rest f' _ hcomment
  rw [tagStep, hcomment]

theorem skips_key : Skips (keyStep key) isClose := by
  intro f c rest f' hbad hcomment
  have hnot : ¬(!f.skipped && c = wchar '}') = true := by
    rcases hbad with hskipped | hclose
    · simp [hskipped]
    · simp only [isClose, decide_eq_false_iff_not] at hclose
      simp [hclose]
  rw [keyStep, if_neg hnot, hcomment]

/-! ## The first two loops -/

section

variable {f : Flags} {next : Option WChar}

/-- In a comment that goes on behind `c`, or in a line, the next character makes no difference. -/
theorem comment_next {next' : Option WChar} (hf : f ≠ .none)
    (h : (comment f c next).getD f = .none ∨ (comment f c next).getD f = inLine) :
    comment f c next' = comment f c next := by
  obtain ⟨double, single, skipped⟩ := f
  unfold comment at h ⊢
  cases skipped <;> cases double <;> cases single <;> simp_all [Flags.none, inLine]
  all_goals grind

theorem Flags.after_comment (hk : k.plain = []) : f.after k rest = f := by
  cases k with
  | char c => cases hk
  | _ => rfl

/-- No name begins with a comment. -/
theorem not_prefix_comment (hne : t ≠ []) (hk : k.plain = []) : ¬chars t <+: k :: rest := by
  obtain ⟨c, t, rfl⟩ := List.exists_cons_of_ne_nil hne
  intro h
  have hhead := (List.cons_prefix_cons.mp h).1
  rw [← hhead] at hk
  cases hk

theorem Exposed.tail {pattern : List Item} {stop : Flags → Item → Bool}
    (h : Exposed pattern stop f (k :: rest)) (hstop : stop f k = false)
    (hnot : ¬(f = .none ∧ pattern <+: k :: rest)) :
    (k.plain = [] → f = .none ∨ f = inLine ∧ (0x0a : WChar) ∉ k.body) ∧
      Exposed pattern stop (f.after k rest) rest := by
  rcases h with hstop' | hfound | htail
  · rw [hstop] at hstop'
    cases hstop'
  · exact absurd hfound hnot
  · exact htail

/-- A comment that stands in no comment of the text. -/
theorem Exposed.comment {stop : Flags → Item → Bool} (h : Exposed (chars t) stop f (k :: rest))
    (hne : t ≠ []) (hk : k.plain = []) (hstop : stop f k = false) :
    (f = .none ∨ f = inLine ∧ (0x0a : WChar) ∉ k.body) ∧ Exposed (chars t) stop f rest := by
  obtain ⟨hplace, hrest⟩ := h.tail hstop fun hfound => not_prefix_comment hne hk hfound.2
  rw [Flags.after_comment hk] at hrest
  exact ⟨hplace hk, hrest⟩

/-- **The comments of a pass** are the same with the inserted comments and without them. -/
theorem comment_heads {stop : Flags → Item → Bool} (hplaced : Placed before (.char c :: rest))
    (hexposed : Exposed (chars t) stop (f.after (.char c) rest) rest) (hne : t ≠ [])
    (hstop : ∀ f k, k.plain = [] → stop f k = false) :
    comment f c (render rest).head? = comment f c (plain rest).head? := by
  cases rest with
  | nil => rfl
  | cons k rest =>
    rcases k.cases_plain with ⟨d, rfl⟩ | hk
    · rfl
    by_cases hf : f = .none
    · have hslash : c ≠ wchar '/' := by
        rintro rfl
        exact absurd rfl (hplaced.char.comment hk).2.1
      rw [hf, comment_none hslash, comment_none hslash]
    · refine comment_next hf ?_
      exact (hexposed.comment hne hk (hstop _ k hk)).1.imp id And.left

theorem behind_cons {pattern : List Item} {stop : Flags → Item → Bool}
    (hstop : stop f k = false) (hnot : ¬(f = .none ∧ pattern <+: k :: rest)) :
    behind pattern stop f (k :: rest) =
      (behind pattern stop (f.after k rest) rest).map fun found => (k :: found.1, found.2) := by
  rw [behind, hstop, if_neg Bool.false_ne_true, if_neg hnot]

theorem behind_append {stop : Flags → Item → Bool} (hstop : stop .none (.char c) = false) :
    behind (chars (c :: t)) stop .none (chars (c :: t) ++ rest) = some ([], rest) := by
  rw [chars_cons, List.cons_append, behind, hstop, if_neg Bool.false_ne_true,
    if_pos ⟨rfl, rest, rfl⟩, ← List.cons_append, List.drop_left]

/-! ### The tag -/

/-- Where the loop to the tag ends, with the comments and without them. -/
inductive TagAt (tag : Text) (f : Flags) (items : List Item) : Prop
  | missing (hbehind : behind (chars (wchar ':' :: tag)) never f items = none)
      (hrender : seekTag tag f (render items) = none)
      (hplain : seekTag tag f (plain items) = none)
  | found {body : List Item} {before : Option WChar}
      (hbehind : ∃ front, behind (chars (wchar ':' :: tag)) never f items = some (front, body))
      (hplaced : Placed before body)
      (hrender : seekTag tag f (render items) = (openBrace (render body)).map (Flags.none, ·))
      (hplain : seekTag tag f (plain items) = (openBrace (plain body)).map (Flags.none, ·))

/-- An item at which the tag does not begin. -/
theorem TagAt.cons (h : TagAt tag (f.after k items) items)
    (hnot : ¬(f = .none ∧ chars (wchar ':' :: tag) <+: k :: items))
    (hrender : seekTag tag f (render (k :: items)) = seekTag tag (f.after k items) (render items))
    (hplain : seekTag tag f (plain (k :: items)) = seekTag tag (f.after k items) (plain items)) :
    TagAt tag f (k :: items) := by
  cases h with
  | missing hbehind hr hp =>
    refine .missing ?_ (hrender.trans hr) (hplain.trans hp)
    rw [behind_cons rfl hnot, hbehind]
    rfl
  | found hbehind hplaced hr hp =>
    obtain ⟨front, hbehind⟩ := hbehind
    refine .found ⟨k :: front, ?_⟩ hplaced (hrender.trans hr) (hplain.trans hp)
    rw [behind_cons rfl hnot, hbehind]
    rfl

/-- A character at which the tag does not begin. -/
theorem seekTag_char (hnot : ¬(f = .none ∧ c = wchar ':' ∧ tag <+: t))
    (hnext : comment f c t.head? = comment f c next) :
    seekTag tag f (c :: t) = seekTag tag ((comment f c next).getD f) t := by
  cases hcomment : comment f c next with
  | some f' =>
    have hstep : tagStep tag f c t = .inl f' := by rw [tagStep, hnext, hcomment]
    exact scan_inl hstep
  | none =>
    obtain rfl := comment_eq_none hcomment
    by_cases hc : c = wchar ':'
    · subst hc
      exact seekTag_colon.trans (if_neg fun h => hnot ⟨rfl, rfl, h⟩)
    · have hstep : tagStep tag .none c t = .inl .none := by
        rw [tagStep, hnext, hcomment]
        exact if_neg hc
      exact scan_inl hstep

/-- The tag begins here. -/
theorem TagAt.here (htag : IsName tag) (hplaced : Placed before (.char (wchar ':') :: items))
    (hbegins : chars tag <+: items) : TagAt tag .none (.char (wchar ':') :: items) := by
  obtain ⟨hnext, hbefore⟩ := hplaced.char_not_ends rfl (by decide)
  obtain ⟨hplain, hrender⟩ := prefix_items htag.nameEnd hbefore hnext
  obtain ⟨body, rfl, hbody⟩ := plain_begins htag.nameEnd hbefore hnext (hplain.mpr hbegins)
  refine .found ⟨[], behind_append rfl⟩ hbody ?_ ?_
  · rw [render_char, seekTag_colon, if_pos (hrender.mpr hbegins), render_append_items,
      render_chars, List.drop_left]
  · rw [plain_char, seekTag_colon, if_pos (hplain.mpr hbegins), plain_append_items,
      plain_chars, List.drop_left]

/-- **The loop to the tag** ends at the same place with the comments and without them. -/
theorem seekTag_items (htag : IsName tag)
    (hexposed : Exposed (chars (wchar ':' :: tag)) never f items)
    (hplaced : Placed before items) : TagAt tag f items := by
  induction items generalizing f before with
  | nil => exact .missing rfl rfl rfl
  | cons k items ih =>
    by_cases hhere : f = .none ∧ chars (wchar ':' :: tag) <+: k :: items
    · obtain ⟨rfl, hbegins⟩ := hhere
      obtain ⟨rfl, htail⟩ := List.cons_prefix_cons.mp hbegins
      exact .here htag hplaced htail
    obtain ⟨before', hplaced'⟩ := hplaced.tail
    obtain ⟨hplace, hrest⟩ := hexposed.tail rfl hhere
    have hitems := ih hrest hplaced'
    rcases k.cases_plain with ⟨c, rfl⟩ | hk
    · have hname : f = .none → c = wchar ':' → ¬tag <+: render items ∧ ¬tag <+: plain items := by
        rintro rfl rfl
        obtain ⟨hnext, hbefore⟩ := hplaced.char_not_ends rfl (by decide)
        obtain ⟨hplain, hrender⟩ := prefix_items htag.nameEnd hbefore hnext
        have hnot : ¬chars tag <+: items := fun h =>
          hhere ⟨rfl, List.cons_prefix_cons.mpr ⟨rfl, h⟩⟩
        exact ⟨mt hrender.mp hnot, mt hplain.mp hnot⟩
      refine hitems.cons hhere (seekTag_char ?_ ?_) (seekTag_char ?_ rfl)
      · exact fun h => (hname h.1 h.2.1).1 h.2.2
      · exact comment_heads hplaced hrest (List.cons_ne_nil _ tag) fun _ _ _ => rfl
      · exact fun h => (hname h.1 h.2.1).2 h.2.2
    · refine hitems.cons hhere ?_ ?_
      · rw [Flags.after_comment hk]
        rcases hplace hk with rfl | ⟨rfl, hnewline⟩
        · exact scan_comment skips_tag (fun _ => rfl) (fun _ _ => rfl) hk (hplaced.comment hk).1
            fun _ _ => rfl
        · exact scan_hidden skips_tag (fun _ _ => rfl) hk hnewline fun _ _ => rfl
      · rw [Flags.after_comment hk, plain_cons, hk]
        rfl

/-! ### The key -/

/-- Where the loop to the key ends; with the comments, if none in front of the key has a `}`. -/
inductive KeyAt (key : Text) (f : Flags) (items : List Item) : Prop
  | missing (hbehind : behind (chars key) atClose f items = none)
      (hrender : seekKey key f (render items) = none)
      (hplain : seekKey key f (plain items) = none)
  | found {lines rest : List Item}
      (hbehind : behind (chars key) atClose f items = some (lines, rest))
      (hplaced : Placed key.getLast? rest)
      (hrender : Free isClose lines → seekKey key f (render items) = some ((render rest).drop 1))
      (hclosed : ¬Free isClose lines → seekKey key f (render items) = none)
      (hplain : seekKey key f (plain items) = some ((plain rest).drop 1))

/-- An item at which neither the key begins nor the block ends. -/
theorem KeyAt.cons (h : KeyAt key (f.after k items) items) (hstop : atClose f k = false)
    (hnot : ¬(f = .none ∧ chars key <+: k :: items))
    (hrender : (∀ c ∈ k.body, isClose c = false) →
      seekKey key f (render (k :: items)) = seekKey key (f.after k items) (render items))
    (hclosed : (∃ c ∈ k.body, isClose c = true) → seekKey key f (render (k :: items)) = none)
    (hplain : seekKey key f (plain (k :: items)) = seekKey key (f.after k items) (plain items)) :
    KeyAt key f (k :: items) := by
  have hbody : (∀ c ∈ k.body, isClose c = false) ∨ ∃ c ∈ k.body, isClose c = true := by
    by_contra h
    simp only [not_or, not_forall, not_exists, Bool.not_eq_false, exists_prop, not_and] at h
    obtain ⟨⟨c, hc, hbad⟩, hnone⟩ := h
    exact hnone c hc hbad
  cases h with
  | missing hbehind hr hp =>
    refine .missing ?_ ?_ (hplain.trans hp)
    · rw [behind_cons hstop hnot, hbehind]
      rfl
    · rcases hbody with hfree | hbad
      · exact (hrender hfree).trans hr
      · exact hclosed hbad
  | @found lines rest hbehind hplaced hr hc hp =>
    have hbehind' : behind (chars key) atClose f (k :: items) = some (k :: lines, rest) := by
      rw [behind_cons hstop hnot, hbehind]
      rfl
    refine .found hbehind' hplaced (fun hfree => ?_) (fun hfree => ?_) (hplain.trans hp)
    · rw [hrender (hfree k List.mem_cons_self)]
      exact hr fun k' hk' => hfree k' (List.mem_cons_of_mem k hk')
    · rcases hbody with hbody | hbad
      · rw [hrender hbody]
        refine hc fun hlines => hfree fun k' hk' => ?_
        rcases List.mem_cons.mp hk' with rfl | hk'
        · exact hbody
        · exact hlines k' hk'
      · exact hclosed hbad

theorem keyStep_close (hf : f.skipped = false) : keyStep key f (wchar '}') t = .inr none := by
  simp [keyStep, hf]

/-- A `}` in a block comment ends the search. -/
theorem seekKey_block (hbody : ¬[wchar '*', wchar '/'] <:+: body) (hclose : wchar '}' ∈ body) :
    seekKey key inBlock (body ++ wchar '*' :: wchar '/' :: t) = none := by
  induction body with
  | nil => cases hclose
  | cons c body ih =>
    by_cases hc : c = wchar '}'
    · subst hc
      exact scan_inr (keyStep_close rfl)
    · have hbody' : ¬[wchar '*', wchar '/'] <:+: body := fun h =>
        hbody (h.trans (List.suffix_cons c body).isInfix)
      have hbad : isClose c = false := by simp [isClose, hc]
      rw [List.cons_append, seekKey,
        scan_inl (skips_key _ _ _ _ (Or.inr hbad) (comment_inBlock (not_end hbody)))]
      exact ih hbody' ((List.mem_cons.mp hclose).resolve_left (Ne.symm hc))

/-- A `}` in a line comment ends the search. -/
theorem seekKey_inLine (hnewline : (0x0a : WChar) ∉ body) (hclose : wchar '}' ∈ body) :
    seekKey key inLine (body ++ t) = none := by
  obtain ⟨front, back, rfl, hfront⟩ := List.eq_append_cons_of_mem hclose
  have hbad : ∀ c ∈ front, isClose c = false := by
    intro c hc
    simp only [isClose, decide_eq_false_iff_not]
    rintro rfl
    exact hfront hc
  rw [seekKey, List.append_assoc,
    scan_line skips_key (fun h => hnewline (List.mem_append_left _ h)) hbad]
  exact scan_inr (keyStep_close rfl)

/-- A `}` in a comment ends the search. -/
theorem seekKey_close (hk : k.plain = []) (hok : k.BodyOk rest) (hclose : wchar '}' ∈ k.body) :
    seekKey key .none (k.render ++ t) = none := by
  cases k with
  | char c => cases hk
  | blockComment body =>
    have hrender : (Item.blockComment body).render ++ t =
        wchar '/' :: wchar '*' :: (body ++ wchar '*' :: wchar '/' :: t) := by
      simp [Item.render]
    rw [hrender, seekKey, scan_inl (skips_key _ _ _ ⟨false, true, true⟩ (Or.inr rfl) rfl),
      scan_inl (skips_key _ _ _ inBlock (Or.inl rfl) rfl)]
    exact seekKey_block hok hclose
  | lineComment body =>
    rw [show (Item.lineComment body).render ++ t = wchar '/' :: wchar '/' :: (body ++ t) from rfl,
      seekKey, scan_inl (skips_key _ _ _ ⟨true, false, true⟩ (Or.inr rfl) rfl),
      scan_inl (skips_key _ _ _ inLine (Or.inl rfl) rfl)]
    exact seekKey_inLine hok.1 hclose

/-- A character at which neither the key begins nor the block ends. -/
theorem seekKey_char (hkey : IsName key) (hstop : atClose f (.char c) = false)
    (hnot : ¬(f = .none ∧ key <+: c :: t)) (hnext : comment f c t.head? = comment f c next) :
    seekKey key f (c :: t) = seekKey key ((comment f c next).getD f) t := by
  have hclose : ¬(!f.skipped && c = wchar '}') = true := by
    simpa [atClose] using hstop
  cases hcomment : comment f c next with
  | some f' =>
    have hstep : keyStep key f c t = .inl f' := by
      rw [keyStep, if_neg hclose, hnext, hcomment]
    exact scan_inl hstep
  | none =>
    obtain rfl := comment_eq_none hcomment
    have hbrace : c ≠ wchar '}' := by simpa [Flags.none] using hclose
    by_cases hslash : c = wchar '/'
    · have hhead : key.head? ≠ some c := head_ne hkey (Or.inl (by rw [hslash]; decide))
      have hstep : keyStep key .none c t = .inl .none := by
        rw [keyStep, if_neg hclose, hnext, hcomment]
        exact if_neg hhead
      exact scan_inl hstep
    · exact (seekKey_cons hkey.sought hslash hbrace).trans (if_neg fun h => hnot ⟨rfl, h⟩)

/-- What a key means for the items, for the loops, and for the loops without the comments. -/
theorem key_items (hkey : IsName key) (hplaced : Placed before (.char c :: items)) :
    (key <+: plain (.char c :: items) ↔ chars key <+: .char c :: items) ∧
      (key <+: render (.char c :: items) ↔ chars key <+: .char c :: items) ∧
      (chars key <+: .char c :: items → ∃ rest, .char c :: items = chars key ++ rest ∧
        Placed key.getLast? rest) := by
  obtain ⟨a, name, rfl⟩ := List.exists_cons_of_ne_nil hkey.nonempty
  rw [chars_cons, plain_char, render_char]
  simp only [List.cons_prefix_cons, Item.char.injEq]
  by_cases hac : a = c
  · subst hac
    have ha := hkey.chars a List.mem_cons_self
    have hblank : isBlank a = false := by
      rw [← Bool.not_eq_true, isBlank_eq ha]
      rintro rfl
      exact hkey.first rfl
    obtain ⟨hnext, hbefore⟩ := hplaced.char_not_ends hblank fun h => ha (ends_special h)
    obtain ⟨hplain, hrender⟩ := prefix_items hkey.nameEnd.tail hbefore hnext
    refine ⟨and_congr_right fun _ => hplain, and_congr_right fun _ => hrender, ?_⟩
    rintro ⟨-, hbegins⟩
    obtain ⟨rest, rfl, hrest⟩ :=
      plain_begins hkey.nameEnd.tail hbefore hnext (hplain.mpr hbegins)
    refine ⟨rest, rfl, ?_⟩
    rw [List.getLast?_cons]
    cases hlast : name.getLast? with
    | none => simpa [hlast] using hrest
    | some d => simpa [hlast] using hrest
  · simp [hac]

/-- The key begins here. -/
theorem KeyAt.here (hkey : IsName key) (hplaced : Placed before (.char c :: items))
    (hbegins : chars key <+: .char c :: items) : KeyAt key .none (.char c :: items) := by
  obtain ⟨-, -, hrest⟩ := key_items hkey hplaced
  obtain ⟨rest, hsplit, hplaced'⟩ := hrest hbegins
  have hmem : c ∈ key := by
    obtain ⟨a, name, rfl⟩ := List.exists_cons_of_ne_nil hkey.nonempty
    rw [← Item.char.inj (List.cons_prefix_cons.mp hbegins).1]
    exact List.mem_cons_self
  have hslash : c ≠ wchar '/' := hkey.ne (by decide) hmem
  have hclose : c ≠ wchar '}' := hkey.ne (by decide) hmem
  have hbehind : behind (chars key) atClose .none (.char c :: items) = some ([], rest) := by
    have hstop : atClose .none (.char c) = false := by simp [atClose, hclose]
    rw [behind, hstop, if_neg Bool.false_ne_true, if_pos ⟨rfl, hbegins⟩, hsplit, List.drop_left]
  refine .found hbehind hplaced' (fun _ => ?_) (fun hfree => ?_) ?_
  · have htext : c :: render items = key ++ render rest := by
      rw [← render_char, hsplit, render_append_items, render_chars]
    rw [render_char, seekKey_cons hkey.sought hslash hclose, htext,
      if_pos (List.prefix_append key _), ← List.drop_drop, List.drop_left]
  · exact absurd (fun k hk => by cases hk) hfree
  · have htext : c :: plain items = key ++ plain rest := by
      rw [← plain_char, hsplit, plain_append_items, plain_chars]
    rw [plain_char, seekKey_cons hkey.sought hslash hclose, htext,
      if_pos (List.prefix_append key _), ← List.drop_drop, List.drop_left]

/-- The end of the block. -/
theorem KeyAt.close (hf : f.skipped = false) : KeyAt key f (.char (wchar '}') :: items) := by
  have hstop : atClose f (.char (wchar '}')) = true := by simp [atClose, hf]
  refine .missing ?_ (scan_inr (keyStep_close hf)) (scan_inr (keyStep_close hf))
  rw [behind, hstop, if_pos rfl]

theorem atClose_comment (f : Flags) (k : Item) (hk : k.plain = []) : atClose f k = false := by
  cases k with
  | char c => cases hk
  | _ => simp [atClose]

/-- A comment in front of the key. -/
theorem KeyAt.comment (h : KeyAt key f items) (hkey : IsName key) (hk : k.plain = [])
    (hok : k.BodyOk items) (hplace : f = .none ∨ f = inLine ∧ (0x0a : WChar) ∉ k.body) :
    KeyAt key f (k :: items) := by
  have hafter : f.after k items = f := Flags.after_comment hk
  have hnot : ¬(f = .none ∧ chars key <+: k :: items) := fun h =>
    not_prefix_comment hkey.nonempty hk h.2
  refine .cons (hafter.symm ▸ h) (atClose_comment f k hk) hnot (fun hbody => ?_) ?_ ?_
  · rw [hafter]
    rcases hplace with rfl | ⟨rfl, hnewline⟩
    · exact scan_comment skips_key (fun _ => rfl) (by decide) hk hok hbody
    · exact scan_hidden skips_key (by decide) hk hnewline hbody
  · rintro ⟨c, hc, hclose⟩
    obtain rfl : c = wchar '}' := of_decide_eq_true hclose
    rcases hplace with rfl | ⟨rfl, hnewline⟩
    · exact seekKey_close hk hok hc
    · exact seekKey_inLine (render_newline hk hnewline) (body_render hc)
  · rw [hafter, plain_cons, hk]
    rfl

/-- **The loop to the key** ends at the same place with the comments and without them. -/
theorem seekKey_items (hkey : IsName key) (hexposed : Exposed (chars key) atClose f items)
    (hplaced : Placed before items) : KeyAt key f items := by
  induction items generalizing f before with
  | nil => exact .missing rfl rfl rfl
  | cons k items ih =>
    obtain ⟨before', hplaced'⟩ := hplaced.tail
    rcases k.cases_plain with ⟨c, rfl⟩ | hk
    · cases hstop : atClose f (.char c) with
      | true =>
        simp only [atClose, Bool.and_eq_true, Bool.not_eq_true', decide_eq_true_eq] at hstop
        obtain ⟨hf, heq⟩ := hstop
        cases heq
        exact .close hf
      | false =>
        obtain ⟨hplain, hrender, -⟩ := key_items hkey hplaced
        by_cases hhere : f = .none ∧ chars key <+: .char c :: items
        · obtain ⟨rfl, hbegins⟩ := hhere
          exact .here hkey hplaced hbegins
        obtain ⟨-, hrest⟩ := hexposed.tail hstop hhere
        refine (ih hrest hplaced').cons hstop hhere (fun _ => ?_) ?_ ?_
        · refine seekKey_char hkey hstop (fun h => hhere ⟨h.1, hrender.mp h.2⟩) ?_
          exact comment_heads hplaced hrest hkey.nonempty atClose_comment
        · rintro ⟨d, hd, -⟩
          cases hd
        · exact seekKey_char hkey hstop (fun h => hhere ⟨h.1, hplain.mp h.2⟩) rfl
    · obtain ⟨hplace, hrest⟩ := hexposed.comment hkey.nonempty hk (atClose_comment f k hk)
      exact (ih hrest hplaced').comment hkey hk (hplaced.comment hk).1 hplace

end

/-! ## The overloads -/

theorem behind_suffix {pattern front : List Item} {stop : Flags → Item → Bool} {f : Flags}
    (h : behind pattern stop f items = some (front, rest)) : rest <:+ items := by
  induction items generalizing f front with
  | nil => cases h
  | cons k items ih =>
    rw [behind] at h
    split at h
    · cases h
    · split at h
      · cases h
        exact List.drop_suffix _ _
      · obtain ⟨found, hfound, heq⟩ := Option.map_eq_some_iff.mp h
        cases heq
        exact (ih hfound).trans (List.suffix_cons k items)

theorem seek_eq (buffer : Text) : seek tag key buffer =
    (seekTag tag .none buffer).bind fun found => seekKey key found.1 found.2 := rfl

/-- No tag. -/
theorem seek_missing (hplaced : Placed none items) (htag : IsName tag)
    (hexposed : Exposed (chars (wchar ':' :: tag)) never .none items)
    (hmissing : behindTag tag items = none) :
    seek tag key (render items) = none ∧ seek tag key (plain items) = none := by
  rw [seek_eq, seek_eq]
  cases seekTag_items htag hexposed hplaced with
  | missing _ hr hp => exact ⟨by rw [hr]; rfl, by rw [hp]; rfl⟩
  | found hbehind =>
    obtain ⟨front, hbehind⟩ := hbehind
    rw [behindTag, hbehind] at hmissing
    cases hmissing

/-- Behind the tag. -/
theorem seek_tag {front : List Item} (key : Text) (hplaced : Placed none items) (htag : IsName tag)
    (hexposed : Exposed (chars (wchar ':' :: tag)) never .none items)
    (hfound : behindTag tag items = some (front, rest)) :
    seek tag key (render items) = (openBrace (render rest)).bind (seekKey key .none) ∧
      seek tag key (plain items) = (openBrace (plain rest)).bind (seekKey key .none) := by
  rw [seek_eq, seek_eq]
  cases seekTag_items htag hexposed hplaced with
  | missing hbehind =>
    rw [behindTag, hbehind] at hfound
    cases hfound
  | found hbehind _ hr hp =>
    obtain ⟨front', hbehind⟩ := hbehind
    rw [behindTag, hbehind] at hfound
    cases hfound
    rw [hr, hp, Option.bind_map, Option.bind_map]
    exact ⟨rfl, rfl⟩

/-- **Behind the tag's brace** the key is looked for in the same block. -/
theorem seek_block {front block : List Item} (key : Text) (hplaced : Placed none items)
    (htag : IsName tag) (hexposed : Exposed (chars (wchar ':' :: tag)) never .none items)
    (hfound : behindTag tag items = some (front, rest)) (hfree : Free isBrace (upTo isBrace rest))
    (hfirst : fromFirst isBrace rest = .char (wchar '{') :: block) :
    block <:+ items ∧ seek tag key (render items) = seekKey key .none (render block) ∧
      seek tag key (plain items) = seekKey key .none (plain block) := by
  obtain ⟨hrender, hplain⟩ := openBrace_items hfree hfirst
  obtain ⟨hr, hp⟩ := seek_tag key hplaced htag hexposed hfound
  rw [hr, hp, hrender, hplain]
  have hsuffix : .char (wchar '{') :: block <:+ rest := hfirst ▸ fromFirst_suffix
  exact ⟨((List.suffix_cons _ block).trans hsuffix).trans (behind_suffix hfound), rfl, rfl⟩

/-- **The first two loops** end behind the key with the comments and without them, or find
nothing. -/
theorem seek_items (hplaced : Placed none items) (htag : IsName tag) (hkey : IsName key)
    (hclear : Undisturbed tag key items) :
    (seek tag key (render items) = none ∧ seek tag key (plain items) = none) ∨
      ∃ rest before, rest <:+ items ∧ Placed before rest ∧ KeyClear rest ∧
        seek tag key (render items) = some ((render rest).drop 1) ∧
        seek tag key (plain items) = some ((plain rest).drop 1) := by
  cases hfound : behindTag tag items with
  | none => exact Or.inl (seek_missing hplaced htag hclear.front hfound)
  | some found =>
    obtain ⟨front, body⟩ := found
    have hfree := hclear.brace front body hfound
    rcases fromFirst_cases isBrace body with hnil | ⟨c, block, hfirst, hc⟩
    · obtain ⟨hr, hp⟩ := seek_tag key hplaced htag hclear.front hfound
      obtain ⟨hrender, hplain⟩ := openBrace_missing hfree hnil
      rw [hr, hp, hrender, hplain]
      exact Or.inl ⟨rfl, rfl⟩
    obtain rfl : c = wchar '{' := of_decide_eq_true hc
    obtain ⟨hsuffix, hr, hp⟩ := seek_block key hplaced htag hclear.front hfound hfree hfirst
    rw [hr, hp]
    obtain ⟨hexposed, hlines⟩ := hclear.block front body block hfound hfirst
    obtain ⟨before, hplaced'⟩ := hplaced.of_suffix hsuffix
    cases seekKey_items hkey hexposed hplaced' with
    | missing _ hr hp => exact Or.inl ⟨hr, hp⟩
    | @found lines rest hbehind hrest hr _ hp =>
      obtain ⟨hlinesFree, hkeyClear⟩ := hlines lines rest hbehind
      exact Or.inr ⟨rest, key.getLast?, (behind_suffix hbehind).trans hsuffix, hrest, hkeyClear,
        hr hlinesFree, hp⟩

/-- **A `}` in a comment between the brace and the key hides the key.** -/
theorem seek_close {front body block lines : List Item} (hplaced : Placed none items)
    (htag : IsName tag) (hkey : IsName key)
    (hexposed : Exposed (chars (wchar ':' :: tag)) never .none items)
    (hfound : behindTag tag items = some (front, body)) (hfree : Free isBrace (upTo isBrace body))
    (hfirst : fromFirst isBrace body = .char (wchar '{') :: block)
    (hblock : Exposed (chars key) atClose .none block)
    (hlines : behindKey key block = some (lines, rest)) (hclose : ¬Free isClose lines) :
    seek tag key (render items) = none ∧
      seek tag key (plain items) = some ((plain rest).drop 1) := by
  obtain ⟨hsuffix, hr, hp⟩ := seek_block key hplaced htag hexposed hfound hfree hfirst
  obtain ⟨before, hplaced'⟩ := hplaced.of_suffix hsuffix
  rw [hr, hp]
  cases seekKey_items hkey hblock hplaced' with
  | missing hbehind =>
    rw [behindKey, hbehind] at hlines
    cases hlines
  | found hbehind _ _ hclosed hp =>
    rw [behindKey, hbehind] at hlines
    cases hlines
    exact ⟨hclosed hclose, hp⟩

/-- **Comments are transparent where the condition holds.** -/
theorem comments_transparent (hplaced : Placed none items) (htag : IsName tag) (hkey : IsName key)
    (hclear : Undisturbed tag key items) (i : Int32) (d : Float) :
    getValueInt (some (render items)) tag key i = getValueInt (some (plain items)) tag key i ∧
      getValueDouble (some (render items)) tag key d =
        getValueDouble (some (plain items)) tag key d ∧
      getValueString (some (render items)) tag key =
        getValueString (some (plain items)) tag key := by
  simp only [getValueInt, getValueDouble, getValueString]
  rcases seek_items hplaced htag hkey hclear with ⟨hr, hp⟩ | ⟨rest, before, hsuffix, hrest, hclear',
    hr, hp⟩
  · rw [hr, hp]
    exact ⟨rfl, rfl, rfl⟩
  · rw [hr, hp]
    exact ⟨readInt_items hrest hclear', readDouble_items hrest hclear',
      readString_items hsuffix hclear'⟩

/-- `:A`, `{ // x`, `k = 5 /* y */`, `}`. -/
def commented : List Item :=
  chars (text ":A\n\x7b ") ++ .lineComment (text " x") :: (chars (text "\nk = 5 ") ++
    .blockComment (text " y ") :: chars (text "\n\x7d\n"))

/-- Behind the key `k` there. -/
def commentedValue : List Item :=
  chars (text " = 5 ") ++ .blockComment (text " y ") :: chars (text "\n\x7d\n")

theorem keyClear_commentedValue : KeyClear commentedValue := by
  refine ⟨?_, by decide, ?_⟩
  · intro k items heq hk
    have hhead : commentedValue.head? = some k := by rw [heq]; rfl
    cases hhead
    cases hk
  · intro value hvalue
    have hfirst : fromFirst isEquals (skipOne commentedValue) =
        .char (wchar '=') :: (fromFirst isEquals (skipOne commentedValue)).tail := by decide
    rw [hfirst] at hvalue
    cases hvalue
    refine ⟨by decide, by decide, ?_⟩
    intro inside hinside
    have hnewline : (fromFirst isQuote (fromFirst isEquals (skipOne commentedValue)).tail).head? =
        some (.char 0x0a) := by decide
    rw [hinside] at hnewline
    cases hnewline

/-- A comment at the end of a line and one behind a number. -/
theorem comments_transparent_commented :
    getValueInt (some (render commented)) (text "A") (text "k") 0 =
        getValueInt (some (plain commented)) (text "A") (text "k") 0 ∧
      getValueDouble (some (render commented)) (text "A") (text "k") 0 =
        getValueDouble (some (plain commented)) (text "A") (text "k") 0 ∧
      getValueString (some (render commented)) (text "A") (text "k") =
        getValueString (some (plain commented)) (text "A") (text "k") := by
  have hfound : behindTag (text "A") commented = some ([], commented.drop 2) := by decide
  have hfirst : fromFirst isBrace (commented.drop 2) =
      .char (wchar '{') :: commented.drop 4 := by decide
  have hlines : behindKey (text "k") (commented.drop 4) =
      some ((commented.drop 4).take 3, commentedValue) := by decide
  refine comments_transparent (by decide) ⟨by decide, by decide, by decide, by decide⟩
    ⟨by decide, by decide, by decide, by decide⟩ ⟨by decide, ?_, ?_⟩ 0 0
  · intro front body hbody
    rw [hfound] at hbody
    cases hbody
    decide
  · intro front body block hbody hblock
    rw [hfound] at hbody
    cases hbody
    rw [hfirst] at hblock
    cases hblock
    refine ⟨by decide, fun lines rest hrest => ?_⟩
    rw [hlines] at hrest
    cases hrest
    exact ⟨by decide, keyClear_commentedValue⟩

/-- A `}` in a comment: the key behind it is not found. -/
theorem comment_hides_key : ∃ items, Placed none items ∧
    getValueInt (some (plain items)) (text "A") (text "k") 0 = (true, 5) ∧
    getValueInt (some (render items)) (text "A") (text "k") 0 = (false, 0) :=
  ⟨chars (text ":A\n\x7b ") ++ .lineComment (text " \x7d") :: chars (text "\nk = 5\n\x7d\n"),
    by decide, by decide, by decide⟩

end Parser

end IocpServer
