import IocpServer.Parser.WrittenValue

/-!
# Blanks around `=`

Texts whose settings are written with any number of spaces and tabs on both sides of `=`, and the
same texts with one space on each side.

* `Token`, `ConfigText` — such a text: its characters, and the `=` of its settings.
* `Neutral` — a pass that does not look at blanks and `=`.
* `Neutral.search_tokens` — **a search ends at the same place in both texts.**
* `ValueLoop.read_tokens` — so does the value loop, on the line of a setting.
* `Once` — the name of a setting, found nowhere else in the text.
* `spacing_iff` — **an overload reads the same from both texts if and only if it does not begin to
  read behind `=`.**
-/

set_option autoImplicit false

namespace IocpServer

open Lib

namespace Parser

/-- Spaces and tabs. -/
structure Blanks where
  text : Text
  blank : ∀ c ∈ text, c = 0x20 ∨ c = 0x09

namespace Blanks

def none : Blanks := ⟨[], by decide⟩

def space : Blanks := ⟨[0x20], by decide⟩

def tab : Blanks := ⟨[0x09], by decide⟩

end Blanks

/-- A character, or the `=` of a setting with the blanks around it. -/
inductive Token where
  | char (c : WChar)
  | equals (before after : Blanks)

namespace Token

def written : Token → Text
  | char c => [c]
  | equals before after => before.text ++ wchar '=' :: after.text

/-- With one space on each side. -/
def spaced : Token → Token
  | char c => char c
  | equals _ _ => equals .space .space

end Token

def written (tokens : List Token) : Text := tokens.flatMap Token.written

/-- On every line at most one setting, and no `=` in front of the `=` of the setting; `seen` is
whether the line has one so far. -/
def OnePerLine : Bool → List Token → Prop
  | _, [] => True
  | seen, .char c :: tokens => OnePerLine (c ≠ 0x0a && (seen || c = wchar '=')) tokens
  | seen, .equals _ _ :: tokens => seen = false ∧ OnePerLine true tokens

/-- A text with settings. -/
structure ConfigText where
  tokens : List Token
  onePerLine : OnePerLine false tokens

variable {tokens rest : List Token} {seen : Bool} {before after : Blanks} {c : WChar}
  {tag key pattern l t : Text}

theorem written_char : written (.char c :: tokens) = c :: written tokens := rfl

theorem written_equals : written (.equals before after :: tokens) =
    before.text ++ wchar '=' :: (after.text ++ written tokens) := by
  rw [written, List.flatMap_cons, Token.written, List.append_assoc, List.cons_append]
  rfl

theorem onePerLine_spaced (h : OnePerLine seen tokens) :
    OnePerLine seen (tokens.map Token.spaced) := by
  induction tokens generalizing seen with
  | nil => trivial
  | cons token tokens ih =>
    cases token with
    | char c => exact ih h
    | equals before after => exact ⟨h.1, ih h.2⟩

namespace ConfigText

def text (config : ConfigText) : Text := written config.tokens

/-- With one space on each side of every `=`. -/
def spaced (config : ConfigText) : ConfigText :=
  ⟨config.tokens.map Token.spaced, onePerLine_spaced config.onePerLine⟩

end ConfigText

/-! ## The value loop -/

theorem Blanks.isBlank (h : c ∈ before.text) : Parser.isBlank c = true := by
  rcases before.blank c h with rfl | rfl <;> rfl

theorem Blanks.isEquals (h : c ∈ before.text) : Parser.isEquals c = false := by
  rcases before.blank c h with rfl | rfl <;> rfl

/-- Behind `=` the rest of the line is the same. -/
theorem sameLine_tokens (h : OnePerLine true tokens) :
    SameLine (written tokens) (written (tokens.map Token.spaced)) := by
  induction tokens with
  | nil => exact .nil
  | cons token tokens ih =>
    cases token with
    | char c =>
      by_cases hc : c = 0x0a
      · subst hc
        exact .newline _ _
      · refine .cons c _ _ hc (ih ?_)
        simpa [OnePerLine, hc] using h
    | equals before after => exact absurd h.1 (by decide)

theorem OnePerLine.of_suffix (h : OnePerLine seen tokens) (hsuffix : rest <:+ tokens) :
    ∃ seen, OnePerLine seen rest := by
  obtain ⟨front, rfl⟩ := hsuffix
  induction front generalizing seen with
  | nil => exact ⟨seen, h⟩
  | cons token front ih =>
    cases token with
    | char c => exact ih h
    | equals before after => exact ih h.2

section

variable {ρ : Type} {L : ValueLoop ρ}

/-- A setting's `=`. -/
theorem ValueLoop.read_setting :
    L.read (before.text ++ wchar '=' :: (after.text ++ t)) = L.value t := by
  rw [ValueLoop.read_append fun c hc => Blanks.isEquals hc, ValueLoop.read_equals,
    ValueLoop.value_blanks fun c hc => Blanks.isBlank hc]

/-- **The value loop reads the same from both texts**, from any place on. -/
theorem ValueLoop.read_tokens (h : OnePerLine seen tokens) :
    L.read (written tokens) = L.read (written (tokens.map Token.spaced)) := by
  cases seen with
  | true => exact ValueLoop.scan_sameLine (sameLine_tokens h) L.seek
  | false =>
    induction tokens with
    | nil => rfl
    | cons token tokens ih =>
      cases token with
      | char c =>
        rw [List.map_cons, Token.spaced, written_char, written_char]
        by_cases hnewline : c = 0x0a
        · subst hnewline
          exact ValueLoop.read_newline.trans ValueLoop.read_newline.symm
        by_cases hequals : c = wchar '='
        · subst hequals
          rw [ValueLoop.read_equals, ValueLoop.read_equals]
          exact ValueLoop.scan_sameLine (sameLine_tokens h) L.ready
        have hother : ∀ t, L.read (c :: t) = L.read t := fun t =>
          @ValueLoop.read_append [c] t ρ L fun d hd => by
            obtain rfl := List.mem_singleton.mp hd
            simp [Parser.isEquals, hnewline, hequals]
        rw [hother, hother]
        refine ih ?_
        simpa [OnePerLine, hnewline, hequals] using h
      | equals before after =>
        rw [List.map_cons, Token.spaced, written_equals, written_equals,
          ValueLoop.read_setting, ValueLoop.read_setting]
        exact ValueLoop.scan_sameLine (sameLine_tokens h.2) L.ready

end

/-! ## The loops to the tag and the key -/

/-- A text that a search can look for: no `=`, and no blank at its end. -/
structure Searched (pattern : Text) : Prop where
  equals : wchar '=' ∉ pattern
  last : ∀ c ∈ pattern.getLast?, c ≠ 0x20 ∧ c ≠ 0x09

theorem Searched.tail (h : Searched (c :: pattern)) : Searched pattern := by
  refine ⟨fun hmem => h.equals (List.mem_cons_of_mem c hmem), fun d hd => h.last d ?_⟩
  cases pattern with
  | nil => cases hd
  | cons a pattern => rwa [List.getLast?_cons_cons]

/-- **Such a text lies in front of the next `=`.** -/
theorem Searched.prefix_tokens (h : Searched pattern) (hbegins : pattern <+: written tokens) :
    ∃ rest, tokens = pattern.map Token.char ++ rest := by
  induction tokens generalizing pattern with
  | nil =>
    obtain rfl := List.prefix_nil.mp hbegins
    exact ⟨[], rfl⟩
  | cons token tokens ih =>
    cases pattern with
    | nil => exact ⟨token :: tokens, rfl⟩
    | cons c pattern =>
      cases token with
      | char d =>
        obtain ⟨rfl, hbehind⟩ := List.cons_prefix_cons.mp hbegins
        obtain ⟨rest, rfl⟩ := ih h.tail hbehind
        exact ⟨rest, rfl⟩
      | equals before after =>
        exfalso
        have hlast := List.getLast_mem (List.cons_ne_nil c pattern)
        have hblank : (c :: pattern).getLast (List.cons_ne_nil c pattern) ∉ before.text := by
          intro hmem
          have hnot := h.last _ (List.getLast?_eq_some_getLast (List.cons_ne_nil c pattern))
          exact (before.blank _ hmem).elim hnot.1 hnot.2
        rw [written_equals] at hbegins
        obtain ⟨t, ht⟩ := hbegins
        obtain ⟨u, hu, -⟩ | ⟨u, hu, htail⟩ := List.append_eq_append_iff.mp ht
        · exact hblank (hu ▸ List.mem_append_left u hlast)
        · cases u with
          | nil =>
            rw [List.append_nil] at hu
            exact hblank (hu ▸ hlast)
          | cons d u =>
            obtain ⟨rfl, -⟩ := List.cons_eq_cons.mp htail
            exact h.equals (hu ▸ List.mem_append_right _ List.mem_cons_self)

theorem written_chars : written (pattern.map Token.char ++ rest) = pattern ++ written rest := by
  induction pattern with
  | nil => rfl
  | cons c pattern ih => exact congrArg (c :: ·) ih

theorem spaced_chars : (pattern.map Token.char ++ rest).map Token.spaced =
    pattern.map Token.char ++ rest.map Token.spaced := by
  rw [List.map_append, List.map_map]
  rfl

theorem chars_of_spaced (h : tokens.map Token.spaced = pattern.map Token.char ++ rest) :
    ∃ rest', tokens = pattern.map Token.char ++ rest' := by
  induction pattern generalizing tokens with
  | nil => exact ⟨tokens, rfl⟩
  | cons c pattern ih =>
    cases tokens with
    | nil => cases h
    | cons token tokens =>
      obtain ⟨htoken, htokens⟩ := List.cons_eq_cons.mp h
      obtain ⟨rest', rfl⟩ := ih htokens
      cases token with
      | char d =>
        cases htoken
        exact ⟨rest', rfl⟩
      | equals before after => cases htoken

/-- The pattern begins in both texts or in none. -/
theorem Searched.prefix_spaced (h : Searched pattern) :
    pattern <+: written tokens ↔ pattern <+: written (tokens.map Token.spaced) := by
  constructor
  · intro hbegins
    obtain ⟨rest, rfl⟩ := h.prefix_tokens hbegins
    rw [spaced_chars, written_chars]
    exact List.prefix_append _ _
  · intro hbegins
    obtain ⟨rest, hrest⟩ := h.prefix_tokens hbegins
    obtain ⟨rest', rfl⟩ := chars_of_spaced hrest
    rw [written_chars]
    exact List.prefix_append _ _

/-- A pass that changes nothing at a blank or at `=`, if it is not skipped, and that looks at the
next character only for the beginning or the end of a comment. -/
structure Neutral {σ : Type} (pass : σ → WChar → Option WChar → Pass σ) (skipping : σ → Prop) :
    Prop where
  blank : ∀ s c next, c = 0x20 ∨ c = 0x09 → ¬skipping s → pass s c next = .go s
  equals : ∀ s next, ¬skipping s →
    pass s (wchar '=') next = .go s ∨ pass s (wchar '=') next = .look
  next : ∀ s c n n', (n = some (wchar '/') ↔ n' = some (wchar '/')) →
    (n = some (wchar '*') ↔ n' = some (wchar '*')) → pass s c n = pass s c n'
  go : ∀ s c n s', pass s c n = .go s' → skipping s' →
    n = some (wchar '/') ∨ n = some (wchar '*')
  look : ∀ s c n, pass s c n = .look → ¬skipping s

/-- What is skipped is a character. -/
def Ready {σ : Type} (skipping : σ → Prop) (s : σ) (tokens : List Token) : Prop :=
  skipping s → ∃ c rest, tokens = .char c :: rest

/-- What a search finds in both texts: nothing, or the pattern at the same place. -/
inductive Both {σ : Type} (skipping : σ → Prop) (tokens : List Token) :
    Option (σ × Text) → Option (σ × Text) → Prop
  | missing : Both skipping tokens none none
  | found (s : σ) (rest : List Token) (hs : ¬skipping s) (hsuffix : rest <:+ tokens) :
    Both skipping tokens (some (s, written rest)) (some (s, written (rest.map Token.spaced)))

section

variable {σ : Type} {pass : σ → WChar → Option WChar → Pass σ} {skipping : σ → Prop} {s : σ}

theorem Both.cons {token : Token} {r r' : Option (σ × Text)} (h : Both skipping tokens r r') :
    Both skipping (token :: tokens) r r' := by
  cases h with
  | missing => exact .missing
  | found s rest hs hsuffix =>
    exact .found s rest hs (hsuffix.trans (List.suffix_cons token tokens))

theorem Neutral.search_blanks (N : Neutral pass skipping) (hs : ¬skipping s)
    (h : ∀ c ∈ l, c = 0x20 ∨ c = 0x09) :
    search pass pattern s (l ++ t) = search pass pattern s t := by
  induction l with
  | nil => rfl
  | cons c l ih =>
    rw [List.cons_append, search_go (N.blank s c _ (h c List.mem_cons_self) hs)]
    exact ih fun d hd => h d (List.mem_cons_of_mem c hd)

/-- The `=` of a setting. -/
theorem Neutral.search_setting (N : Neutral pass skipping) (hp : Searched pattern)
    (hs : ¬skipping s) :
    search pass pattern s (before.text ++ wchar '=' :: (after.text ++ t)) =
      search pass pattern s t := by
  have hequals : search pass pattern s (wchar '=' :: (after.text ++ t)) =
      search pass pattern s (after.text ++ t) := by
    rcases N.equals s (after.text ++ t).head? hs with hpass | hpass
    · exact search_go hpass
    · refine search_miss hpass fun ⟨hne, hbegins⟩ => hp.equals ?_
      obtain ⟨a, pattern, rfl⟩ := List.exists_cons_of_ne_nil hne
      rw [(List.cons_prefix_cons.mp hbegins).1]
      exact List.mem_cons_self
  rw [N.search_blanks hs before.blank, hequals, N.search_blanks hs after.blank]

/-- No setting's `=` begins or ends a comment. -/
theorem head_equals {c : WChar} (hc : c = wchar '/' ∨ c = wchar '*') :
    (written (.equals before after :: tokens)).head? ≠ some c := by
  rw [written_equals]
  cases htext : before.text with
  | nil =>
    rintro ⟨rfl⟩
    revert hc
    decide
  | cons d l =>
    rintro ⟨rfl⟩
    have hblank := before.blank c (htext ▸ List.mem_cons_self)
    rcases hblank with rfl | rfl <;> revert hc <;> decide

theorem head_spaced {c : WChar} (hc : c = wchar '/' ∨ c = wchar '*') :
    (written tokens).head? = some c ↔ (written (tokens.map Token.spaced)).head? = some c := by
  cases tokens with
  | nil => exact Iff.rfl
  | cons token tokens =>
    cases token with
    | char d => exact Iff.rfl
    | equals before after => exact iff_of_false (head_equals hc) (head_equals hc)

/-- A pass does the same in both texts. -/
theorem Neutral.pass_spaced (N : Neutral pass skipping) (s : σ) (c : WChar) (tokens : List Token) :
    pass s c (written tokens).head? = pass s c (written (tokens.map Token.spaced)).head? :=
  N.next s c _ _ (head_spaced (Or.inl rfl)) (head_spaced (Or.inr rfl))

/-- Behind a pass that skips a character there is one. -/
theorem Neutral.ready (N : Neutral pass skipping) {s' : σ}
    (h : pass s c (written tokens).head? = .go s') : Ready skipping s' tokens := by
  intro hskip
  cases tokens with
  | nil =>
    rcases N.go s c _ s' h hskip with hhead | hhead <;> cases hhead
  | cons token tokens =>
    cases token with
    | char d => exact ⟨d, tokens, rfl⟩
    | equals before after =>
      rcases N.go s c _ s' h hskip with hhead | hhead
      · exact absurd hhead (head_equals (Or.inl rfl))
      · exact absurd hhead (head_equals (Or.inr rfl))

/-- **A search ends at the same place in both texts.** -/
theorem Neutral.search_tokens (N : Neutral pass skipping) (hp : Searched pattern)
    (hs : Ready skipping s tokens) :
    Both skipping tokens (search pass pattern s (written tokens))
      (search pass pattern s (written (tokens.map Token.spaced))) := by
  induction tokens generalizing s with
  | nil => exact .missing
  | cons token tokens ih =>
    cases token with
    | equals before after =>
      have hnot : ¬skipping s := by
        intro hskip
        obtain ⟨c, rest, heq⟩ := hs hskip
        cases heq
      rw [List.map_cons, Token.spaced, written_equals, written_equals, N.search_setting hp hnot,
        N.search_setting hp hnot]
      exact (ih fun hskip => absurd hskip hnot).cons
    | char c =>
      rw [List.map_cons, Token.spaced, written_char, written_char]
      have hspaced := N.pass_spaced s c tokens
      cases hpass : pass s c (written tokens).head? with
      | stop =>
        rw [search_stop hpass, search_stop (hspaced ▸ hpass)]
        exact .missing
      | go s' =>
        rw [search_go hpass, search_go (hspaced ▸ hpass)]
        exact (ih (N.ready hpass)).cons
      | look =>
        have hnot := N.look s c _ hpass
        have hiff := @Searched.prefix_spaced (.char c :: tokens) pattern hp
        rw [List.map_cons, Token.spaced, written_char, written_char] at hiff
        by_cases hhere : pattern ≠ [] ∧ pattern <+: c :: written tokens
        · obtain ⟨hne, hbegins⟩ := hhere
          rw [search_hit hpass hne hbegins, search_hit (hspaced ▸ hpass) hne (hiff.mp hbegins)]
          obtain ⟨rest, hrest⟩ := @Searched.prefix_tokens (.char c :: tokens) pattern hp hbegins
          have hwritten : c :: written tokens = pattern ++ written rest := by
            rw [← written_char, hrest, written_chars]
          have hwritten' : c :: written (tokens.map Token.spaced) =
              pattern ++ written (rest.map Token.spaced) := by
            have hmap : (Token.char c :: tokens).map Token.spaced =
                pattern.map Token.char ++ rest.map Token.spaced := by rw [hrest, spaced_chars]
            rw [← written_chars, ← hmap]
            rfl
          rw [hwritten, hwritten', List.drop_left, List.drop_left]
          exact .found s rest hnot ⟨_, hrest.symm⟩
        · rw [search_miss hpass hhere,
            search_miss (hspaced ▸ hpass) fun h => hhere ⟨h.1, hiff.mpr h.2⟩]
          exact (ih fun hskip => absurd hskip hnot).cons

end

/-! ## The passes of the parser -/

section

variable {f f' : Flags} {next next' : Option WChar}

theorem comment_blank (next : Option WChar) (hf : f.skipped = false) (hc : c = 0x20 ∨ c = 0x09) :
    comment f c next = some f := by
  obtain ⟨double, single, skipped⟩ := f
  cases hf
  rcases hc with rfl | rfl <;> cases double <;> cases single <;> rfl

theorem comment_equals (next : Option WChar) (hf : f.skipped = false) :
    comment f (wchar '=') next = some f ∨ comment f (wchar '=') next = none := by
  obtain ⟨double, single, skipped⟩ := f
  cases hf
  cases double <;> cases single
  · exact Or.inr rfl
  · exact Or.inl rfl
  · exact Or.inl rfl
  · exact Or.inl rfl

theorem comment_heads_iff (hslash : next = some (wchar '/') ↔ next' = some (wchar '/'))
    (hstar : next = some (wchar '*') ↔ next' = some (wchar '*')) :
    comment f c next = comment f c next' := by
  unfold comment
  simp only [hslash, hstar]

theorem comment_skips (h : comment f c next = some f') (hskip : f'.skipped = true) :
    next = some (wchar '/') ∨ next = some (wchar '*') := by
  obtain ⟨double, single, skipped⟩ := f
  unfold comment at h
  grind

theorem neutral_comment : Neutral commentPass fun f => f.skipped = true where
  blank f c next hc hf := by
    rw [commentPass, comment_blank next (by simpa using hf) hc]
    rfl
  equals f next hf := by
    unfold commentPass
    rcases comment_equals next (f := f) (by simpa using hf) with h | h
    · exact Or.inl (by rw [h]; rfl)
    · exact Or.inr (by rw [h]; rfl)
  next f c n n' hslash hstar := by
    unfold commentPass
    rw [comment_heads_iff hslash hstar]
  go f c n f' h hskip := comment_skips (commentPass_go h) hskip
  look f c n h := by
    rw [comment_eq_none (commentPass_look h)]
    decide

theorem neutral_key : Neutral keyPass fun f => f.skipped = true where
  blank f c next hc hf := by
    have hclose : c ≠ wchar '}' := by
      rcases hc with rfl | rfl <;> decide
    rw [keyPass, if_neg (by simp [hclose])]
    exact neutral_comment.blank f c next hc hf
  equals f next hf := by
    have hclose : wchar '=' ≠ wchar '}' := by decide
    rw [keyPass, if_neg (by simp [hclose])]
    exact neutral_comment.equals f next hf
  next f c n n' hslash hstar := by
    unfold keyPass
    rw [neutral_comment.next f c n n' hslash hstar]
  go f c n f' h hskip := by
    unfold keyPass at h
    split at h
    · cases h
    · exact neutral_comment.go f c n f' h hskip
  look f c n h := by
    unfold keyPass at h
    split at h
    · cases h
    · exact neutral_comment.look f c n h

/-- A character that is no brace. -/
theorem topPass_other {f : TopFlags} (hf : ¬f.flags.skipped = true) (hopen : c ≠ wchar '{')
    (hclose : c ≠ wchar '}') (hcomment : comment f.flags c next = some f.flags ∨
      comment f.flags c next = none) : topPass f c next = .go f ∨ topPass f c next = .look ∧
        comment f.flags c next = none := by
  obtain ⟨flags, inTag⟩ := f
  cases inTag with
  | true =>
    refine Or.inl ?_
    rw [topPass, if_neg hf, if_pos rfl, decide_eq_true hclose]
  | false =>
    rw [topPass, if_neg hf, if_neg Bool.false_ne_true, if_neg hopen]
    rcases hcomment with hcomment | hcomment
    · exact Or.inl (by rw [hcomment]; rfl)
    · exact Or.inr ⟨by rw [hcomment]; rfl, hcomment⟩

theorem neutral_top : Neutral topPass fun f => f.flags.skipped = true where
  blank f c next hc hf := by
    have hopen : c ≠ wchar '{' := by
      rcases hc with rfl | rfl <;> decide
    have hclose : c ≠ wchar '}' := by
      rcases hc with rfl | rfl <;> decide
    have hcomment := comment_blank next (by simpa using hf) hc
    refine (topPass_other hf hopen hclose (Or.inl hcomment)).resolve_right fun h => ?_
    rw [hcomment] at h
    cases h.2
  equals f next hf := by
    have hcomment := comment_equals next (f := f.flags) (by simpa using hf)
    exact (topPass_other hf (by decide) (by decide) hcomment).imp_right And.left
  next f c n n' hslash hstar := by
    unfold topPass
    rw [comment_heads_iff hslash hstar]
  go f c n f' h hskip := by
    unfold topPass at h
    split at h
    · cases h
      cases hskip
    · rename_i hf
      split at h
      · cases h
        exact absurd hskip hf
      · split at h
        · cases h
          exact absurd hskip hf
        · cases hcomment : comment f.flags c n with
          | none =>
            rw [hcomment] at h
            cases h
          | some flags =>
            rw [hcomment] at h
            cases h
            exact comment_skips hcomment hskip
  look f c n h := by
    obtain ⟨hskipped, -⟩ := topPass_look h
    exact hskipped

end

/-! ## The overloads -/

/-- The texts behind a place found in both. -/
inductive BothBehind (tokens : List Token) : Option Text → Option Text → Prop
  | missing : BothBehind tokens none none
  | found (rest : List Token) (hsuffix : rest <:+ tokens) :
    BothBehind tokens (some (written rest)) (some (written (rest.map Token.spaced)))

theorem BothBehind.cases {r r' : Option Text} (h : BothBehind tokens r r') :
    (r = none ∧ r' = none) ∨ ∃ rest, rest <:+ tokens ∧ r = some (written rest) ∧
      r' = some (written (rest.map Token.spaced)) := by
  cases h with
  | missing => exact Or.inl ⟨rfl, rfl⟩
  | found rest hsuffix => exact Or.inr ⟨rest, hsuffix, rfl, rfl⟩

theorem BothBehind.of_suffix {r r' : Option Text} (h : BothBehind rest r r')
    (hsuffix : rest <:+ tokens) : BothBehind tokens r r' := by
  cases h with
  | missing => exact .missing
  | found rest' hrest => exact .found rest' (hrest.trans hsuffix)

theorem BothBehind.bind {r r' : Option Text} {g : Text → Option Text}
    (h : BothBehind tokens r r') (hg : ∀ rest, rest <:+ tokens →
      BothBehind rest (g (written rest)) (g (written (rest.map Token.spaced)))) :
    BothBehind tokens (r.bind g) (r'.bind g) := by
  cases h with
  | missing => exact .missing
  | found rest hsuffix => exact (hg rest hsuffix).of_suffix hsuffix

section

variable {σ : Type} {skipping : σ → Prop} {r r' : Option (σ × Text)}

theorem Both.behind (h : Both skipping tokens r r') :
    BothBehind tokens (r.map Prod.snd) (r'.map Prod.snd) := by
  cases h with
  | missing => exact .missing
  | found s rest hs hsuffix => exact .found rest hsuffix

theorem Both.bind {g : σ → Text → Option Text} (h : Both skipping tokens r r')
    (hg : ∀ s rest, ¬skipping s → rest <:+ tokens →
      BothBehind rest (g s (written rest)) (g s (written (rest.map Token.spaced)))) :
    BothBehind tokens (r.bind fun x => g x.1 x.2) (r'.bind fun x => g x.1 x.2) := by
  cases h with
  | missing => exact .missing
  | found s rest hs hsuffix => exact (hg s rest hs hsuffix).of_suffix hsuffix

end

theorem openBrace_other (h : ∀ c ∈ l, c ≠ wchar '{') : openBrace (l ++ t) = openBrace t := by
  induction l with
  | nil => rfl
  | cons c l ih =>
    rw [List.cons_append, openBrace, if_neg (h c List.mem_cons_self)]
    exact ih fun d hd => h d (List.mem_cons_of_mem c hd)

theorem Blanks.ne_brace (h : c ∈ before.text) : c ≠ wchar '{' := by
  rcases before.blank c h with rfl | rfl <;> decide

/-- The brace behind the tag. -/
theorem openBrace_tokens (tokens : List Token) :
    BothBehind tokens (openBrace (written tokens))
      (openBrace (written (tokens.map Token.spaced))) := by
  induction tokens with
  | nil => exact .missing
  | cons token tokens ih =>
    cases token with
    | char c =>
      rw [List.map_cons, Token.spaced, written_char, written_char, openBrace, openBrace]
      by_cases hc : c = wchar '{'
      · rw [if_pos hc, if_pos hc]
        exact .found tokens (List.suffix_cons _ tokens)
      · rw [if_neg hc, if_neg hc]
        exact ih.of_suffix (List.suffix_cons _ tokens)
    | equals before after =>
      have hequals : ∀ {before after : Blanks} {t : Text},
          openBrace (before.text ++ wchar '=' :: (after.text ++ t)) = openBrace t := by
        intro before after t
        rw [openBrace_other fun c hc => before.ne_brace hc, openBrace, if_neg (by decide),
          openBrace_other fun c hc => after.ne_brace hc]
      rw [List.map_cons, Token.spaced, written_equals, written_equals, hequals, hequals]
      exact ih.of_suffix (List.suffix_cons _ tokens)

/-- **Every overload finds the key at the same place in both texts.** -/
theorem Overload.behind_tokens (o : Overload) (tokens : List Token)
    (htag : Searched (wchar ':' :: tag)) (hkey : Searched key) :
    BothBehind tokens (o.behind tag key (written tokens))
      (o.behind tag key (written (tokens.map Token.spaced))) := by
  unfold Overload.behind
  split
  · have hfound := @Neutral.search_tokens tokens _ _ _ _ Flags.none neutral_comment htag
      fun h => absurd h (by decide)
    refine Both.bind (g := fun f rest => (openBrace rest).bind fun block =>
      (search keyPass key f block).map Prod.snd) hfound fun f rest hf hrest => ?_
    refine (openBrace_tokens rest).bind fun block hblock => ?_
    exact (neutral_key.search_tokens hkey fun h => absurd h hf).behind
  · have hfound := @Neutral.search_tokens tokens _ _ _ _ TopFlags.none neutral_top hkey
      fun h => absurd h (by decide)
    exact hfound.behind

/-- A place in a text is known by what is behind it. -/
theorem suffix_eq {rest' : List Token} (h : rest <:+ tokens) (h' : rest' <:+ tokens)
    (heq : written rest = written rest') : rest = rest' := by
  have hsame : ∀ {a b : List Token}, a <:+ b → written a = written b → a = b := by
    rintro a b ⟨front, rfl⟩ heq
    cases front with
    | nil => rfl
    | cons token front =>
      have hlength := congrArg List.length heq
      have hpos : 0 < token.written.length := by
        cases token with
        | char c => exact Nat.one_pos
        | equals before after =>
          rw [Token.written, List.length_append, List.length_cons]
          omega
      simp only [written, List.cons_append, List.flatMap_cons, List.flatMap_append,
        List.length_append] at hlength
      omega
  rcases List.suffix_or_suffix_of_suffix h h' with hsuffix | hsuffix
  · exact hsame hsuffix heq
  · exact (hsame hsuffix heq.symm).symm

/-- **No blank in front of `=`**: the key is found right in front of the `=` of a setting, and
`rest` is what is behind that. -/
def Overload.Tight (o : Overload) (config : ConfigText) (tag key : Text) (rest : List Token) :
    Prop :=
  ∃ front before after, before.text = [] ∧ config.tokens = front ++ .equals before after :: rest ∧
    o.behind tag key config.text = some (written (.equals before after :: rest))

theorem Searched.colon (h : Searched tag) : Searched (wchar ':' :: tag) := by
  refine ⟨fun hmem => ?_, fun c hc => ?_⟩
  · rcases List.mem_cons.mp hmem with heq | hmem
    · exact absurd heq (by decide)
    · exact h.equals hmem
  · cases tag with
    | nil =>
      cases hc
      decide
    | cons a tag =>
      rw [List.getLast?_cons_cons] at hc
      exact h.last c hc

theorem Overload.skip_cases (o : Overload) : o = ⟨false, .string⟩ ∧ o.skip = 0 ∨
    o ≠ ⟨false, .string⟩ ∧ o.skip = 1 := by
  obtain ⟨tagged, kind⟩ := o
  cases tagged <;> cases kind <;> decide

/-- **The value loop from one character behind the key on.** -/
theorem Kind.read_skip (k : Kind) (h : OnePerLine seen tokens) :
    k.read ((written tokens).drop 1) = k.read ((written (tokens.map Token.spaced)).drop 1) ↔
      ∀ before after rest, tokens = .equals before after :: rest → before.text = [] →
        SameSkipped k (written rest) := by
  simp only [SameSkipped, (k.read_eq _).1]
  cases tokens with
  | nil =>
    refine iff_of_true rfl ?_
    rintro before after rest heq
    cases heq
  | cons token tokens =>
    obtain ⟨seen', hrest⟩ := h.of_suffix (List.suffix_cons token tokens)
    cases token with
    | char c =>
      refine iff_of_true (ValueLoop.read_tokens hrest) ?_
      rintro before after rest heq
      cases heq
    | equals before after =>
      have hspaced : k.loop.read ((written ((Token.equals before after :: tokens).map
          Token.spaced)).drop 1) = k.loop.value (written tokens) := by
        rw [List.map_cons, Token.spaced, written_equals]
        refine ValueLoop.read_equals.trans ?_
        rw [ValueLoop.value_blanks fun c hc => Blanks.isBlank hc]
        exact (ValueLoop.scan_sameLine (sameLine_tokens h.2) k.loop.ready).symm
      rw [hspaced, written_equals]
      cases htext : before.text with
      | nil =>
        rw [List.nil_append, List.drop_succ_cons, List.drop_zero,
          ValueLoop.read_append fun c hc => Blanks.isEquals hc]
        constructor
        · rintro heq before' after' rest hsame -
          cases hsame
          exact heq.trans ValueLoop.read_equals.symm
        · intro hsame
          exact (hsame before after tokens rfl htext).trans ValueLoop.read_equals
      | cons d l =>
        have hblank : ∀ c ∈ l, isEquals c = false := fun c hc =>
          @Blanks.isEquals before c (htext ▸ List.mem_cons_of_mem d hc)
        rw [List.cons_append, List.drop_succ_cons, List.drop_zero, ValueLoop.read_append hblank,
          ValueLoop.read_equals, ValueLoop.value_blanks fun c hc => Blanks.isBlank hc]
        refine iff_of_true rfl ?_
        rintro before' after' rest heq hnil
        cases heq
        rw [hnil] at htext
        cases htext

/-- **Every overload returns the same with any number of blanks around `=` if and only if** it is
the one for strings without a tag, or the key is not found right in front of the `=` of a setting,
or the line of that setting reads the same without its `=`. -/
theorem Overload.getValue_spaced_iff (o : Overload) (config : ConfigText) (i : Int32) (d : Float)
    (htag : Searched tag) (hkey : Searched key) :
    o.getValue i d config.text tag key = o.getValue i d config.spaced.text tag key ↔
      o = ⟨false, .string⟩ ∨
        ∀ rest, o.Tight config tag key rest → SameSkipped o.kind (written rest) := by
  rw [Overload.getValue_eq, Overload.getValue_eq]
  rcases (o.behind_tokens config.tokens htag.colon hkey).cases with
    ⟨hnone, hspaced⟩ | ⟨rest, hsuffix, hsome, hspaced⟩
  · have hmissing : o.behind tag key config.text = none := hnone
    have hmissing' : o.behind tag key config.spaced.text = none := hspaced
    rw [hmissing, hmissing']
    refine iff_of_true rfl (Or.inr ?_)
    rintro rest ⟨front, before, after, -, -, hfound⟩
    rw [hmissing] at hfound
    cases hfound
  · have hfound : o.behind tag key config.text = some (written rest) := hsome
    have hfound' : o.behind tag key config.spaced.text =
        some (written (rest.map Token.spaced)) := hspaced
    obtain ⟨seen, hline⟩ := config.onePerLine.of_suffix hsuffix
    rw [hfound, hfound', Option.map_some, Option.map_some, Option.getD_some, Option.getD_some]
    rcases o.skip_cases with ⟨ho, hskip⟩ | ⟨ho, hskip⟩
    · rw [hskip, List.drop_zero, List.drop_zero, (o.kind.read_eq _).1, (o.kind.read_eq _).1]
      exact iff_of_true (ValueLoop.read_tokens hline) (Or.inl ho)
    rw [hskip, o.kind.read_skip hline]
    constructor
    · intro h
      right
      rintro rest' ⟨front, before, after, hnil, htokens, hfound'⟩
      have hsame : written rest = written (.equals before after :: rest') :=
        Option.some.inj (hfound.symm.trans hfound')
      exact h before after rest' (suffix_eq hsuffix ⟨front, htokens.symm⟩ hsame) hnil
    · rintro (ho' | h) before after rest' rfl hnil
      · exact absurd ho' ho
      · obtain ⟨front, hfront⟩ := hsuffix
        exact h rest' ⟨front, before, after, hnil, hfront.symm, hfound⟩

/-- The key occurs once in the text, at the end of the name of a setting: `before` are the blanks
behind it, and `rest` is what is behind `=` and its blanks. -/
structure Once (config : ConfigText) (key : Text) (before : Blanks) (rest : List Token) : Prop where
  setting : ∃ front after,
    config.tokens = front ++ (key.map Token.char ++ .equals before after :: rest)
  unique : ∀ x y x' y', config.text = x ++ key ++ y → config.text = x' ++ key ++ y' → x = x'

/-- **A name that occurs once** is found there or not at all. -/
theorem Once.tight_iff {o : Overload} {config : ConfigText} {rest' : List Token}
    (h : Once config key before rest) : o.Tight config tag key rest' ↔
      before.text = [] ∧ rest' = rest ∧ o.behind tag key config.text ≠ none := by
  obtain ⟨front, after, htokens⟩ := h.setting
  have htext : config.text = written front ++ key ++ written (.equals before after :: rest) := by
    rw [ConfigText.text, htokens, written, List.flatMap_append, List.append_assoc]
    exact congrArg _ written_chars
  have hbehind : ∀ {behind}, o.behind tag key config.text = some behind →
      behind = written (.equals before after :: rest) := by
    intro behind hfound
    obtain ⟨x, hsplit⟩ := o.behind_split hfound
    obtain rfl := h.unique _ _ _ _ htext hsplit
    exact (List.append_cancel_left (htext.symm.trans hsplit)).symm
  have hsuffix : .equals before after :: rest <:+ config.tokens :=
    ⟨front ++ key.map Token.char, by rw [htokens, List.append_assoc]⟩
  constructor
  · rintro ⟨front', before', after', hnil, htokens', hfound⟩
    have hsame := suffix_eq ⟨front', htokens'.symm⟩ hsuffix (hbehind hfound)
    cases hsame
    exact ⟨hnil, rfl, by rw [hfound]; exact Option.some_ne_none _⟩
  · rintro ⟨hnil, rfl, hne⟩
    obtain ⟨behind, hfound⟩ := Option.ne_none_iff_exists'.mp hne
    refine ⟨front ++ key.map Token.char, before, after, hnil, ?_, ?_⟩
    · rw [htokens, List.append_assoc]
    · rw [hfound, hbehind hfound]

/-- **Blanks around `=`.**  When every overload returns the same with any number of blanks as with
one space on each side: in general, for a name that occurs once, and what the last condition says
of the text: behind the next `=` of the line the same value is written.  On a line with one `=`,
whose digits do not stand in front of quotes, no value of the type is. -/
theorem spacing_iff (o : Overload) (config : ConfigText) (i : Int32) (d : Float)
    (htag : Searched tag) (hkey : Searched key) :
    (o.getValue i d config.text tag key = o.getValue i d config.spaced.text tag key ↔
      o = ⟨false, .string⟩ ∨
        ∀ rest, o.Tight config tag key rest → SameSkipped o.kind (written rest)) ∧
    (∀ before rest, Once config key before rest →
      (o.getValue i d config.text tag key = o.getValue i d config.spaced.text tag key ↔
        o = ⟨false, .string⟩ ∨ before.text ≠ [] ∨ o.behind tag key config.text = none ∨
          SameSkipped o.kind (written rest))) ∧
    (∀ l t, (0x0a : WChar) ∉ l → wchar '=' ∉ l →
      (wchar '"' ∈ l → ∀ c ∈ l.takeWhile (· ≠ wchar '"'), isDigit c = false) →
      (SameSkipped o.kind (l ++ 0x0a :: t) ↔ ¬o.kind.Takes l)) ∧
    ∀ t, SameSkipped o.kind t ↔ o.kind.nextValue t = o.kind.lineValue t := by
  have hiff := o.getValue_spaced_iff config i d htag hkey
  refine ⟨hiff, fun before rest honce => hiff.trans (or_congr_right ?_),
    fun l t => sameSkipped_iff o.kind, fun t => sameSkipped_written o.kind⟩
  simp only [honce.tight_iff]
  constructor
  · intro h
    by_cases hnil : before.text = []
    · by_cases hnone : o.behind tag key config.text = none
      · exact Or.inr (Or.inl hnone)
      · exact Or.inr (Or.inr (h rest ⟨hnil, rfl, hnone⟩))
    · exact Or.inl hnil
  · rintro h rest' ⟨hnil, rfl, hne⟩
    exact (h.resolve_left fun hnot => hnot hnil).resolve_left hne

/-- `:A`, `{`, the setting `k` with these blanks around `=` and the value 5, `}`. -/
def settingText (before after : Blanks) : ConfigText where
  tokens := (text ":A\n\x7b\nk").map Token.char ++
    .equals before after :: (text "5\n\x7d\n").map Token.char
  onePerLine := ⟨rfl, trivial⟩

/-- A tab in front of `=`, and nothing behind it. -/
theorem spacing_iff_tab :
    getValueInt (some (settingText .tab .none).text) (text "A") (text "k") 0 =
      getValueInt (some (settingText .space .space).text) (text "A") (text "k") 0 := by
  have htag : Searched (text "A") := ⟨by decide, by rintro c ⟨⟩; decide⟩
  have hkey : Searched (text "k") := ⟨by decide, by rintro c ⟨⟩; decide⟩
  refine (spacing_iff ⟨true, .int⟩ (settingText .tab .none) 0 0 htag hkey).1.mpr (Or.inr ?_)
  rintro rest ⟨front, before, after, hnil, htokens, -⟩
  have hmem : Token.equals before after ∈ (settingText .tab .none).tokens :=
    htokens ▸ List.mem_append_right front List.mem_cons_self
  obtain ⟨rfl, -⟩ : before = .tab ∧ after = .none := by
    simpa [settingText] using hmem
  cases hnil

/-- No blank in front of `=`: the key is not found, and with one it is. -/
theorem equals_skipped : ∃ config : ConfigText,
    config.text = text ":A\n\x7b\nk= 5\n\x7d\n" ∧
    config.spaced.text = text ":A\n\x7b\nk = 5\n\x7d\n" ∧
    getValueInt (some config.text) (text "A") (text "k") 0 = (false, 0) ∧
    getValueInt (some config.spaced.text) (text "A") (text "k") 0 = (true, 5) :=
  ⟨settingText .none .space, by decide, by decide, by decide, by decide⟩

end Parser

end IocpServer
