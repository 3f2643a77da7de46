import IocpServer.Parser
import IocpServer.Lib.Search

/-!
# The overloads without a tag

The three overloads of `Parser::GetValue` that take a key only.  Their first loop passes over
everything in braces, and their value loop is the one of the overload with a tag.

* `topStep`, `seekTop` — the loop that looks for the key.
* `getTopInt`, `getTopDouble`, `getTopString` — the overloads.
* `seekTag_eq_search`, `seekKey_eq_search`, `seekTop_eq_search` — **every loop to a tag or a key is
  a search.**
* `keyBehind`, `topBehind` — the text behind the key, as the six overloads find it.
-/

set_option autoImplicit false

namespace IocpServer

open Lib

namespace Parser

structure TopFlags where
  flags : Flags
  inTagFlag : Bool
  deriving DecidableEq

/-- All flags are down. -/
def TopFlags.none : TopFlags := ⟨.none, false⟩

/-- The comparison with the key.  `skip` is what is added to `i + keyLen`. -/
def compareKey {σ : Type} (key : Text) (skip : Nat) (s : σ) (c : WChar) (rest : Text) :
    σ ⊕ Option Text :=
  if key.head? = some c then
    -- `break`: the text is too short
    if (c :: rest).length < key.length then .inr none
    else if key <+: c :: rest then .inr (some ((c :: rest).drop (key.length + skip)))
    else .inl s
  else .inl s

/-- A pass of the loop that looks for the key outside the braces. -/
def topStep (key : Text) (skip : Nat) (f : TopFlags) (c : WChar) (rest : Text) :
    TopFlags ⊕ Option Text :=
  if f.flags.skipped then .inl { f with flags := { f.flags with skipped := false } }
  else if f.inTagFlag then .inl { f with inTagFlag := c ≠ wchar '}' }
  else if c = wchar '{' then .inl { f with inTagFlag := true }
  else
    match comment f.flags c rest.head? with
    | some flags => .inl { f with flags := flags }
    | none => compareKey key skip f c rest

/-- The loop that looks for the key: `seekKey`. -/
def seekTop (key : Text) (skip : Nat) : Text → Option Text :=
  scan (topStep key skip) (fun _ => none) .none

/-- `GetValue(key, int& value)`. -/
def getTopInt (buffer : Option Text) (key : Text) (value : Int32) : Bool × Int32 :=
  match buffer with
  | none => (false, value)
  | some buffer =>
    match seekTop key 1 buffer with
    | none => (false, 0)
    | some rest => readInt rest

/-- `GetValue(key, double& value)`. -/
def getTopDouble (buffer : Option Text) (key : Text) (value : Float) : Bool × Float :=
  match buffer with
  | none => (false, value)
  | some buffer =>
    match seekTop key 1 buffer with
    | none => (false, 0)
    | some rest => readDouble rest

/-- `GetValue(key, WCHAR** value)`: here `seekKey` is right behind the key. -/
def getTopString (buffer : Option Text) (key : Text) : Except Fault (Option Text) :=
  match buffer with
  | none => .ok none
  | some buffer =>
    match seekTop key 0 buffer with
    | none => .ok none
    | some rest => readString buffer rest

/-! ## The loops as searches -/

/-- What a pass of the loop to the tag does before it looks at its character. -/
def commentPass (f : Flags) (c : WChar) (next : Option WChar) : Pass Flags :=
  (comment f c next).elim .look .go

/-- The same for the loop to the key in a block. -/
def keyPass (f : Flags) (c : WChar) (next : Option WChar) : Pass Flags :=
  if !f.skipped && c = wchar '}' then .stop else commentPass f c next

/-- The same for the loop to the key outside the braces. -/
def topPass (f : TopFlags) (c : WChar) (next : Option WChar) : Pass TopFlags :=
  if f.flags.skipped then .go { f with flags := { f.flags with skipped := false } }
  else if f.inTagFlag then .go { f with inTagFlag := c ≠ wchar '}' }
  else if c = wchar '{' then .go { f with inTagFlag := true }
  else (comment f.flags c next).elim .look fun flags => .go { f with flags := flags }

variable {tag key l behind buffer : Text} {f f' : Flags} {c : WChar} {next : Option WChar}

theorem commentPass_go (h : commentPass f c next = .go f') : comment f c next = some f' := by
  unfold commentPass at h
  cases hcomment : comment f c next with
  | none =>
    rw [hcomment] at h
    cases h
  | some f₁ =>
    rw [hcomment] at h
    cases h
    rfl

theorem commentPass_look (h : commentPass f c next = .look) : comment f c next = none := by
  unfold commentPass at h
  cases hcomment : comment f c next with
  | none => rfl
  | some f₁ =>
    rw [hcomment] at h
    cases h

theorem commentPass_stop : commentPass f c next ≠ .stop := by
  unfold commentPass
  cases comment f c next <;> simp

theorem topPass_look {f : TopFlags} (h : topPass f c next = .look) :
    ¬f.flags.skipped = true ∧ ¬f.inTagFlag = true ∧ c ≠ wchar '{' ∧
      comment f.flags c next = none := by
  unfold topPass at h
  cases hcomment : comment f.flags c next <;> grind

section

variable {σ : Type} {s : σ} {skip : Nat}

/-- The key begins here. -/
theorem compareKey_hit (hne : key ≠ []) (h : key <+: c :: l) :
    compareKey key skip s c l = .inr (some (((c :: l).drop key.length).drop skip)) := by
  have hhead : key.head? = some c := by
    obtain ⟨a, key, rfl⟩ := List.exists_cons_of_ne_nil hne
    rw [(List.cons_prefix_cons.mp h).1]
    rfl
  rw [compareKey, if_pos hhead, if_neg (Nat.not_lt.mpr h.length_le), if_pos h, List.drop_drop]

/-- It does not. -/
theorem compareKey_miss (hnot : ¬(key ≠ [] ∧ key <+: c :: l)) :
    compareKey key skip s c l = .inl s ∨
      compareKey key skip s c l = .inr none ∧ l.length < key.length := by
  unfold compareKey
  split
  · rename_i hhead
    have hne : key ≠ [] := by
      rintro rfl
      cases hhead
    split
    · rename_i hshort
      rw [List.length_cons] at hshort
      exact Or.inr ⟨rfl, by omega⟩
    · exact Or.inl (if_neg fun h => hnot ⟨hne, h⟩)
  · exact Or.inl rfl

end

theorem searches_key : Searches (keyStep key) keyPass key fun _ behind => some (behind.drop 1) where
  stop f c rest h := by
    unfold keyPass at h
    split at h
    · rename_i hclose
      exact if_pos hclose
    · exact absurd h commentPass_stop
  go f c rest f' h := by
    unfold keyPass at h
    split at h
    · cases h
    · rename_i hclose
      rw [keyStep, if_neg hclose, commentPass_go h]
  hit f c rest h hne hbegins := by
    unfold keyPass at h
    split at h
    · cases h
    · rename_i hclose
      rw [keyStep, if_neg hclose, commentPass_look h]
      exact compareKey_hit hne hbegins
  miss f c rest h hnot := by
    unfold keyPass at h
    split at h
    · cases h
    · rename_i hclose
      rw [keyStep, if_neg hclose, commentPass_look h]
      exact compareKey_miss hnot

/-- **The loop to the key in a block is a search.** -/
theorem seekKey_eq_search :
    seekKey key f l = (search keyPass key f l).map fun x => x.2.drop 1 := by
  rw [seekKey, searches_key.scan_eq]
  cases search keyPass key f l <;> rfl

theorem searches_tag : Searches (tagStep tag) commentPass (wchar ':' :: tag) fun f rest =>
    (openBrace rest).map (f, ·) where
  stop f c rest h := absurd h commentPass_stop
  go f c rest f' h := by rw [tagStep, commentPass_go h]
  hit f c rest h hne hbegins := by
    obtain ⟨rfl, htag⟩ := List.cons_prefix_cons.mp hbegins
    rw [tagStep, commentPass_look h]
    dsimp only
    rw [if_pos rfl, if_pos htag, List.length_cons, List.drop_succ_cons]
    split
    · rename_i hshort
      rw [List.drop_eq_nil_of_le hshort]
      rfl
    · rfl
  miss f c rest h hnot := by
    rw [tagStep, commentPass_look h]
    dsimp only
    split
    · rename_i hcolon
      subst hcolon
      split
      · rename_i hshort
        exact Or.inr ⟨rfl, Nat.lt_succ_of_le hshort⟩
      · refine Or.inl (if_neg fun hbegins => hnot ⟨List.cons_ne_nil _ _, ?_⟩)
        exact List.cons_prefix_cons.mpr ⟨rfl, hbegins⟩
    · exact Or.inl rfl

/-- **The loop to the tag is a search**, for the colon and the tag. -/
theorem seekTag_eq_search : seekTag tag f l =
    (search commentPass (wchar ':' :: tag) f l).bind fun x => (openBrace x.2).map (x.1, ·) :=
  searches_tag.scan_eq

theorem searches_top {skip : Nat} :
    Searches (topStep key skip) topPass key fun _ behind => some (behind.drop skip) where
  stop f c rest h := by
    unfold topPass at h
    cases hcomment : comment f.flags c rest.head? <;> grind
  go f c rest f' h := by
    unfold topPass at h
    unfold topStep
    cases hcomment : comment f.flags c rest.head? <;> grind
  hit f c rest h hne hbegins := by
    obtain ⟨hskipped, htag, hbrace, hcomment⟩ := topPass_look h
    rw [topStep, if_neg hskipped, if_neg htag, if_neg hbrace, hcomment]
    exact compareKey_hit hne hbegins
  miss f c rest h hnot := by
    obtain ⟨hskipped, htag, hbrace, hcomment⟩ := topPass_look h
    rw [topStep, if_neg hskipped, if_neg htag, if_neg hbrace, hcomment]
    exact compareKey_miss hnot

/-- **The loop to the key outside the braces is a search.** -/
theorem seekTop_eq_search {skip : Nat} :
    seekTop key skip l = (search topPass key .none l).map fun x => x.2.drop skip := by
  rw [seekTop, searches_top.scan_eq]
  cases search topPass key .none l <;> rfl

/-! ## The text behind the key -/

/-- For the overloads with a tag. -/
def keyBehind (tag key buffer : Text) : Option Text :=
  (search commentPass (wchar ':' :: tag) .none buffer).bind fun x =>
    (openBrace x.2).bind fun block => (search keyPass key x.1 block).map Prod.snd

/-- For the overloads without. -/
def topBehind (key buffer : Text) : Option Text := (search topPass key .none buffer).map Prod.snd

/-- **The overloads with a tag go on one character behind the key.** -/
theorem seek_eq_behind : seek tag key buffer = (keyBehind tag key buffer).map (List.drop 1) := by
  have hseek : seek tag key buffer = (seekTag tag .none buffer).bind fun x => seekKey key x.1 x.2 :=
    rfl
  rw [hseek, seekTag_eq_search, keyBehind]
  cases search commentPass (wchar ':' :: tag) .none buffer with
  | none => rfl
  | some x =>
    dsimp only [Option.bind_some]
    cases openBrace x.2 with
    | none => rfl
    | some block =>
      refine (seekKey_eq_search).trans ?_
      exact (Option.map_map _ _ _).symm

/-- **The others go on there or right behind it.** -/
theorem seekTop_eq_behind {skip : Nat} :
    seekTop key skip buffer = (topBehind key buffer).map (List.drop skip) := by
  rw [seekTop_eq_search, topBehind, Option.map_map]
  rfl

theorem openBrace_suffix (h : openBrace l = some behind) : behind <:+ l := by
  induction l with
  | nil => cases h
  | cons c l ih =>
    unfold openBrace at h
    split at h
    · cases h
      exact List.suffix_cons c _
    · exact (ih h).trans (List.suffix_cons c l)

/-- The key stands in front of it. -/
theorem topBehind_split (h : topBehind key buffer = some behind) :
    ∃ front, buffer = front ++ key ++ behind := by
  obtain ⟨x, hx, rfl⟩ := Option.map_eq_some_iff.mp h
  exact (search_split hx).2

/-- The same in a block. -/
theorem keyBehind_split (h : keyBehind tag key buffer = some behind) :
    ∃ front, buffer = front ++ key ++ behind := by
  obtain ⟨x, hx, h⟩ := Option.bind_eq_some_iff.mp h
  obtain ⟨block, hblock, h⟩ := Option.bind_eq_some_iff.mp h
  obtain ⟨y, hy, rfl⟩ := Option.map_eq_some_iff.mp h
  obtain ⟨-, front, rfl⟩ := search_split hx
  obtain ⟨brace, hbrace⟩ := openBrace_suffix hblock
  obtain ⟨-, inside, rfl⟩ := search_split hy
  refine ⟨front ++ (wchar ':' :: tag) ++ (brace ++ inside), ?_⟩
  rw [← hbrace]
  simp only [List.append_assoc]

end Parser

end IocpServer
