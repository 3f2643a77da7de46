import IocpServer.GameLogic.Effects

/-!
# What a client hears first

A session is known to the logic thread through its player alone, and a character to the clients
through `SC_CREATE_MY_CHARACTER` of its own.

* `greets` — the greeting of a new character; `Announced` — what has to come before a message.
* `run_greeted` — **the first message to a session is its greeting, and no message names a character
  before that character's session was greeted**, in every run.
* `run_answered` — **the answers are the `CS_ECHO`s of current players, in their order.**
-/

set_option autoImplicit false

namespace IocpServer

open Lib

namespace GameLogic

/-- The character an `SC_CREATE_MY_CHARACTER` creates. -/
def greets : ScMessage → Option UInt32
  | .createMyCharacter id _ _ _ _ => some id
  | _ => none

/-- The message is a greeting or its session has been greeted, and the characters it names have been
created. -/
structure Announced (before : List Sending) (m : Sending) : Prop where
  session : ∃ m' ∈ before ++ [m], m'.1 = m.1 ∧ (greets m'.2).isSome
  character : ∀ id ∈ named m.2, ∃ m' ∈ before ++ [m], greets m'.2 = some id

/-- Every message comes after what has to come before it. -/
def Greeted (log : List Sending) : Prop := ∀ before m, before ++ [m] <+: log → Announced before m

variable {g : Grid} {w w₁ w' : World} {m : Sending} {log msgs : List Sending} {a : Action}

theorem Greeted.snoc (h : Greeted log) (hm : Announced log m) : Greeted (log ++ [m]) := by
  intro before m' hprefix
  rcases List.prefix_concat_iff.mp hprefix with heq | hprefix
  · obtain ⟨rfl, ⟨⟩⟩ := List.append_inj' heq rfl
    exact hm
  · exact h before m' hprefix

theorem Greeted.append (h : Greeted log)
    (hm : ∀ m ∈ msgs, (∃ m' ∈ log, m'.1 = m.1 ∧ (greets m'.2).isSome) ∧
      ∀ id ∈ named m.2, ∃ m' ∈ log, greets m'.2 = some id) : Greeted (log ++ msgs) := by
  induction msgs using List.reverseRecOn with
  | nil =>
    rw [List.append_nil]
    exact h
  | append_singleton msgs m ih =>
    rw [← List.append_assoc]
    obtain ⟨⟨m₁, hm₁, hsession⟩, hnamed⟩ := hm m (List.mem_append_right _ List.mem_cons_self)
    refine (ih fun m' hm' => hm m' (List.mem_append_left _ hm')).snoc ⟨⟨m₁, ?_, hsession⟩, ?_⟩
    · exact List.mem_append_left _ (List.mem_append_left _ hm₁)
    · intro id hid
      obtain ⟨m₂, hm₂, hgreets⟩ := hnamed id hid
      exact ⟨m₂, List.mem_append_left _ (List.mem_append_left _ hm₂), hgreets⟩

/-- The session of every player has been greeted, with its character. -/
structure AllGreeted (w : World) : Prop where
  log : Greeted w.sent
  players : ∀ q other, w.players q = some other →
    ∃ m ∈ w.sent, m.1 = other.sessionId ∧ greets m.2 = some other.playerId.characterId

/-- Messages between players that are there come late enough. -/
theorem AllGreeted.known (hw : AllGreeted w) (hm : Known w m) :
    (∃ m' ∈ w.sent, m'.1 = m.1 ∧ (greets m'.2).isSome) ∧
      ∀ id ∈ named m.2, ∃ m' ∈ w.sent, greets m'.2 = some id := by
  obtain ⟨⟨q, other, hq, hsession⟩, hnamed⟩ := hm
  constructor
  · obtain ⟨m', hm', hto, hgreets⟩ := hw.players q other hq
    exact ⟨m', hm', hto.trans hsession, hgreets ▸ rfl⟩
  · intro id hid
    obtain ⟨r, third, hr, rfl⟩ := hnamed id hid
    obtain ⟨m', hm', -, hgreets⟩ := hw.players r third hr
    exact ⟨m', hm', hgreets⟩

theorem AllGreeted.effect (hw : AllGreeted w) (h : Effect w w') : AllGreeted w' := by
  have later (q : Nat) (other : Player) {msgs : List Sending} (hq : w.players q = some other) :
      ∃ m ∈ w.sent ++ msgs, m.1 = other.sessionId ∧
        greets m.2 = some other.playerId.characterId := by
    obtain ⟨m, hm, hgreets⟩ := hw.players q other hq
    exact ⟨m, List.mem_append_left _ hm, hgreets⟩
  cases h with
  | silent h =>
    refine ⟨h.sent ▸ hw.log, fun q player' hq => ?_⟩
    obtain ⟨player, hp, same⟩ := h.players q player' hq
    obtain ⟨hsession, hcharacter⟩ := Prod.mk.inj same.names
    rw [h.sent, hsession, hcharacter]
    exact hw.players q player hp
  | tell hmsgs =>
    exact ⟨hw.log.append fun m hm => hw.known (hmsgs m hm).known,
      fun q other hq => later q other hq⟩
  | @strike q other attack msgs hq hmsgs _ =>
    refine ⟨hw.log.append fun m hm => hw.known (hmsgs m hm).1, fun r third hr => ?_⟩
    by_cases hrq : r = q
    · subst hrq
      rw [send_players, modify_players_self, hq] at hr
      cases hr
      exact later r other hq
    · rw [send_players, modify_players_ne hrq] at hr
      exact later r third hr

theorem AllGreeted.effects (hw : AllGreeted w) (h : Effects w w') : AllGreeted w' := by
  induction h with
  | refl => exact hw
  | tail _ h ih => exact ih.effect h

theorem AllGreeted.begins (hw : AllGreeted w) (h : Begins w a w₁) : AllGreeted w₁ := by
  cases h with
  | call => exact hw
  | unregistered => exact ⟨hw.log, hw.players⟩
  | @created id p _ _ _ _ _ player direction x y hp hself hnames _ _ hother _ _ hsent =>
    obtain ⟨hsession, hcharacter⟩ := Prod.mk.inj hnames
    refine ⟨?_, fun q other hq => ?_⟩
    · rw [hsent]
      refine hw.log.snoc ⟨⟨_, List.mem_append_right _ List.mem_cons_self, rfl, rfl⟩, fun c hc => ?_⟩
      rw [List.mem_singleton.mp hc]
      exact ⟨_, List.mem_append_right _ List.mem_cons_self, rfl⟩
    · rw [hsent]
      by_cases hqp : q = p
      · subst hqp
        cases hself.symm.trans hq
        refine ⟨_, List.mem_append_right _ List.mem_cons_self, hsession.symm, ?_⟩
        rw [hcharacter]
        rfl
      · rw [hother q hqp] at hq
        obtain ⟨m, hm, hgreets⟩ := hw.players q other hq
        exact ⟨m, List.mem_append_left _ hm, hgreets⟩
  | @answered ipi _ now p player hp _ =>
    have hgreeted := hw.players p player hp.2.1
    refine ⟨hw.log.append fun m hm => ?_, fun q other hq => ?_⟩
    · rw [List.mem_singleton.mp hm]
      refine ⟨?_, fun id hid => absurd hid List.not_mem_nil⟩
      obtain ⟨m', hm', hto, hgreets⟩ := hgreeted
      exact ⟨m', hm', hto, hgreets ▸ rfl⟩
    · obtain ⟨player', hq', hsession, hcharacter⟩ : ∃ player', w.players q = some player' ∧
          other.sessionId = player'.sessionId ∧ other.playerId = player'.playerId := by
        by_cases hqp : q = p
        · subst hqp
          rw [send_players, received_self hp.2.1] at hq
          cases hq
          exact ⟨player, hp.2.1, rfl, rfl⟩
        · rw [send_players, received_ne hqp] at hq
          exact ⟨other, hq, rfl, rfl⟩
      obtain ⟨m, hm, hto, hgreets⟩ := hw.players q player' hq'
      rw [hsession, hcharacter]
      exact ⟨m, List.mem_append_left _ hm, hto, hgreets⟩

/-- **Greetings.**  In every run of the logic thread and the destroy thread, and for every message the
logic thread has sent: it is the greeting of its session or comes after it, and each character it
names has been created before by a greeting. -/
theorem run_greeted {uniqueCharacterId : UInt32} {as : List Action}
    (hr : Run (fun w a w' => step g w a = .ok w') anyStep (GameLogic.init uniqueCharacterId) as w) :
    Greeted w.sent := by
  suffices hall : AllGreeted w from hall.log
  apply hr.invariant (I := AllGreeted)
  · refine ⟨fun before m hprefix => ?_, fun q other hq => by cases hq⟩
    exact absurd (List.prefix_nil.mp hprefix) (by simp)
  · intro w a w' hw _ h
    obtain ⟨w₁, hbegins, heffects⟩ := step_effects h
    exact (hw.begins hbegins).effects heffects

/-- The second of two players is greeted and then meets the first. -/
theorem run_greeted_two : ∃ w, Run (fun w a w' => step .appending w a = .ok w') anyStep
      (GameLogic.init 0)
        [.createNewPlayer ⟨0, 1⟩ 1 99 99 0 true, .createNewPlayer ⟨1, 2⟩ 2 119 99 0 true] w ∧
    w.sent.map (fun m => (m.1.index, named m.2)) = [(0, [1]), (1, [2]), (0, [2]), (1, [1])] ∧
    Greeted w.sent := by
  obtain ⟨w, hr, hsent⟩ : ∃ w, Run (fun w a w' => step .appending w a = .ok w') anyStep
      (GameLogic.init 0)
        [.createNewPlayer ⟨0, 1⟩ 1 99 99 0 true, .createNewPlayer ⟨1, 2⟩ 2 119 99 0 true] w ∧
      w.sent.map (fun m => (m.1.index, named m.2)) = [(0, [1]), (1, [2]), (0, [2]), (1, [1])] := by
    refine ⟨_, runFn_iff_run.mp rfl, ?_⟩
    rfl
  exact ⟨w, hr, hsent, run_greeted hr⟩

/-! ## Answers -/

/-- The answers among the messages. -/
def answers (log : List Sending) : List (SessionId × UInt32) := log.filterMap answer

theorem answers_append : answers (log ++ msgs) = answers log ++ answers msgs :=
  List.filterMap_append

theorem answers_quiet (h : ∀ m ∈ msgs, answer m = none) : answers msgs = [] :=
  List.filterMap_eq_nil_iff.mpr h

theorem answers_effects (h : Effects w w') : answers w'.sent = answers w.sent := by
  have quiet {w : World} {msgs : List Sending} (h : ∀ m ∈ msgs, answer m = none) :
      answers (w.sent ++ msgs) = answers w.sent := by
    rw [answers_append, answers_quiet h, List.append_nil]
  induction h with
  | refl => rfl
  | tail _ h ih =>
    refine Eq.trans ?_ ih
    cases h with
    | silent h => rw [h.sent]
    | tell hmsgs => exact quiet fun m hm => (hmsgs m hm).noAnswer
    | strike _ hmsgs _ =>
      refine quiet fun m hm => ?_
      obtain ⟨-, attackId, hdamage⟩ := hmsgs m hm
      obtain ⟨session, msg⟩ := m
      change msg = _ at hdamage
      rw [hdamage]
      rfl

theorem answers_begins (h : Begins w a w₁) : answers w₁.sent = answers w.sent ++ owed w a := by
  cases h with
  | call howed => rw [howed, List.append_nil]
  | unregistered => exact (List.append_nil _).symm
  | created _ _ _ _ _ _ _ _ hsent =>
    rw [hsent, answers_append]
    rfl
  | answered hp htype =>
    rw [owed_addressed hp, if_pos htype]
    exact answers_append

/-- **Answers.**  In every run the `SC_ECHO`s sent are exactly the answers to the `CS_ECHO`s processed
for current players, in their order, each with its time and to the session of its player. -/
theorem run_answered {uniqueCharacterId : UInt32} {as : List Action}
    {asked : List (SessionId × UInt32)}
    (hr : Run (logged (fun w a w' => step g w a = .ok w') owed) anyStep
      (GameLogic.init uniqueCharacterId, []) as (w, asked)) : answers w.sent = asked := by
  refine hr.invariant (I := fun x => answers x.1.sent = x.2) rfl ?_
  rintro ⟨w, asked⟩ a ⟨w', asked'⟩ hw _ ⟨h, hasked⟩
  obtain ⟨w₁, hbegins, heffects⟩ := step_effects h
  dsimp only at hw hasked ⊢
  rw [answers_effects heffects, answers_begins hbegins, hw, hasked]

/-- Of two `CS_ECHO`s one is of a player that is not there. -/
theorem run_answered_one : ∃ w, Run (logged (fun w a w' => step .appending w a = .ok w') owed) anyStep
      (GameLogic.init 0, []) [.createNewPlayer ⟨0, 1⟩ 1 99 99 0 true,
        .packet ⟨⟨0, 1⟩, .ofBytes [1, 2, 3, 4], 252⟩ ⟨0, 0, 0, 0⟩ 0,
        .packet ⟨⟨0, 9⟩, .ofBytes [5, 6, 7, 8], 252⟩ ⟨0, 0, 0, 0⟩ 0]
      (w, [(⟨0, 1⟩, 0x04030201)]) ∧ answers w.sent = [(⟨0, 1⟩, 0x04030201)] := by
  obtain ⟨w, hr⟩ : ∃ w, Run (logged (fun w a w' => step .appending w a = .ok w') owed) anyStep
      (GameLogic.init 0, []) [.createNewPlayer ⟨0, 1⟩ 1 99 99 0 true,
        .packet ⟨⟨0, 1⟩, .ofBytes [1, 2, 3, 4], 252⟩ ⟨0, 0, 0, 0⟩ 0,
        .packet ⟨⟨0, 9⟩, .ofBytes [5, 6, 7, 8], 252⟩ ⟨0, 0, 0, 0⟩ 0]
      (w, [(⟨0, 1⟩, 0x04030201)]) :=
    ⟨_, .consLogged rfl trivial <| .consLogged rfl trivial <| .consLogged rfl trivial .nil⟩
  exact ⟨w, hr, run_answered hr⟩

end GameLogic

end IocpServer
