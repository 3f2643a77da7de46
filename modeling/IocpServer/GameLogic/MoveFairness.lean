import IocpServer.GameLogic.Cursors
import IocpServer.Lib.RoundRobin

/-!
# Whose turn it is to move

A call of `UpdateGameWorld` scans `movingPlayerList` once round from `moveCursor` and advances the
first 3000 entries that are alive and moving.  It then moves the cursor by the number of entries it
has advanced, not by the distance it has scanned, so that entries it has skipped make the next call
begin in front of the place where this one stopped.

* `advanced` — the positions a call advances; `updateGameWorld_advanced` — it advances these.
* `Calls` — a call that leaves the list and the flags of its entries as they are.
* `NoSkip` — the condition: all moving entries fit into a call, or the first 3000 entries from the
  cursor on all move.
* `run_fair` — **if every call but the last meets it, any two moving entries have been advanced
  equally often, up to one.**
-/

set_option autoImplicit false

namespace IocpServer

open Lib

namespace GameLogic

/-- The entry at position `i` of `movingPlayerList` is alive and moving. -/
def moves (w : World) (i : Nat) : Bool :=
  match w.players (w.movingPlayerList.getD i 0) with
  | none => false
  | some player => !(player.isDead || !player.isMoving)

/-- The positions a call of `UpdateGameWorld` advances, in this order. -/
def advanced (w : World) : List Nat :=
  served (moves w) w.movingPlayerList.length chunkSize w.moveCursor

/-- Advance the entry at position `i`. -/
def moveAt (g : Grid) (w : World) (i : Nat) : Except Fault World :=
  movePlayer g w (w.movingPlayerList.getD i 0)

/-- A call of `UpdateGameWorld` that changes neither `movingPlayerList` nor which of its entries
are alive and moving. -/
structure Calls (g : Grid) (w : World) (timer : Int32) (w' : World) : Prop where
  call : updateGameWorld g w timer = .ok w'
  list : w'.movingPlayerList = w.movingPlayerList
  flags : ∀ i < w.movingPlayerList.length, moves w' i = moves w i

/-- The condition on a call that is not the last: nobody is skipped. -/
def NoSkip (w : World) : Prop :=
  (List.range w.movingPlayerList.length).countP (moves w) ≤ chunkSize ∨
    ∀ i < chunkSize, moves w ((w.moveCursor + i) % w.movingPlayerList.length) = true

/-- What decides whether an entry moves. -/
def Player.flags (player : Player) : Bool := !(player.isDead || !player.isMoving)

variable {g : Grid} {w w₁ w' : World} {p : Nat} {player : Player} {timer : Int32}

theorem moves_eq (w : World) (i : Nat) :
    moves w i = ((w.read Player.flags (w.movingPlayerList.getD i 0)).getD false) := by
  unfold moves World.read
  cases w.players (w.movingPlayerList.getD i 0) with
  | none => rfl
  | some player => rfl

/-! ## The second loop -/

/-- Lists, cursors and flags are as they were. -/
structure Parked (w w' : World) : Prop where
  lists : SameLists w w'
  flags : w'.read Player.flags = w.read Player.flags

theorem Parked.refl : Parked w w := ⟨SameLists.refl, rfl⟩

theorem Parked.trans (h : Parked w w₁) (h' : Parked w₁ w') : Parked w w' :=
  ⟨h.lists.trans h'.lists, h'.flags.trans h.flags⟩

theorem Parked.moves_eq (h : Parked w w') : moves w' = moves w := by
  funext i
  rw [GameLogic.moves_eq, GameLogic.moves_eq, h.lists.moving, h.flags]

theorem outcome_movePlayer_parked : Outcome (Parked w) (fun _ => True) (movePlayer g w p) := by
  unfold movePlayer
  apply outcome_any.bind
  intro player _
  refine outcome_checkSector_moved ⟨⟨rfl, rfl, rfl, rfl⟩, read_modify fun _ => rfl⟩
    fun prev curr msgs => ⟨⟨rfl, rfl, rfl, rfl⟩, ?_⟩
  show ((World.leave _ p prev).enter g p curr).read Player.flags = _
  rw [read_enter fun _ _ => rfl, read_leave fun _ _ => rfl]
  exact read_modify fun _ => rfl

theorem moveEntries_parked {totalMove : Nat} {is : List Nat} {s s' : World × Nat}
    (h : is.foldlM (moveEntry g totalMove) s = .ok s') : Parked s.1 s'.1 :=
  moveEntries_keep (fun _ _ hs => outcome_movePlayer_parked.weaken (fun _ h => hs.trans h)
    fun _ h => h) Parked.refl h

theorem moveEntry_full {totalMove k i : Nat} (hk : chunkSize ≤ k) :
    moveEntry g totalMove (w, k) i = .ok (w, k) :=
  if_pos hk

/-- One pass that looks at an entry. -/
theorem moveEntry_eq {totalMove k i : Nat} (hk : ¬chunkSize ≤ k)
    (hp : w.players (w.movingPlayerList.getD ((w.moveCursor + i) % totalMove) 0) = some player) :
    moveEntry g totalMove (w, k) i =
      if moves w ((w.moveCursor + i) % totalMove) then do
        let w ← moveAt g w ((w.moveCursor + i) % totalMove)
        return (w, k + 1)
      else .ok (w, k) := by
  have hmoves : moves w ((w.moveCursor + i) % totalMove) = player.flags := by
    rw [moves_eq, read_eq_some hp]
    rfl
  unfold moveEntry moveAt
  rw [hmoves]
  simp only [hk, if_false, deref_ok hp]
  unfold Player.flags
  show (if (player.isDead || !player.isMoving) = true then _ else _) = _
  cases (player.isDead || !player.isMoving) <;> rfl

/-- **The second loop advances the entries that move**, as long as there is room. -/
theorem moveEntries_advance {totalMove : Nat} {is : List Nat} {k k' : Nat}
    (h : is.foldlM (moveEntry g totalMove) (w, k) = .ok (w', k')) :
    let ps := ((is.map fun i => (w.moveCursor + i) % totalMove).filter (moves w)).take (chunkSize - k)
    ps.foldlM (moveAt g) w = .ok w' ∧ k' = k + ps.length := by
  induction is generalizing w k with
  | nil =>
    cases h
    simp only [List.map_nil, List.filter_nil, List.take_nil, List.length_nil]
    exact ⟨rfl, rfl⟩
  | cons i is ih =>
    rw [List.foldlM_cons] at h
    by_cases hk : chunkSize ≤ k
    · rw [moveEntry_full hk] at h
      have hrest := ih h
      rw [Nat.sub_eq_zero_of_le hk] at hrest ⊢
      exact hrest
    · cases hp : w.players (w.movingPlayerList.getD ((w.moveCursor + i) % totalMove) 0) with
      | none =>
        unfold moveEntry at h
        simp only [hk, if_false, deref_none hp] at h
        cases h
      | some player =>
        rw [moveEntry_eq hk hp] at h
        cases hm : moves w ((w.moveCursor + i) % totalMove) with
        | false =>
          rw [hm] at h
          have hrest := ih h
          simp only [List.map_cons, List.filter_cons_of_neg (Bool.not_eq_true _ ▸ hm)]
          exact hrest
        | true =>
          rw [hm] at h
          obtain ⟨s, hfirst, hrest⟩ := bind_eq_ok h
          obtain ⟨w₁, hmoved, heq⟩ := bind_eq_ok hfirst
          cases heq
          have hparked := outcome_movePlayer_parked.of_ok hmoved
          obtain ⟨hfold, hlen⟩ := ih hrest
          rw [hparked.moves_eq, hparked.lists.moveCursor] at hfold hlen
          have hroom : chunkSize - k = chunkSize - (k + 1) + 1 := by omega
          simp only [List.map_cons, List.filter_cons_of_pos hm, hroom, List.take_succ_cons,
            List.foldlM_cons, List.length_cons]
          exact ⟨by rw [hmoved]; exact hfold, by omega⟩

/-! ## A call -/

/-- **What a call advances.**  If it leaves the list and the flags alone, it checks the players in
`checkedPlayers`, then advances the positions in `advanced`, each once, and moves the cursor by
their number: the world behind it is that. -/
theorem updateGameWorld_advanced (h : Calls g w timer w') :
    ∃ w₁ w₂, (checkedPlayers w).foldlM (checkAlive timer) w = .ok w₁ ∧
      (advanced w).foldlM (moveAt g) { w₁ with aliveCheckCursor := nextAliveCheck w } = .ok w₂ ∧
      w' = { w₂ with
        moveCursor := (w.moveCursor + (advanced w).length) % w.movingPlayerList.length } := by
  obtain ⟨w₁, w₂, processed, hchecked, hlists, hmoved, heq⟩ := updateGameWorld_cases h.call
  obtain ⟨hfold, hlen⟩ := moveEntries_advance hmoved
  have hparked : moves w₂ = moves w₁ := (moveEntries_parked hmoved).moves_eq
  have hlast : moves w' = moves w₂ := by
    rw [heq]
    split <;> rfl
  have hsame : ∀ i < w.movingPlayerList.length, moves w₁ i = moves w i := fun i hi => by
    rw [← hparked, ← hlast]
    exact h.flags i hi
  have hserved : (((List.range w.movingPlayerList.length).map fun i =>
      (w₁.moveCursor + i) % w.movingPlayerList.length).filter (moves w₁)).take (chunkSize - 0) =
      advanced w := by
    rw [hlists.moveCursor, Nat.sub_zero]
    exact served_congr hsame
  have hfold' : (advanced w).foldlM (moveAt g) { w₁ with aliveCheckCursor := nextAliveCheck w } =
      .ok w₂ := by
    rw [← hserved]
    exact hfold
  have hlen' : processed = (advanced w).length := by
    rw [← hserved, hlen, Nat.zero_add]
    rfl
  refine ⟨w₁, w₂, hchecked, hfold', ?_⟩
  have hcursor : w₂.moveCursor = w.moveCursor :=
    (moveEntries_lists hmoved).moveCursor.trans hlists.moveCursor
  rw [heq, hlen']
  split
  · rw [hcursor]
  · rename_i hempty
    have hzero : w.movingPlayerList.length = 0 := Nat.eq_zero_of_not_pos hempty
    have hnobody : advanced w = [] := by
      unfold advanced
      rw [hzero]
      rfl
    rw [hnobody, hzero, List.length_nil, Nat.add_zero, Nat.mod_zero, ← hcursor]

/-! ## Runs -/

/-- The positions a call advances, as one entry of a log. -/
def advances (w : World) (_timer : Int32) : List (List Nat) := [advanced w]

/-- All moving entries fit into one call. -/
def Few (w : World) : Prop :=
  (List.range w.movingPlayerList.length).countP (moves w) ≤ chunkSize

/-- Behind calls that have skipped nobody: each has advanced every moving entry, or they have gone
round the list without a gap or an overlap. -/
structure InTurn (w : World) (x : World × List (List Nat)) : Prop where
  list : x.1.movingPlayerList = w.movingPlayerList
  flags : ∀ i < w.movingPlayerList.length, moves x.1 i = moves w i
  few : Few w → EveryTime (moves w) w.movingPlayerList.length x.2
  many : ¬Few w → Contiguous (moves w) w.movingPlayerList.length chunkSize w.moveCursor x.2
    x.1.moveCursor
  nodup : ∀ positions ∈ x.2, positions.Nodup

variable {x y : World × List (List Nat)}

theorem InTurn.advanced_eq (h : InTurn w x) : advanced x.1 =
    served (moves w) w.movingPlayerList.length chunkSize x.1.moveCursor := by
  unfold advanced
  rw [h.list]
  exact served_congr h.flags

theorem advances_nodup : ∀ positions ∈ advances w timer, positions.Nodup := by
  intro positions hmem
  rw [List.mem_singleton.mp hmem]
  exact served_nodup _ _ _ _

theorem length_of_many (h : ¬Few w) : chunkSize ≤ w.movingPlayerList.length := by
  have hle := List.countP_le_length (p := moves w) (l := List.range w.movingPlayerList.length)
  rw [List.length_range] at hle
  unfold Few at h
  omega

theorem InTurn.step (h : InTurn w x) (hskip : NoSkip x.1)
    (hstep : logged (Calls g) advances x timer y) : InTurn w y := by
  obtain ⟨hcall, hlog⟩ := hstep
  have hcursor : y.1.moveCursor =
      (x.1.moveCursor + (advanced x.1).length) % x.1.movingPlayerList.length := by
    obtain ⟨_, _, _, _, hbehind⟩ := updateGameWorld_advanced hcall
    exact congrArg World.moveCursor hbehind
  have hcount : (List.range w.movingPlayerList.length).countP (moves x.1) =
      (List.range w.movingPlayerList.length).countP (moves w) :=
    List.countP_congr fun i hi => by rw [h.flags i (List.mem_range.mp hi)]
  have hnodup : ∀ positions ∈ y.2, positions.Nodup := by
    rw [hlog]
    exact List.forall_mem_append.mpr ⟨h.nodup, advances_nodup⟩
  rw [show advances x.1 timer = [advanced x.1] from rfl, h.advanced_eq] at hlog
  refine ⟨hcall.list.trans h.list, fun i hi => ?_, fun hfew => ?_, fun hmany => ?_, hnodup⟩
  · rw [hcall.flags i (h.list.symm ▸ hi), h.flags i hi]
  · rw [hlog]
    exact (h.few hfew).snoc hfew
  · rw [hlog, hcursor, h.advanced_eq, h.list]
    refine (h.many hmany).snoc (length_of_many hmany) fun i hi => ?_
    rcases hskip with hfew | hall
    · rw [h.list, hcount] at hfew
      exact absurd hfew hmany
    · have hready := hall i hi
      rw [h.list, h.flags _ (Nat.mod_lt _ ?_)] at hready
      · exact hready
      · have := length_of_many hmany
        unfold chunkSize at this
        omega

/-- **Move fairness.**  In a run of calls of `UpdateGameWorld` that leave `movingPlayerList` and its
flags alone, none of which but the last skips anybody: the last call advances the positions in its
entry of the log, and leaves the world that is behind them; any two moving entries have been
advanced equally often, up to one, in front of it and behind it; and no call advances a position
twice. -/
theorem run_fair {timers : List Int32} {log : List (List Nat)} {w₂ : World}
    (hr : Run (logged (Calls g) advances) (fun x _ => NoSkip x.1) (w, []) timers (w₁, log))
    (hlast : Calls g w₁ timer w₂) :
    (∃ checked moved, (checkedPlayers w₁).foldlM (checkAlive timer) w₁ = .ok checked ∧
      (advanced w₁).foldlM (moveAt g) { checked with aliveCheckCursor := nextAliveCheck w₁ } =
        .ok moved ∧
      w₂ = { moved with
        moveCursor := (w₁.moveCursor + (advanced w₁).length) % w₁.movingPlayerList.length }) ∧
    Evenly (moves w) w.movingPlayerList.length log.flatten ∧
    Evenly (moves w) w.movingPlayerList.length (log ++ advances w₁ timer).flatten ∧
    ∀ positions ∈ log ++ advances w₁ timer, positions.Nodup := by
  have hturn : InTurn w (w₁, log) :=
    hr.invariant ⟨rfl, fun _ _ => rfl, fun _ => EveryTime.nil, fun _ => Contiguous.nil, by simp⟩
      fun _ _ _ h hskip hstep => h.step hskip hstep
  refine ⟨updateGameWorld_advanced hlast, ?_, ?_,
    List.forall_mem_append.mpr ⟨hturn.nodup, advances_nodup⟩⟩
  · by_cases hfew : Few w
    · exact (hturn.few hfew).even
    · exact (hturn.many hfew).even
  · rw [show advances w₁ timer = [advanced w₁] from rfl, hturn.advanced_eq]
    by_cases hfew : Few w
    · exact ((hturn.few hfew).snoc hfew).even
    · exact (hturn.many hfew).even_snoc

/-! ## A crowd at the border -/

/-- Nobody is active, and every entry of `movingPlayerList` walks against the border of the map. -/
structure AtBorder (g : Grid) (w : World) : Prop where
  active : w.activePlayerList = []
  stays : ∀ i, ∃ player index, w.players (w.movingPlayerList.getD i 0) = some player ∧
    tickPosition player = player.pos ∧
    g.getSectorIndex player.x.toNat player.y.toNat = some index ∧
    player.currentSector = some index

/-- The world behind a call there. -/
def moveOn (w : World) : World :=
  { w with moveCursor := (w.moveCursor + (advanced w).length) % w.movingPlayerList.length }

theorem AtBorder.moveOn (h : AtBorder g w) : AtBorder g (moveOn w) := ⟨h.active, h.stays⟩

theorem AtBorder.moveAt (h : AtBorder g w) (i : Nat) : moveAt g w i = .ok w := by
  obtain ⟨player, index, hp, htick, hindex, hsector⟩ := h.stays i
  have hsame : w.modify (w.movingPlayerList.getD i 0) (fun player => { player with
      x := (tickPosition player).1, y := (tickPosition player).2 }) = w := by
    have hplayer : ({ player with
        x := (tickPosition player).1, y := (tickPosition player).2 } : Player) = player := by
      rw [htick]
      rfl
    unfold World.modify
    rw [hp, Option.map_some, hplayer, ← hp, Function.update_eq_self]
  unfold GameLogic.moveAt movePlayer
  rw [deref_ok hp]
  show checkSector g (w.modify _ _) _ _ _ = _
  rw [hsame]
  unfold checkSector
  rw [deref_ok hp]
  show (g.sectorAt _ _ >>= _) = _
  rw [sectorAt_of_some hindex]
  exact if_neg (not_not.mpr hsector)

theorem AtBorder.calls (h : AtBorder g w) (hn : 0 < w.movingPlayerList.length) :
    Calls g w timer (GameLogic.moveOn w) := by
  have hloop : Outcome (fun s : World × Nat => s.1 = w) (fun _ => False)
      ((List.range w.movingPlayerList.length).foldlM (moveEntry g w.movingPlayerList.length)
        (w, 0)) := by
    refine Outcome.foldlM rfl fun s i hs _ => ?_
    obtain ⟨w₁, k⟩ := s
    obtain rfl : w₁ = w := hs
    obtain ⟨player, -, hp, -⟩ := h.stays ((w₁.moveCursor + i) % w₁.movingPlayerList.length)
    by_cases hk : chunkSize ≤ k
    · rw [moveEntry_full hk]
      rfl
    · rw [moveEntry_eq hk hp]
      apply Outcome.ite
      · intro _
        rw [h.moveAt]
        rfl
      · intro _
        rfl
  obtain ⟨⟨w₁, k⟩, hentries, hsame⟩ := hloop.exists_ok
  obtain rfl : w₁ = w := hsame
  have hlen : k = (advanced w₁).length := by
    have hadvance := (moveEntries_advance hentries).2
    rw [Nat.zero_add] at hadvance
    exact hadvance
  refine ⟨?_, rfl, fun _ _ => rfl⟩
  unfold updateGameWorld
  simp only [h.active, List.length_nil, Nat.min_zero, List.range_zero, List.foldlM_nil, pure_bind,
    Nat.lt_irrefl, if_false, hentries, hn, if_true]
  rw [hlen]
  rfl

/-- `size` players at the upper left corner who walk up, the first `idle` of them stopped. -/
def crowd (size idle cursor : Nat) : World :=
  { init 0 with
    players := fun p => some {
      sessionId := ⟨p, 1⟩, playerId := ⟨p, 1⟩, x := 0, y := 0, currentSector := some 0
      direction := dfPacketMoveDirUU, faceDirection := dfPacketMoveDirRR, hp := 100
      isSynced := false, isMoving := decide (idle ≤ p), lastRecvTime := 0
      isDestroyRequest := false, isDead := false }
    movingPlayerList := List.range size
    moveCursor := cursor }

theorem crowd_atBorder (size idle cursor : Nat) : AtBorder .appending (crowd size idle cursor) :=
  have corner : Grid.appending.getSectorIndex 0 0 = some 0 := by decide
  ⟨rfl, fun _ => ⟨_, 0, rfl, rfl, corner, rfl⟩⟩

theorem crowd_moveOn (size idle cursor : Nat) : moveOn (crowd size idle cursor) =
    crowd size idle ((cursor + (advanced (crowd size idle cursor)).length) % size) := by
  simp [moveOn, crowd]

theorem moves_crowd {size idle cursor i : Nat} (hi : i < size) :
    moves (crowd size idle cursor) i = decide (idle ≤ i) := by
  simp [moves, crowd, hi]

/-- Behind the idle ones a call advances 3000 entries. -/
theorem advanced_crowd {size idle cursor : Nat} (hcursor : cursor ≤ idle)
    (hfits : idle + 3000 ≤ size) :
    advanced (crowd size idle cursor) = turns size idle 3000 := by
  obtain ⟨gap, rfl⟩ := Nat.exists_eq_add_of_le hcursor
  have hlist : (crowd size (cursor + gap) cursor).movingPlayerList.length = size :=
    List.length_range
  unfold advanced
  rw [hlist]
  refine served_of_gap (by unfold chunkSize; omega) (fun i hi => ?_) fun i hi => ?_
  · show moves _ ((cursor + i) % size) = false
    rw [Nat.mod_eq_of_lt (by omega), moves_crowd (by omega), decide_eq_false_iff_not]
    omega
  · unfold chunkSize at hi
    show moves _ ((cursor + gap + i) % size) = true
    rw [Nat.mod_eq_of_lt (by omega), moves_crowd (by omega), decide_eq_true_iff]
    omega

/-- Two players, both of them advanced by the first call and by the second. -/
theorem run_fair_two :
    ∃ w₁ log, Run (logged (Calls .appending) advances) (fun x _ => NoSkip x.1)
        (crowd 2 0 0, []) [0] (w₁, log) ∧
      Evenly (moves (crowd 2 0 0)) 2 (log ++ advances w₁ 0).flatten := by
  have hr : Run (logged (Calls .appending) advances) (fun x _ => NoSkip x.1)
      (crowd 2 0 0, []) [0] (moveOn (crowd 2 0 0), [] ++ advances (crowd 2 0 0) 0) :=
    .snoc .nil (Or.inl (by decide)) ⟨(crowd_atBorder 2 0 0).calls (by decide), rfl⟩
  have hlast : Calls .appending (moveOn (crowd 2 0 0)) 0 (moveOn (moveOn (crowd 2 0 0))) :=
    (crowd_atBorder 2 0 0).moveOn.calls (by decide)
  exact ⟨_, _, hr, (run_fair hr hlast).2.2.1⟩

/-- Of 10000 entries the first 3000 stand.  Two calls advance the 3000 behind them twice, and the
last 4000 not at all. -/
theorem advanced_twice :
    ∃ w₂ log, Run (logged (Calls .appending) advances) anyStep (crowd 10000 3000 0, []) [0, 0]
        (w₂, log) ∧
      moves (crowd 10000 3000 0) 3000 = true ∧ moves (crowd 10000 3000 0) 9999 = true ∧
      log.flatten.count 3000 = 2 ∧ log.flatten.count 9999 = 0 ∧
      ¬Evenly (moves (crowd 10000 3000 0)) 10000 log.flatten := by
  have hlength : ∀ cursor, 0 < (crowd 10000 3000 cursor).movingPlayerList.length := fun _ => by
    simp [crowd]
  have hnext : moveOn (crowd 10000 3000 0) = crowd 10000 3000 3000 := by
    rw [crowd_moveOn, advanced_crowd (by omega) (by omega), length_turns]
  have hfirst : Calls .appending (crowd 10000 3000 0) 0 (crowd 10000 3000 3000) :=
    hnext ▸ (crowd_atBorder 10000 3000 0).calls (hlength 0)
  have hsecond : Calls .appending (crowd 10000 3000 3000) 0 _ :=
    (crowd_atBorder 10000 3000 3000).calls (hlength 3000)
  have hlog : advances (crowd 10000 3000 0) 0 ++ advances (crowd 10000 3000 3000) 0 =
      [turns 10000 3000 3000, turns 10000 3000 3000] := by
    simp only [advances, List.singleton_append]
    rw [advanced_crowd (by omega) (by omega), advanced_crowd (by omega) (by omega)]
  have honce : (turns 10000 3000 3000).count 3000 = 1 :=
    List.count_eq_one_of_mem (turns_nodup (by omega)) (mem_turns_iff.mpr ⟨0, by omega, rfl⟩)
  have hnever : (turns 10000 3000 3000).count 9999 = 0 := by
    refine List.count_eq_zero.mpr fun hmem => ?_
    obtain ⟨k, hk, heq⟩ := mem_turns_iff.mp hmem
    omega
  have htwo : [turns 10000 3000 3000, turns 10000 3000 3000].flatten.count 3000 = 2 := by
    simp [List.count_append, honce]
  have hzero : [turns 10000 3000 3000, turns 10000 3000 3000].flatten.count 9999 = 0 := by
    simp [List.count_append, hnever]
  have hmoving : ∀ i, 3000 ≤ i → i < 10000 → moves (crowd 10000 3000 0) i = true :=
    fun i hi hlt => by simp [moves_crowd hlt, hi]
  refine ⟨_, _, .consLogged hfirst trivial (.consLogged hsecond trivial .nil),
    hmoving 3000 (by omega) (by omega), hmoving 9999 (by omega) (by omega), ?_, ?_, fun heven => ?_⟩
  · rw [List.nil_append, hlog, htwo]
  · rw [List.nil_append, hlog, hzero]
  · have hle := heven 3000 (by omega) 9999 (by omega) (hmoving 3000 (by omega) (by omega))
      (hmoving 9999 (by omega) (by omega))
    rw [List.nil_append, hlog, htwo, hzero] at hle
    omega

end GameLogic

end IocpServer
