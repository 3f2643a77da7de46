import IocpServer.GameLogic.HandlerStores

/-!
# Who releases an incoming packet

`ProcessPackets` with the packets it owns: a queue entry is a pointer to a `CPacket` that
`OnMessage` has built with one reference.  Each handler reads its packet and comes to its
`DESTROY_IF_ZERO` before it does anything else.

* `Owned` — the packets of the queue: allocated, different, each with one reference.
* `Current` — the id is the one of the player in its slot of `playerList`.
* `outcome_processEntry` — **the packet of a current player is released, any other stays.**
* `processPackets_ownership` — **no packet is released twice or read when released, and each is
  released exactly when every entry is of a current player.**
-/

set_option autoImplicit false

namespace IocpServer

open Lib

namespace GameLogic

/-- `IncomingPacketInfo`, with the address of the packet. -/
structure QueuedPacket where
  playerId : PlayerId
  packetBuffer : Nat
  packetType : UInt8

structure PacketState where
  world : World
  /-- The packets that are not deleted. -/
  packets : Nat → Option CPacket
  /-- History: the `delete`s. -/
  released : List Nat

inductive PacketFault where
  /-- A deleted packet is read or written. -/
  | deletedPacket
  | world (e : Fault)

/-- A queue entry, with what the stack and the clock hold when it is processed. -/
structure PacketCall where
  packet : QueuedPacket
  locals : Locals
  now : Int32

namespace PacketState

variable (s : PacketState)

def deref (a : Nat) : Except PacketFault CPacket :=
  match s.packets a with
  | none => .error .deletedPacket
  | some packet => .ok packet

def write (a : Nat) (packet : CPacket) : PacketState :=
  { s with packets := Function.update s.packets a (some packet) }

def delete (a : Nat) : PacketState :=
  { s with packets := Function.update s.packets a none, released := s.released ++ [a] }

/-- `DESTROY_IF_ZERO`. -/
def destroyIfZero (a : Nat) : Except PacketFault PacketState := do
  let packet ← s.deref a
  let referenceCount := packet.referenceCount - 1
  if referenceCount = 0 then return s.delete a
  else return s.write a { packet with referenceCount := referenceCount }

/-- A handler: the packet is read and released, the rest is `handler`. -/
def handle (a : Nat) (read : CPacket → CPacket)
    (handler : World → CPacket → Except Fault World) : Except PacketFault PacketState := do
  let packet ← s.deref a
  let s ← (s.write a (read packet)).destroyIfZero a
  let w ← (handler s.world packet).mapError .world
  return { s with world := w }

end PacketState

/-- The packet behind `*packetBuffer >> direction >> x >> y`. -/
def behindMove (packetBuffer : CPacket) : CPacket :=
  (((packetBuffer.extractUInt8 0).2.extractUInt16 0).2.extractUInt16 0).2

/-- The packet behind `*packetBuffer >> time`. -/
def behindEcho (packetBuffer : CPacket) : CPacket := (packetBuffer.extractUInt32 0).2

/-- The `switch` of `ProcessPackets`. -/
def dispatchOwned (g : Grid) (s : PacketState) (p : Nat) (e : QueuedPacket) (locals : Locals) :
    Except PacketFault PacketState :=
  if e.packetType = dfPacketCsMoveStart then
    s.handle e.packetBuffer behindMove fun w packet => packetProcMoveStart g w p packet locals
  else if e.packetType = dfPacketCsMoveStop then
    s.handle e.packetBuffer behindMove fun w packet => packetProcMoveStop g w p packet locals
  else if e.packetType = dfPacketCsAttack1 then
    s.handle e.packetBuffer behindMove fun w packet => packetProcAttack1 g w p packet locals
  else if e.packetType = dfPacketCsAttack2 then
    s.handle e.packetBuffer behindMove fun w packet => packetProcAttack2 g w p packet locals
  else if e.packetType = dfPacketCsAttack3 then
    s.handle e.packetBuffer behindMove fun w packet => packetProcAttack3 g w p packet locals
  else if e.packetType = dfPacketCsEcho then
    s.handle e.packetBuffer behindEcho fun w packet => packetProcEcho w p packet locals
  else s.destroyIfZero e.packetBuffer

/-- One pass of the loop. -/
def processEntry (g : Grid) (s : PacketState) (call : PacketCall) :
    Except PacketFault PacketState :=
  let e := call.packet
  match s.world.playerList e.playerId.index with
  -- `continue` without `DESTROY_IF_ZERO`, here and at a stale id
  | none => return s
  | some p => do
    let player ← (s.world.deref p).mapError .world
    if player.playerId ≠ e.playerId then return s
    else if player.playerId.characterId ≠ e.playerId.characterId then
      s.destroyIfZero e.packetBuffer
    else dispatchOwned g { s with world := received s.world p call.now } p e call.locals

/-- `ProcessPackets`: the queue is emptied. -/
def processPackets (g : Grid) (s : PacketState) (calls : List PacketCall) :
    Except PacketFault PacketState :=
  calls.foldlM (processEntry g) s

/-- Where the packets of the queue are. -/
def addresses (calls : List PacketCall) : List Nat := calls.map (·.packet.packetBuffer)

/-- What `OnMessage` has put into the queue: packets just built. -/
structure Owned (s : PacketState) (calls : List PacketCall) : Prop where
  nodup : (addresses calls).Nodup
  one : ∀ a ∈ addresses calls, ∃ packet, s.packets a = some packet ∧ packet.referenceCount = 1
  fresh : s.released = []

/-- The id of the player in a slot of `playerList`. -/
def World.idAt (w : World) (index : Nat) : Option PlayerId :=
  (w.playerList index).bind (w.read Player.playerId)

/-- The condition. -/
def Current (w : World) (id : PlayerId) : Prop := w.idAt id.index = some id

instance (w : World) (id : PlayerId) : Decidable (Current w id) :=
  inferInstanceAs (Decidable (_ = _))

/-- The packet has been deleted, and once. -/
def ReleasedOnce (s : PacketState) (a : Nat) : Prop :=
  s.released.count a = 1 ∧ s.packets a = none

variable {g : Grid} {w w' : World} {s s' : PacketState} {p a : Nat} {e : QueuedPacket}
  {call : PacketCall} {calls : List PacketCall} {packet : CPacket} {locals : Locals}

/-! ## The ids do not change -/

/-- The tables and the players name the same ids. -/
structure SameIds (w w' : World) : Prop where
  list : w'.playerList = w.playerList
  ids : w'.read Player.playerId = w.read Player.playerId

theorem SameIds.refl : SameIds w w := ⟨rfl, rfl⟩

theorem SameIds.idAt (h : SameIds w w') : w'.idAt = w.idAt := by
  funext index
  rw [World.idAt, World.idAt, h.list, h.ids]

theorem Quiet.playerId {f : Player → Player} (hf : Quiet f) (player : Player) :
    (f player).playerId = player.playerId :=
  congrArg Spot.playerId (hf player).1

theorem SameIds.modify {f : Player → Player} (hf : ∀ player, (f player).playerId = player.playerId)
    (h : SameIds w w') : SameIds w (w'.modify p f) :=
  ⟨h.list, (read_modify hf).trans h.ids⟩

theorem SameIds.stored {player : Player} {new : Pos} {w₁ : World} (h : SameIds w w')
    (hp : w'.players p = some player) (hstored : Stored w' p player new w₁) : SameIds w w₁ := by
  obtain ⟨msgs, f, hf, -, hw⟩ := hstored
  have hid : (f player).playerId = player.playerId := congrArg Spot.playerId hf
  have hread : ((w'.send msgs).modify p f).read Player.playerId = w'.read Player.playerId :=
    read_modify_at hp hid
  rcases hw with rfl | rfl
  · exact ⟨h.list, hread.trans h.ids⟩
  · exact ⟨h.list, hread.trans h.ids⟩

theorem SameIds.checkSector {prevX prevY : UInt16} (h : SameIds w w') :
    Outcome (SameIds w) (fun _ => True) (checkSector g w' p prevX prevY) := by
  refine outcome_checkSector_moved h fun prev curr msgs => ⟨h.list, ?_⟩
  show ((w'.leave p prev).enter g p curr).read Player.playerId = _
  rw [read_enter fun _ _ => rfl, read_leave fun _ _ => rfl, h.ids]

/-- No packet and no tick changes an id. -/
theorem callInvariant_sameIds : CallInvariant g (SameIds w) (fun _ => True)
    (fun _ _ => True) (fun _ _ => True) where
  fault := fun _ _ => trivial
  send := fun _ _ h => ⟨h.list, h.ids⟩
  write := fun _ _ _ hf h => h.modify hf.playerId
  cursors := fun _ _ _ h => ⟨h.list, h.ids⟩
  stay := fun _ _ _ _ _ => trivial
  tick := fun _ _ _ _ => trivial
  move := fun _ _ _ _ _ h hp _ hstored => (h.stored hp hstored).checkSector
  attack := fun _ _ _ _ _ h hp _ hstored => h.stored hp hstored

/-! ## One entry -/

@[simp] theorem write_packets_self : (s.write a packet).packets a = some packet := by
  simp [PacketState.write]

/-- A packet is deleted, and the world is `w`. -/
def PacketState.freed (s : PacketState) (a : Nat) (w : World) : PacketState :=
  { s.delete a with world := w }

/-- `DESTROY_IF_ZERO` deletes a packet with one reference. -/
theorem destroyIfZero_one (ha : s.packets a = some packet) (hone : packet.referenceCount = 1) :
    s.destroyIfZero a = .ok (s.delete a) := by
  unfold PacketState.destroyIfZero PacketState.deref
  rw [ha]
  show (if packet.referenceCount - 1 = 0 then _ else _) = _
  rw [hone]
  rfl

theorem delete_write : (s.write a packet).delete a = s.delete a := by
  simp [PacketState.delete, PacketState.write]

/-- **A handler releases its packet before anything can go wrong.** -/
theorem outcome_handle {read : CPacket → CPacket} {handler : World → CPacket → Except Fault World}
    {P : World → Prop} (ha : s.packets a = some packet) (hone : (read packet).referenceCount = 1)
    (hhandler : Outcome P (fun _ => True) (handler s.world packet)) :
    Outcome (fun s' => ∃ w', P w' ∧ s' = s.freed a w') (· ≠ .deletedPacket)
      (s.handle a read handler) := by
  unfold PacketState.handle
  have hread : s.deref a = .ok packet := by simp only [PacketState.deref, ha]
  rw [hread]
  show Outcome _ _ ((s.write a (read packet)).destroyIfZero a >>= _)
  rw [destroyIfZero_one write_packets_self hone, delete_write]
  show Outcome _ _ (((handler s.world packet).mapError _) >>= _)
  have hworld : Outcome P (· ≠ .deletedPacket)
      ((handler s.world packet).mapError PacketFault.world) :=
    (hhandler.weaken (fun _ h => h) fun _ _ => by simp).mapError
  apply hworld.bind
  intro w' hw'
  exact ⟨w', hw', rfl⟩

@[simp] theorem extract_referenceCount {width target : Nat} :
    (packet.extract width target).2.referenceCount = packet.referenceCount := by
  unfold CPacket.extract
  split <;> rfl

@[simp] theorem extractUInt8_referenceCount {v : UInt8} :
    (packet.extractUInt8 v).2.referenceCount = packet.referenceCount := extract_referenceCount

@[simp] theorem extractUInt16_referenceCount {v : UInt16} :
    (packet.extractUInt16 v).2.referenceCount = packet.referenceCount := extract_referenceCount

@[simp] theorem behindMove_referenceCount :
    (behindMove packet).referenceCount = packet.referenceCount := by
  simp [behindMove]

@[simp] theorem behindEcho_referenceCount :
    (behindEcho packet).referenceCount = packet.referenceCount := extract_referenceCount

/-- **Every branch of the `switch` releases the packet.** -/
theorem outcome_dispatchOwned {player : Player} (ha : s.packets e.packetBuffer = some packet)
    (hone : packet.referenceCount = 1) (hp : s.world.players p = some player) :
    Outcome (fun s' => ∃ w', SameIds s.world w' ∧ s' = s.freed e.packetBuffer w')
      (· ≠ .deletedPacket) (dispatchOwned g s p e locals) := by
  have hmove : (behindMove packet).referenceCount = 1 := by rw [behindMove_referenceCount, hone]
  have K := @callInvariant_sameIds g s.world
  unfold dispatchOwned
  apply Outcome.ite
  · intro _
    exact outcome_handle ha hmove (K.packetProcMoveStart .refl hp trivial)
  intro _
  apply Outcome.ite
  · intro _
    exact outcome_handle ha hmove (K.packetProcMoveStop .refl hp trivial)
  intro _
  apply Outcome.ite
  · intro _
    exact outcome_handle ha hmove (K.packetProcAttack .refl hp trivial)
  intro _
  apply Outcome.ite
  · intro _
    exact outcome_handle ha hmove (K.packetProcAttack .refl hp trivial)
  intro _
  apply Outcome.ite
  · intro _
    exact outcome_handle ha hmove (K.packetProcAttack .refl hp trivial)
  intro _
  apply Outcome.ite
  · intro _
    refine outcome_handle ha ?_ (K.packetProcEcho .refl)
    rw [behindEcho_referenceCount, hone]
  · intro _
    rw [destroyIfZero_one ha hone]
    exact ⟨s.world, .refl, rfl⟩

/-- What one pass does with the packet of an entry. -/
structure Processed (s : PacketState) (e : QueuedPacket) (s' : PacketState) : Prop where
  ids : SameIds s.world s'.world
  current : Current s.world e.playerId → s' = s.freed e.packetBuffer s'.world
  dropped : ¬Current s.world e.playerId → s' = s

theorem current_iff {player : Player} {id : PlayerId} (hlist : w.playerList id.index = some p)
    (hp : w.players p = some player) : Current w id ↔ player.playerId = id := by
  rw [Current, World.idAt, hlist, Option.bind_some, read_eq_some hp, Option.some.injEq]

/-- **The packet of a current player is released, any other stays.** -/
theorem outcome_processEntry (ha : s.packets call.packet.packetBuffer = some packet)
    (hone : packet.referenceCount = 1) :
    Outcome (Processed s call.packet) (· ≠ .deletedPacket) (processEntry g s call) := by
  unfold processEntry
  dsimp only
  split
  · rename_i hlist
    refine ⟨.refl, fun hcurrent => ?_, fun _ => rfl⟩
    rw [Current, World.idAt, hlist] at hcurrent
    cases hcurrent
  · rename_i p hlist
    cases hp : s.world.players p with
    | none =>
      rw [deref_none hp]
      show PacketFault.world _ ≠ _
      simp
    | some player =>
      rw [deref_ok hp]
      have hiff := current_iff hlist hp
      apply Outcome.ite
      · intro hid
        exact ⟨.refl, fun hcurrent => absurd (hiff.mp hcurrent) hid, fun _ => rfl⟩
      · intro hid
        rw [not_not] at hid
        have hcurrent := hiff.mpr hid
        -- the second comparison repeats part of the first
        rw [if_neg (not_not.mpr (congrArg PlayerId.characterId hid))]
        refine Outcome.weaken (outcome_dispatchOwned ha hone (received_self hp)) ?_ fun _ h => h
        rintro s' ⟨w', hw', rfl⟩
        have hreceived : SameIds s.world (received s.world p call.now) :=
          SameIds.refl.modify fun _ => rfl
        have hids : SameIds s.world w' :=
          ⟨hw'.list.trans hreceived.list, hw'.ids.trans hreceived.ids⟩
        exact ⟨hids, fun _ => rfl, fun hnot => absurd hcurrent hnot⟩

/-! ## The world of a pass -/

theorem destroyIfZero_world (h : s.destroyIfZero a = .ok s') : s'.world = s.world := by
  obtain ⟨packet, -, h⟩ := bind_eq_ok h
  dsimp only at h
  split at h
  · cases h
    rfl
  · cases h
    rfl

theorem handle_world {read : CPacket → CPacket} {handler : World → CPacket → Except Fault World}
    (ha : s.packets a = some packet) (h : s.handle a read handler = .ok s') :
    handler s.world packet = .ok s'.world := by
  obtain ⟨packet', hread, h⟩ := bind_eq_ok h
  obtain ⟨s₁, hdestroy, h⟩ := bind_eq_ok h
  obtain ⟨w', hhandler, heq⟩ := bind_eq_ok h
  simp only [PacketState.deref, ha, Except.ok.injEq] at hread
  subst hread
  have hworld := destroyIfZero_world hdestroy
  rw [hworld] at hhandler
  rw [← Except.ok.inj heq]
  exact mapError_eq_ok hhandler

theorem dispatchOwned_world (ha : s.packets e.packetBuffer = some packet)
    (h : dispatchOwned g s p e locals = .ok s') :
    dispatch g s.world p e.packetType packet locals = .ok s'.world := by
  unfold dispatchOwned at h
  unfold dispatch
  split_ifs at h ⊢
  iterate 6 exact handle_world ha h
  rw [destroyIfZero_world h]
  rfl

/-- **Away from the packets a pass is `processPacket`.** -/
theorem processEntry_world (ha : s.packets call.packet.packetBuffer = some packet)
    (h : processEntry g s call = .ok s') :
    processPacket g s.world ⟨call.packet.playerId, packet, call.packet.packetType⟩ call.locals
      call.now = .ok s'.world := by
  unfold processEntry at h
  unfold processPacket
  cases hlist : s.world.playerList call.packet.playerId.index with
  | none =>
    simp only [hlist] at h ⊢
    cases h
    rfl
  | some p =>
    simp only [hlist] at h ⊢
    obtain ⟨player, hderef, h⟩ := bind_eq_ok h
    show (s.world.deref p >>= _) = _
    rw [mapError_eq_ok hderef]
    show (if player.playerId ≠ call.packet.playerId then _ else _) = _
    split at h
    · rename_i hid
      rw [if_pos hid]
      cases h
      rfl
    · rename_i hid
      rw [if_neg hid]
      rw [not_not] at hid
      rw [if_neg (not_not.mpr (congrArg PlayerId.characterId hid))] at h
      have hworld := @dispatchOwned_world g { s with world := received s.world p call.now }
      exact hworld ha h

/-! ## The queue -/

/-- The packets of the current players, in the order of the queue. -/
def currentAddresses (w : World) (calls : List PacketCall) : List Nat :=
  addresses (calls.filter fun call => Current w call.packet.playerId)

theorem currentAddresses_cons : currentAddresses w (call :: calls) =
    if Current w call.packet.playerId then
      call.packet.packetBuffer :: currentAddresses w calls
    else currentAddresses w calls := by
  unfold currentAddresses addresses
  rw [List.filter_cons]
  split <;> simp_all

theorem currentAddresses_sublist : (currentAddresses w calls).Sublist (addresses calls) :=
  List.filter_sublist.map _

/-- **`ProcessPackets` releases the packets of the current players, in order, and no other.** -/
theorem outcome_processPackets (hnodup : (addresses calls).Nodup)
    (hone : ∀ a ∈ addresses calls, ∃ packet, s.packets a = some packet ∧
      packet.referenceCount = 1) :
    Outcome (fun s' => s'.released = s.released ++ currentAddresses s.world calls ∧
        ∀ a, s'.packets a = if a ∈ currentAddresses s.world calls then none else s.packets a)
      (· ≠ .deletedPacket) (processPackets g s calls) := by
  induction calls generalizing s with
  | nil =>
    refine ⟨(List.append_nil _).symm, fun a => ?_⟩
    rw [if_neg]
    exact List.not_mem_nil
  | cons call calls ih =>
    obtain ⟨hnew, hnodup⟩ := List.nodup_cons.mp hnodup
    obtain ⟨packet, ha, hcount⟩ := hone _ List.mem_cons_self
    unfold processPackets
    rw [List.foldlM_cons]
    apply (outcome_processEntry ha hcount).bind
    intro s₁ h
    have hidAt : ∀ id, Current s₁.world id ↔ Current s.world id := by
      intro id
      rw [Current, Current, h.ids.idAt]
    have hsame : currentAddresses s₁.world calls = currentAddresses s.world calls := by
      simp only [currentAddresses, hidAt]
    have hother : ∀ a, a ≠ call.packet.packetBuffer → s₁.packets a = s.packets a := by
      intro a hne
      by_cases hcurrent : Current s.world call.packet.playerId
      · rw [h.current hcurrent]
        simp [PacketState.freed, PacketState.delete, hne]
      · rw [h.dropped hcurrent]
    have hone₁ : ∀ a ∈ addresses calls, ∃ packet, s₁.packets a = some packet ∧
        packet.referenceCount = 1 := by
      intro a hmem
      have hne : a ≠ call.packet.packetBuffer := by
        rintro rfl
        exact hnew hmem
      rw [hother a hne]
      exact hone a (List.mem_cons_of_mem _ hmem)
    refine (ih hnodup hone₁).weaken ?_ fun _ h => h
    rintro s' ⟨hreleased, hpackets⟩
    rw [hsame] at hreleased hpackets
    rw [currentAddresses_cons]
    by_cases hcurrent : Current s.world call.packet.playerId
    · rw [if_pos hcurrent]
      have hs₁ := h.current hcurrent
      refine ⟨?_, fun a => ?_⟩
      · rw [hreleased, hs₁]
        simp [PacketState.freed, PacketState.delete]
      · rw [hpackets a]
        by_cases heq : a = call.packet.packetBuffer
        · subst heq
          rw [hs₁]
          simp [PacketState.freed, PacketState.delete]
        · simp only [List.mem_cons, heq, false_or, hother a heq]
    · rw [if_neg hcurrent]
      rw [h.dropped hcurrent] at hreleased hpackets
      exact ⟨hreleased, hpackets⟩

/-- **No packet of the queue is released twice or read when released, and each is released exactly
when every entry is of a current player**: the others leak. -/
theorem processPackets_ownership (h : Owned s calls) :
    Outcome (fun s' => s'.released.Nodup ∧
        ((∀ a ∈ addresses calls, ReleasedOnce s' a) ↔
          ∀ call ∈ calls, Current s.world call.packet.playerId))
      (· ≠ .deletedPacket) (processPackets g s calls) := by
  refine (outcome_processPackets h.nodup h.one).weaken ?_ fun _ h => h
  rintro s' ⟨hreleased, hpackets⟩
  rw [h.fresh, List.nil_append] at hreleased
  have hnodup : (currentAddresses s.world calls).Nodup := currentAddresses_sublist.nodup h.nodup
  have honce : ∀ a, ReleasedOnce s' a ↔ a ∈ currentAddresses s.world calls := by
    intro a
    rw [ReleasedOnce, hreleased]
    constructor
    · rintro ⟨hcount, -⟩
      exact List.count_pos_iff.mp (by omega)
    · intro hmem
      refine ⟨List.count_eq_one_of_mem hnodup hmem, ?_⟩
      rw [hpackets a, if_pos hmem]
  refine ⟨hreleased ▸ hnodup, ?_⟩
  constructor
  · intro hall call hcall
    have hmem := (honce _).mp (hall _ (List.mem_map_of_mem hcall))
    obtain ⟨other, hother, heq⟩ := List.mem_map.mp hmem
    obtain ⟨hother, hcurrent⟩ := List.mem_filter.mp hother
    rw [List.inj_on_of_nodup_map h.nodup hother hcall heq] at hcurrent
    exact of_decide_eq_true hcurrent
  · intro hcurrent a hmem
    obtain ⟨call, hcall, rfl⟩ := List.mem_map.mp hmem
    refine (honce _).mpr (List.mem_map_of_mem ?_)
    exact List.mem_filter.mpr ⟨hcall, decide_eq_true (hcurrent call hcall)⟩

/-- A packet of the player of slot 0, and one with an id the slot had before. -/
theorem processPackets_ownership_two :
    ∃ s : PacketState, ∃ calls : List PacketCall, Owned s calls ∧
      addresses calls = [7, 8] ∧ currentAddresses s.world calls = [7] ∧
      Outcome (fun s' => s'.released.Nodup ∧
          ((∀ a ∈ addresses calls, ReleasedOnce s' a) ↔
            ∀ call ∈ calls, Current s.world call.packet.playerId))
        (· ≠ .deletedPacket) (processPackets .appending s calls) := by
  have howned : Owned
      ⟨((init 2).alloc 1 (newPlayer (init 1) ⟨0, 0⟩ 0 0 0)).store 1 0,
        fun a => if a = 7 ∨ a = 8 then some (.ofBytes [5, 0, 0, 0]) else none, []⟩
      [⟨⟨⟨0, 2⟩, 7, 252⟩, ⟨0, 0, 0, 0⟩, 0⟩, ⟨⟨⟨0, 1⟩, 8, 252⟩, ⟨0, 0, 0, 0⟩, 0⟩] :=
    ⟨by decide, fun a ha => ⟨.ofBytes [5, 0, 0, 0], by simp_all [addresses], by decide⟩, rfl⟩
  exact ⟨_, _, howned, rfl, by decide, processPackets_ownership howned⟩

/-- The packet of a client that is gone stays for ever. -/
theorem stale_packet_leaks :
    ∃ s : PacketState, ∃ calls : List PacketCall, Owned s calls ∧
      ∃ s', processPackets .appending s calls = .ok s' ∧
        ∃ a ∈ addresses calls, ¬ReleasedOnce s' a :=
  ⟨⟨init 1, fun a => if a = 7 then some (.ofBytes [0, 1, 0, 1, 0]) else none, []⟩,
    [⟨⟨⟨0, 1⟩, 7, 10⟩, ⟨0, 0, 0, 0⟩, 0⟩],
    ⟨by decide, fun a ha => ⟨.ofBytes [0, 1, 0, 1, 0], by simp_all [addresses], by decide⟩, rfl⟩,
    _, rfl, 7, by decide, fun h => absurd h.1 (by decide)⟩

end GameLogic

end IocpServer
