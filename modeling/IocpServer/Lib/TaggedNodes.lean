import IocpServer.Lib.Places

/-!
# Tagged pointers to recycled nodes

Nodes of a lock-free list that go back to a pool and are used again.  A pointer carries a tag: the
serial number drawn for the node it names, modulo `m`.  `owner` says who may write a node, and
whether its next tag has been drawn; `born` is the last serial drawn for it.

A reader keeps a pointer it has read together with the serial behind its tag.  What it learns about
the node holds while the node is linked with that serial, and a pointer with the same tag is the
same serial as long as fewer than `m` serials have been drawn since.

* `Chain m n ptr l` — following the pointers from `ptr` visits exactly the linked nodes `l`.
* `Seen`, `Current` — what a reader holds, and when it is up to date.
* `Harmless` — a change of the nodes under which readers do not go wrong; `Harmless.seen`,
  `Harmless.current`.
* `Local` — such a change of a single node.
* `Fresh` — the serial behind the tag cannot have come round for the node.
* `Chain.current` — **equal pointers name the same use of the node**, if the one read is fresh.
-/

set_option autoImplicit false

namespace Lib

namespace Tagged

structure Ptr where
  index : Nat
  address : Nat
  deriving DecidableEq, Repr

structure Node (T : Type*) where
  next : Ptr
  data : T

/-- Who has a node: the pool, a thread that took it from there or out of the list, or the list. -/
inductive Owner (ι : Type*) where
  | pool
  | allocated (i : ι)
  /-- Thread `i` has drawn a tag for it. -/
  | drawn (i : ι)
  | linked
  | removed (i : ι)

structure Nodes (ι T : Type*) where
  mem : Nat → Node T
  owner : Nat → Owner ι
  born : Nat → Nat
  /-- How many serials have been drawn. -/
  drawn : Nat

variable {ι T : Type*}

namespace Nodes

/-- Thread `i` takes a node from the pool and writes it. -/
def alloc (n : Nodes ι T) (i : ι) (a : Nat) (node : Node T) : Nodes ι T :=
  { n with mem := Function.update n.mem a node, owner := Function.update n.owner a (.allocated i) }

/-- Thread `i` draws the next serial for its node. -/
def draw (n : Nodes ι T) (i : ι) (a : Nat) : Nodes ι T where
  mem := n.mem
  owner := Function.update n.owner a (.drawn i)
  born := Function.update n.born a (n.drawn + 1)
  drawn := n.drawn + 1

def write (n : Nodes ι T) (a : Nat) (node : Node T) : Nodes ι T :=
  { n with mem := Function.update n.mem a node }

/-- The node changes hands. -/
def pass (n : Nodes ι T) (a : Nat) (o : Owner ι) : Nodes ι T :=
  { n with owner := Function.update n.owner a o }

end Nodes

variable {m : Nat} {n n' : Nodes ι T} {ptr : Ptr} {l : List Nat} {a b d : Nat} {i : ι}
  {node : Node T} {o : Owner ι}

/-! ## Chains -/

/-- Following the pointers from `ptr` visits `l`; the tags are those of the last serials. -/
def Linked (m : Nat) (n : Nodes ι T) : Ptr → List Nat → Prop
  | ptr, [] => ptr = ⟨0, 0⟩
  | ptr, a :: l => a ≠ 0 ∧ ptr = ⟨n.born a % m, a⟩ ∧ Linked m n (n.mem a).next l

/-- The list that begins at `ptr` consists of the nodes `l`. -/
structure Chain (m : Nat) (n : Nodes ι T) (ptr : Ptr) (l : List Nat) : Prop where
  linked : Linked m n ptr l
  tracks : Tracks n.owner .linked l

theorem Linked.frame (h : Linked m n ptr l)
    (same : ∀ a ∈ l, n'.mem a = n.mem a ∧ n'.born a = n.born a) : Linked m n' ptr l := by
  induction l generalizing ptr with
  | nil => exact h
  | cons a l ih =>
    obtain ⟨h0, hptr, tail⟩ := h
    obtain ⟨mem, born⟩ := same a List.mem_cons_self
    refine ⟨h0, by rw [born]; exact hptr, ?_⟩
    rw [mem]
    exact ih tail fun b hb => same b (List.mem_cons_of_mem _ hb)

theorem Linked.nil_of_null (h : Linked m n ptr l) (h0 : ptr.address = 0) : l = [] := by
  cases l with
  | nil => rfl
  | cons a l =>
    rw [h.2.1] at h0
    exact absurd h0 h.1

theorem Linked.address_mem (h : Linked m n ptr l) (h0 : ptr.address ≠ 0) : ptr.address ∈ l := by
  cases l with
  | nil =>
    rw [h] at h0
    exact absurd rfl h0
  | cons a l =>
    rw [h.2.1]
    exact List.mem_cons_self

theorem Linked.next_last (h : Linked m n ptr (l ++ [a])) : (n.mem a).next = ⟨0, 0⟩ := by
  induction l generalizing ptr with
  | nil => exact h.2.2
  | cons c l ih => exact ih h.2.2

/-- What a node of the list points to is in the list. -/
theorem Linked.next_mem (h : Linked m n ptr l) (ha : a ∈ l) (h0 : (n.mem a).next.address ≠ 0) :
    (n.mem a).next.address ∈ l := by
  induction l generalizing ptr with
  | nil => cases ha
  | cons b l ih =>
    rcases List.mem_cons.mp ha with rfl | ha
    · exact List.mem_cons_of_mem _ (h.2.2.address_mem h0)
    · exact List.mem_cons_of_mem _ (ih h.2.2 ha)

/-- A node is linked in front. -/
theorem Chain.push (h : Chain m n ptr l) (h0 : a ≠ 0) (ha : n.owner a ≠ .linked)
    (next : (n.mem a).next = ptr) : Chain m (n.pass a .linked) ⟨n.born a % m, a⟩ (a :: l) where
  linked := ⟨h0, rfl, by
    show Linked m (n.pass a .linked) (n.mem a).next l
    rw [next]
    exact h.linked.frame fun _ _ => ⟨rfl, rfl⟩⟩
  tracks := h.tracks.add ha

/-- The first node is unlinked. -/
theorem Chain.pop (h : Chain m n ptr (a :: l)) (ho : o ≠ .linked) :
    Chain m (n.pass a o) (n.mem a).next l where
  linked := h.linked.2.2.frame fun _ _ => ⟨rfl, rfl⟩
  tracks := h.tracks.remove ho

/-- A node is linked behind the last one. -/
theorem Linked.append (h : Linked m n ptr (l ++ [b])) (nodup : (l ++ [b]).Nodup)
    (hnew : a ≠ 0) (fresh : a ∉ l ++ [b]) (null : (n.mem a).next = ⟨0, 0⟩) (data : T) :
    Linked m (n.write b ⟨⟨n.born a % m, a⟩, data⟩) ptr (l ++ [b, a]) := by
  induction l generalizing ptr with
  | nil =>
    have hne : a ≠ b := fun he => fresh (he ▸ List.mem_singleton_self _)
    refine ⟨h.1, h.2.1, hnew, ?_, ?_⟩
    · simp [Nodes.write]
    · simp [Linked, Nodes.write, hne, null]
  | cons c l ih =>
    obtain ⟨h0, hptr, tail⟩ := h
    have hc : c ≠ b := by
      rintro rfl
      exact (List.nodup_cons.mp nodup).1 (List.mem_append_right _ (List.mem_singleton_self _))
    refine ⟨h0, hptr, ?_⟩
    have same : ((n.write b ⟨⟨n.born a % m, a⟩, data⟩).mem c).next = (n.mem c).next := by
      simp [Nodes.write, hc]
    rw [same]
    exact ih tail (List.nodup_cons.mp nodup).2 fun ha => fresh (List.mem_cons_of_mem _ ha)

theorem Chain.append (h : Chain m n ptr (l ++ [b])) (hnew : a ≠ 0) (ha : n.owner a ≠ .linked)
    (null : (n.mem a).next = ⟨0, 0⟩) (data : T) :
    Chain m ((n.write b ⟨⟨n.born a % m, a⟩, data⟩).pass a .linked) ptr (l ++ [b, a]) where
  linked := (h.linked.append h.tracks.nodup hnew (h.tracks.not_mem ha) null data).frame
    fun _ _ => ⟨rfl, rfl⟩
  tracks := by
    have perm : (a :: (l ++ [b])).Perm (l ++ [b, a]) := by
      simpa using @List.perm_append_comm _ [a] (l ++ [b])
    exact (h.tracks.add ha).perm perm

/-! ## Readers -/

/-- No serial has been used that was not drawn. -/
def Counted (n : Nodes ι T) : Prop := ∀ a, n.born a ≤ n.drawn

/-- A reader has read the pointer `ptr`, whose tag was serial `d`; whoever draws a tag for the node
afterwards draws another serial. -/
structure Seen (m : Nat) (n : Nodes ι T) (ptr : Ptr) (d : Nat) : Prop where
  address : ptr.address ≠ 0
  index : ptr.index = d % m
  born : d ≤ n.born ptr.address
  stale : ∀ i, n.owner ptr.address = .drawn i → n.born ptr.address ≠ d

/-- The node is linked, with the serial behind the pointer's tag. -/
def Current (n : Nodes ι T) (ptr : Ptr) (d : Nat) : Prop :=
  n.owner ptr.address = .linked ∧ n.born ptr.address = d

/-- Fewer than `m` serials have been drawn since the one behind the tag, or none for this node. -/
def Fresh (m : Nat) (n : Nodes ι T) (ptr : Ptr) (d : Nat) : Prop :=
  n.drawn < d + m ∨ n.born ptr.address = d

/-- A change under which no reader goes wrong: a node is linked only with the serial that was drawn
for it, and a serial that is drawn is a new one. -/
structure Harmless (n n' : Nodes ι T) : Prop where
  born : ∀ a, n.born a ≤ n'.born a
  linked : ∀ a, n'.owner a = .linked →
    (n.owner a = .linked ∨ ∃ i, n.owner a = .drawn i) ∧ n'.born a = n.born a
  drawn : ∀ a i, n'.owner a = .drawn i →
    (∃ j, n.owner a = .drawn j) ∧ n'.born a = n.born a ∨ n.drawn < n'.born a

theorem Chain.seen (h : Chain m n ptr l) (h0 : ptr.address ≠ 0) :
    Seen m n ptr (n.born ptr.address) ∧ Current n ptr (n.born ptr.address) := by
  have linked : n.owner ptr.address = .linked := (h.tracks.mem _).mp (h.linked.address_mem h0)
  refine ⟨⟨h0, ?_, Nat.le_refl _, fun i hi => ?_⟩, linked, rfl⟩
  · cases l with
    | nil => rw [h.linked] at h0; exact absurd rfl h0
    | cons a l => rw [h.linked.2.1]
  · rw [linked] at hi
    cases hi

theorem Seen.harmless (h : Seen m n ptr d) (counted : Counted n) (H : Harmless n n') :
    Seen m n' ptr d := by
  refine ⟨h.address, h.index, Nat.le_trans h.born (H.born _), fun i hi => ?_⟩
  rcases H.drawn _ i hi with ⟨⟨j, hj⟩, same⟩ | new
  · rw [same]
    exact h.stale j hj
  · have := h.born
    have := counted ptr.address
    omega

theorem Current.harmless (h : Seen m n ptr d) (H : Harmless n n') (hc : Current n' ptr d) :
    Current n ptr d := by
  obtain ⟨before, same⟩ := H.linked _ hc.1
  have serial : n.born ptr.address = d := same.symm.trans hc.2
  rcases before with linked | ⟨i, hi⟩
  · exact ⟨linked, serial⟩
  · exact absurd serial (h.stale i hi)

/-- **Equal pointers name the same use of the node**, while the one that was read is fresh. -/
theorem Chain.current (h : Chain m n ptr l) (counted : Counted n) (seen : Seen m n ptr d)
    (fresh : Fresh m n ptr d) : Current n ptr d := by
  obtain ⟨⟨-, index, -, -⟩, linked, -⟩ := h.seen seen.address
  refine ⟨linked, ?_⟩
  rcases fresh with few | same
  swap
  · exact same
  have born := counted ptr.address
  have divides : m ∣ n.born ptr.address - d :=
    Nat.dvd_of_mod_eq_zero (Nat.sub_mod_eq_zero_of_mod_eq (index.symm.trans seen.index))
  have later := seen.born
  have same := Nat.eq_zero_of_dvd_of_lt divides (by omega)
  omega

theorem Counted.draw (h : Counted n) (i : ι) (a : Nat) : Counted (n.draw i a) := by
  intro b
  by_cases hb : b = a
  · subst hb
    simp [Nodes.draw]
  · have := h b
    simp only [Nodes.draw, Function.update_of_ne hb]
    omega

theorem Harmless.alloc (n : Nodes ι T) (i : ι) (a : Nat) (node : Node T) :
    Harmless n (n.alloc i a node) := by
  refine ⟨fun _ => Nat.le_refl _, fun b hb => ?_, fun b j hb => ?_⟩
  · by_cases hba : b = a
    · simp [hba, Nodes.alloc] at hb
    · exact ⟨Or.inl (by simpa [Nodes.alloc, hba] using hb), rfl⟩
  · by_cases hba : b = a
    · simp [hba, Nodes.alloc] at hb
    · exact Or.inl ⟨⟨j, by simpa [Nodes.alloc, hba] using hb⟩, rfl⟩

theorem Harmless.draw (counted : Counted n) (i : ι) (a : Nat) : Harmless n (n.draw i a) := by
  refine ⟨fun b => ?_, fun b hb => ?_, fun b j hb => ?_⟩
  · by_cases hba : b = a
    · subst hba
      have := counted b
      simp only [Nodes.draw, Function.update_self]
      omega
    · simp [Nodes.draw, hba]
  · by_cases hba : b = a
    · simp [hba, Nodes.draw] at hb
    · exact ⟨Or.inl (by simpa [Nodes.draw, hba] using hb), by simp [Nodes.draw, hba]⟩
  · by_cases hba : b = a
    · exact Or.inr (by simp [hba, Nodes.draw])
    · exact Or.inl ⟨⟨j, by simpa [Nodes.draw, hba] using hb⟩, by simp [Nodes.draw, hba]⟩

theorem Harmless.write (n : Nodes ι T) (a : Nat) (node : Node T) : Harmless n (n.write a node) :=
  ⟨fun _ => Nat.le_refl _, fun _ hb => ⟨Or.inl hb, rfl⟩, fun _ j hb => Or.inl ⟨⟨j, hb⟩, rfl⟩⟩

/-- A drawn node is linked, or a node goes to another owner but the list. -/
theorem Harmless.pass (n : Nodes ι T) (a : Nat)
    (ho : o = .linked ∧ (∃ i, n.owner a = .drawn i) ∨ o = .pool ∨ ∃ i, o = .removed i) :
    Harmless n (n.pass a o) := by
  refine ⟨fun _ => Nat.le_refl _, fun b hb => ?_, fun b j hb => ?_⟩
  · by_cases hba : b = a
    · subst hba
      simp only [Nodes.pass, Function.update_self] at hb
      subst hb
      rcases ho with ⟨-, drawn⟩ | h | ⟨i, h⟩
      · exact ⟨Or.inr drawn, rfl⟩
      · cases h
      · cases h
    · exact ⟨Or.inl (by simpa [Nodes.pass, hba] using hb), rfl⟩
  · by_cases hba : b = a
    · subst hba
      simp only [Nodes.pass, Function.update_self] at hb
      subst hb
      rcases ho with ⟨h, -⟩ | h | ⟨i, h⟩ <;> cases h
    · exact Or.inl ⟨⟨j, by simpa [Nodes.pass, hba] using hb⟩, rfl⟩

/-- A drawn node is linked behind another. -/
theorem Harmless.append (hb : ∃ i, n.owner b = .drawn i) (node : Node T) :
    Harmless n ((n.write a node).pass b .linked) :=
  have H := Harmless.pass (n.write a node) b (Or.inl ⟨rfl, hb⟩)
  ⟨H.born, H.linked, H.drawn⟩

/-! ## One node at a time -/

/-- The node is in the hands of thread `i`. -/
def Owner.By (i : ι) : Owner ι → Prop
  | allocated j | drawn j | removed j => j = i
  | pool | linked => False

/-- A node is in the hands of one thread. -/
theorem Owner.By.other (h : o.By i) : ∀ j, j ≠ i → ¬ o.By j := by
  intro j hj h'
  cases o <;> simp_all [Owner.By]

/-- Only the node `a` changes, its contents not while it is linked, and readers do not go wrong. -/
structure Local (n n' : Nodes ι T) (a : Nat) : Prop where
  same : ∀ b, b ≠ a → n'.mem b = n.mem b ∧ n'.owner b = n.owner b ∧ n'.born b = n.born b
  mem : n.owner a = .linked → n'.mem a = n.mem a
  harmless : Harmless n n'

theorem Local.linked_mem (L : Local n n' a) (hb : n.owner b = .linked) : n'.mem b = n.mem b := by
  by_cases hba : b = a
  · subst hba
    exact L.mem hb
  · exact (L.same b hba).1

/-- What thread `i` holds is as it was when the changed node is not in its hands. -/
theorem Local.held (L : Local n n' a) (ha : ¬ (n.owner a).By i) (hb : (n.owner b).By i) :
    n'.mem b = n.mem b ∧ n'.owner b = n.owner b ∧ n'.born b = n.born b := by
  apply L.same
  rintro rfl
  exact ha hb

/-- The list is as it was when the changed node is not in it. -/
theorem Chain.frame (h : Chain m n ptr l) (L : Local n n' a) (ha : n.owner a ≠ .linked)
    (ha' : n'.owner a ≠ .linked) : Chain m n' ptr l where
  linked := h.linked.frame fun b hb =>
    have hne : b ≠ a := fun he => h.tracks.not_mem ha (he ▸ hb)
    ⟨(L.same b hne).1, (L.same b hne).2.2⟩
  tracks := by
    refine ⟨h.tracks.nodup, fun b => ?_⟩
    by_cases hb : b = a
    · subst hb
      exact iff_of_false (h.tracks.not_mem ha) ha'
    · rw [(L.same b hb).2.1]
      exact h.tracks.mem b

/-- A node in the hands of thread `i`, with the tag drawn for it. -/
structure Held (m : Nat) (n : Nodes ι T) (i : ι) (ptr : Ptr) : Prop where
  address : ptr.address ≠ 0
  owner : n.owner ptr.address = .drawn i
  index : ptr.index = n.born ptr.address % m

theorem Held.frame (h : Held m n i ptr) (L : Local n n' a) (ha : ¬ (n.owner a).By i) :
    Held m n' i ptr ∧ n'.mem ptr.address = n.mem ptr.address := by
  obtain ⟨mem, owner, born⟩ := L.held ha (b := ptr.address) (by rw [h.owner]; rfl)
  exact ⟨⟨h.address, owner.trans h.owner, by rw [born]; exact h.index⟩, mem⟩

theorem Local.alloc (ha : n.owner a ≠ .linked) (i : ι) (node : Node T) :
    Local n (n.alloc i a node) a :=
  ⟨fun b hb => by simp [Nodes.alloc, hb], fun h => absurd h ha, Harmless.alloc n i a node⟩

theorem Local.draw (counted : Counted n) (i : ι) (a : Nat) : Local n (n.draw i a) a :=
  ⟨fun b hb => by simp [Nodes.draw, hb], fun _ => rfl, Harmless.draw counted i a⟩

theorem Local.write (ha : n.owner a ≠ .linked) (node : Node T) : Local n (n.write a node) a :=
  ⟨fun b hb => by simp [Nodes.write, hb], fun h => absurd h ha, Harmless.write n a node⟩

theorem Local.pass (n : Nodes ι T) (a : Nat)
    (ho : o = .linked ∧ (∃ i, n.owner a = .drawn i) ∨ o = .pool ∨ ∃ i, o = .removed i) :
    Local n (n.pass a o) a :=
  ⟨fun b hb => by simp [Nodes.pass, hb], fun _ => rfl, Harmless.pass n a ho⟩

end Tagged

end Lib
