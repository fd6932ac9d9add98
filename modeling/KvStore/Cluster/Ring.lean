/-
KvStore.Cluster.Ring — `ConsistentHashRing` of
`cluster/consistent_hash.cpp`: virtual nodes on a sorted map from 32-bit
position to node id, the physical node set, and the two routing queries.

`ring_` is a `std::map<uint32_t, std::string>`: a list of entries in
strictly increasing position, the order carried as a field so that no ring
without it can be built. `ring_[hash] = node_id` overwrites the entry at
that position (`mapInsert`), `ring_.erase(hash)` drops it whoever owns it
(`mapErase`). `physical_nodes_` is a `std::set`; only membership and size
are read, so it is a `Finset`.

`GetNodes` walks from `upper_bound(hash)` for at most `ring_.size()` steps,
wrapping at the end: that is the ring rotated to start at the upper bound,
read once (`rotateAt`), and the loop `collectNodes` takes from it the
first `count` distinct ids.

## History and collisions

`AddNode` writes position `Hash(id + "#" + i)` for each `i < V`, and
`RemoveNode` erases the same positions. When two virtual-node keys of
different nodes hash to the same position, the later `AddNode` takes it
over and a `RemoveNode` of either node clears it, so the ring depends on
the order of calls (`ring_depends_on_join_order`). When they never do
(`NoCollision`), every entry is a virtual node of a present node at its own
position (`RingExact`), which fixes the ring from the node set alone
(`ring_history_independent`).
-/
import KvStore.Cluster.Murmur
import Mathlib.Data.List.Sort
import Mathlib.Data.Finset.Card

namespace KvStore.Cluster

/-! ## 1. The sorted map -/

/-- The entries of `std::map<uint32_t, std::string>`. -/
abbrev RingMap := List (UInt32 × Bytes)

/-- Positions strictly increase along the list. -/
def PosLt (a b : UInt32 × Bytes) : Prop := a.1 < b.1

instance : IsAntisymm (UInt32 × Bytes) PosLt :=
  ⟨fun _ _ h₁ h₂ => absurd (UInt32.lt_trans h₁ h₂) (UInt32.lt_irrefl _)⟩

/-- `m[p] = n`: overwrite the entry at `p`, or insert it in order. -/
def mapInsert (p : UInt32) (n : Bytes) : RingMap → RingMap
  | [] => [(p, n)]
  | (q, o) :: rest =>
    if p < q then (p, n) :: (q, o) :: rest
    else if p = q then (p, n) :: rest
    else (q, o) :: mapInsert p n rest

/-- `m.erase(p)`. -/
def mapErase (p : UInt32) (m : RingMap) : RingMap := m.filter fun e => e.1 != p

theorem uInt32_lt_iff {a b : UInt32} : a < b ↔ a.toNat < b.toNat := Iff.rfl

theorem uInt32_eq_iff {a b : UInt32} : a = b ↔ a.toNat = b.toNat :=
  ⟨congrArg _, UInt32.toNat.inj⟩

theorem mem_mapInsert {p : UInt32} {n : Bytes} {m : RingMap} (hs : m.Pairwise PosLt)
    (e : UInt32 × Bytes) : e ∈ mapInsert p n m ↔ e = (p, n) ∨ (e ∈ m ∧ e.1 ≠ p) := by
  induction m with
  | nil => simp [mapInsert]
  | cons a rest ih =>
    obtain ⟨q, o⟩ := a
    obtain ⟨hrest, hs⟩ := List.pairwise_cons.mp hs
    simp only [mapInsert]
    split_ifs with h₁ h₂
    · -- `p` goes first: every entry after it sits above `p`
      have h : e = (q, o) ∨ e ∈ rest → e.1 ≠ p := by
        rintro (rfl | hx)
        · exact (UInt32.ne_of_lt h₁).symm
        · exact (UInt32.ne_of_lt (UInt32.lt_trans h₁ (hrest e hx))).symm
      simp only [List.mem_cons, and_iff_left_of_imp h]
    · -- `p` overwrites the entry at `q`
      have h : (e = (q, o) ∨ e ∈ rest) ∧ e.1 ≠ p ↔ e ∈ rest := by
        refine ⟨fun ⟨h, hne⟩ => h.resolve_left ?_, fun hx =>
          ⟨.inr hx, h₂ ▸ (UInt32.ne_of_lt (hrest e hx)).symm⟩⟩
        rintro rfl; exact hne h₂.symm
      simp only [List.mem_cons, h]
    · have hq : e = (q, o) → e.1 ≠ p := by rintro rfl; exact fun h => h₂ h.symm
      simp only [List.mem_cons, ih hs, or_and_right, and_iff_left_of_imp hq, or_left_comm]

theorem sorted_mapInsert {p : UInt32} {n : Bytes} {m : RingMap} (hs : m.Pairwise PosLt) :
    (mapInsert p n m).Pairwise PosLt := by
  induction m with
  | nil => simp [mapInsert]
  | cons a rest ih =>
    obtain ⟨q, o⟩ := a
    have hrest : ∀ x ∈ rest, q < x.1 := fun x hx => (List.pairwise_cons.mp hs).1 x hx
    simp only [mapInsert]
    split_ifs with h₁ h₂
    · refine List.Pairwise.cons ?_ hs
      simp only [List.mem_cons, forall_eq_or_imp]
      exact ⟨h₁, fun x hx => UInt32.lt_trans h₁ (hrest x hx)⟩
    · subst h₂; exact List.Pairwise.cons hrest (List.pairwise_cons.mp hs).2
    · refine List.Pairwise.cons (fun x hx => ?_) (ih (List.pairwise_cons.mp hs).2)
      rcases (mem_mapInsert (List.pairwise_cons.mp hs).2 x).mp hx with rfl | ⟨hx, _⟩
      · show q < p
        simp only [uInt32_lt_iff, uInt32_eq_iff] at h₁ h₂ ⊢; omega
      · exact hrest x hx

theorem mem_mapErase {p : UInt32} {m : RingMap} (e : UInt32 × Bytes) :
    e ∈ mapErase p m ↔ e ∈ m ∧ e.1 ≠ p := by
  simp [mapErase]

theorem sorted_mapErase {p : UInt32} {m : RingMap} (hs : m.Pairwise PosLt) :
    (mapErase p m).Pairwise PosLt :=
  hs.sublist (List.filter_sublist _)

theorem nodup_of_sorted {m : RingMap} (hm : m.Pairwise PosLt) : m.Nodup :=
  hm.imp fun {a b} (hab : a.1 < b.1) (h : a = b) => UInt32.ne_of_lt hab (congrArg Prod.fst h)

/-- Two sorted maps with the same entries are the same list. -/
theorem ringMap_ext {m₁ m₂ : RingMap} (h₁ : m₁.Pairwise PosLt) (h₂ : m₂.Pairwise PosLt)
    (h : ∀ e, e ∈ m₁ ↔ e ∈ m₂) : m₁ = m₂ := by
  exact List.eq_of_perm_of_sorted
    ((List.perm_ext_iff_of_nodup (nodup_of_sorted h₁) (nodup_of_sorted h₂)).mpr h) h₁ h₂

/-! ## 2. The ring -/

/-- `ConsistentHashRing`. -/
structure ConsistentHashRing where
  virtualNodes : Int
  ring : RingMap
  physicalNodes : Finset Bytes
  sorted : ring.Pairwise PosLt

/-- `VnodeKey(node_id, index)`: `node_id + "#" + std::to_string(index)`. -/
def vnodeKey (nodeId : Bytes) (index : Nat) : Bytes :=
  nodeId ++ Bytes.ofString "#" ++ Bytes.ofString (toString index)

/-- The positions of a node's virtual nodes, `i = 0, …, V - 1`. -/
def vnodePositions (virtualNodes : Int) (nodeId : Bytes) : List UInt32 :=
  (List.range virtualNodes.toNat).map fun i => hash (vnodeKey nodeId i)

/-- The `AddNode` loop: `ring_[hash] = node_id` at each position. -/
def insertAll (n : Bytes) (ps : List UInt32) (m : RingMap) : RingMap :=
  ps.foldl (fun m p => mapInsert p n m) m

/-- The `RemoveNode` loop: `ring_.erase(hash)` at each position. -/
def eraseAll (ps : List UInt32) (m : RingMap) : RingMap :=
  ps.foldl (fun m p => mapErase p m) m

theorem sorted_insertAll {n : Bytes} (ps : List UInt32) {m : RingMap} (hs : m.Pairwise PosLt) :
    (insertAll n ps m).Pairwise PosLt := by
  induction ps generalizing m with
  | nil => exact hs
  | cons p ps ih => exact ih (sorted_mapInsert hs)

theorem sorted_eraseAll (ps : List UInt32) {m : RingMap} (hs : m.Pairwise PosLt) :
    (eraseAll ps m).Pairwise PosLt := by
  induction ps generalizing m with
  | nil => exact hs
  | cons p ps ih => exact ih (sorted_mapErase hs)

theorem mem_insertAll {n : Bytes} (ps : List UInt32) {m : RingMap} (hs : m.Pairwise PosLt)
    (e : UInt32 × Bytes) : e ∈ insertAll n ps m ↔ (e.1 ∈ ps ∧ e.2 = n) ∨ (e ∈ m ∧ e.1 ∉ ps) := by
  induction ps generalizing m with
  | nil => simp [insertAll]
  | cons p ps ih =>
    rw [insertAll, List.foldl_cons, ← insertAll, ih (sorted_mapInsert hs), mem_mapInsert hs]
    by_cases h : e.1 ∈ ps <;> simp [h, Prod.ext_iff]

theorem mem_eraseAll (ps : List UInt32) {m : RingMap} (e : UInt32 × Bytes) :
    e ∈ eraseAll ps m ↔ e ∈ m ∧ e.1 ∉ ps := by
  induction ps generalizing m with
  | nil => simp [eraseAll]
  | cons p ps ih =>
    rw [eraseAll, List.foldl_cons, ← eraseAll, ih, mem_mapErase, List.mem_cons, not_or, and_assoc]

namespace ConsistentHashRing

/-- `ConsistentHashRing(virtual_nodes)`: no node, empty ring. -/
def new (virtualNodes : Int) : ConsistentHashRing := ⟨virtualNodes, [], ∅, List.Pairwise.nil⟩

/-- `AddNode`: a no-op for a present node; otherwise record it and write its
virtual positions. -/
def addNode (r : ConsistentHashRing) (nodeId : Bytes) : ConsistentHashRing :=
  if nodeId ∈ r.physicalNodes then r
  else ⟨r.virtualNodes, insertAll nodeId (vnodePositions r.virtualNodes nodeId) r.ring,
    insert nodeId r.physicalNodes, sorted_insertAll _ r.sorted⟩

/-- `RemoveNode`: a no-op for an absent node; otherwise forget it and erase
its virtual positions. -/
def removeNode (r : ConsistentHashRing) (nodeId : Bytes) : ConsistentHashRing :=
  if nodeId ∈ r.physicalNodes then
    ⟨r.virtualNodes, eraseAll (vnodePositions r.virtualNodes nodeId) r.ring,
      r.physicalNodes.erase nodeId, sorted_eraseAll _ r.sorted⟩
  else r

/-- `HasNode`. -/
def hasNode (r : ConsistentHashRing) (nodeId : Bytes) : Bool := nodeId ∈ r.physicalNodes

/-- `NodeCount`. -/
def nodeCount (r : ConsistentHashRing) : Nat := r.physicalNodes.card

/-- `RingSize`: the number of virtual-node entries. -/
def ringSize (r : ConsistentHashRing) : Nat := r.ring.length

/-- The message both routing queries throw on an empty ring. -/
def emptyRingError : String := "HashRing: empty ring — no nodes available"

/-- `GetPrimaryNode`: the owner of the least position strictly above the
key's hash, wrapping to the first entry. -/
def getPrimaryNode (r : ConsistentHashRing) (key : Bytes) : Except String Bytes :=
  match r.ring with
  | [] => .error emptyRingError
  | first :: _ =>
    match r.ring.find? fun e => hash key < e.1 with
    | some e => .ok e.2
    | none => .ok first.2

/-- The index of `upper_bound(h)`: the first entry whose position is above
`h`, or the length when there is none. -/
def upperBound (m : RingMap) (h : UInt32) : Nat := m.findIdx fun e => h < e.1

/-- The positions `GetNodes` visits: from the upper bound to the end, then
from the beginning, `ring_.size()` steps in all. -/
def rotateAt (m : RingMap) (i : Nat) : RingMap := m.drop i ++ m.take i

/-- The `GetNodes` loop: while fewer than `count` ids are collected, take
the next entry's id unless it was seen. -/
def collectNodes (count : Int) : RingMap → List Bytes → List Bytes
  | [], result => result
  | e :: rest, result =>
    if (result.length : Int) < count then
      collectNodes count rest (if e.2 ∈ result then result else result ++ [e.2])
    else result

/-- `GetNodes(key, count)`, with `count` clamped to the number of physical
nodes. -/
def getNodes (r : ConsistentHashRing) (key : Bytes) (count : Int) : Except String (List Bytes) :=
  if r.ring = [] then .error emptyRingError
  else
    let available : Int := r.physicalNodes.card
    let count := if count > available then available else count
    .ok (collectNodes count (rotateAt r.ring (upperBound r.ring (hash key))) [])

@[simp] theorem physicalNodes_addNode (r : ConsistentHashRing) (n : Bytes) :
    (r.addNode n).physicalNodes = insert n r.physicalNodes := by
  unfold addNode
  split_ifs with h
  · exact (Finset.insert_eq_of_mem h).symm
  · rfl

@[simp] theorem physicalNodes_removeNode (r : ConsistentHashRing) (n : Bytes) :
    (r.removeNode n).physicalNodes = r.physicalNodes.erase n := by
  unfold removeNode
  split_ifs with h
  · rfl
  · exact (Finset.erase_eq_of_not_mem h).symm

end ConsistentHashRing

/-! ## 3. Join and leave histories -/

/-- A membership call on the ring. -/
inductive RingOp
  | addNode (nodeId : Bytes)
  | removeNode (nodeId : Bytes)
  deriving DecidableEq, Repr

/-- The call applied to a ring. -/
def RingOp.apply : RingOp → ConsistentHashRing → ConsistentHashRing
  | .addNode n, r => r.addNode n
  | .removeNode n, r => r.removeNode n

/-- The node a call names. -/
def RingOp.nodeId : RingOp → Bytes
  | .addNode n | .removeNode n => n

@[simp] theorem physicalNodes_apply (op : RingOp) (r : ConsistentHashRing) :
    (op.apply r).physicalNodes =
      match op with
      | .addNode n => insert n r.physicalNodes
      | .removeNode n => r.physicalNodes.erase n := by
  cases op <;> simp [RingOp.apply]

/-- The ring `ops` build from a fresh `ConsistentHashRing(V)`. -/
def runRing (V : Int) (ops : List RingOp) : ConsistentHashRing :=
  ops.foldl (fun r op => op.apply r) (ConsistentHashRing.new V)

/-- The node ids `ops` add. -/
def addedNodes (ops : List RingOp) : List Bytes :=
  ops.filterMap fun | .addNode n => some n | .removeNode _ => none

/-- No virtual node of one node of `A` hashes to a position of another. -/
def NoCollision (V : Int) (A : List Bytes) : Prop :=
  ∀ n ∈ A, ∀ m ∈ A, ∀ p ∈ vnodePositions V n, p ∈ vnodePositions V m → n = m

instance (V : Int) (A : List Bytes) : Decidable (NoCollision V A) :=
  inferInstanceAs (Decidable (∀ n ∈ A, ∀ m ∈ A, ∀ p ∈ vnodePositions V n,
    p ∈ vnodePositions V m → n = m))

/-- Every entry is a virtual node of a present node, at its own position,
and every such virtual node has its entry. -/
def RingExact (r : ConsistentHashRing) : Prop :=
  ∀ e, e ∈ r.ring ↔ e.2 ∈ r.physicalNodes ∧ e.1 ∈ vnodePositions r.virtualNodes e.2

/-- What a run from `ConsistentHashRing(V)` keeps when every node it adds is
in `A` and `A` has no collision. -/
structure RingInv (V : Int) (A : List Bytes) (r : ConsistentHashRing) : Prop where
  virtualNodes : r.virtualNodes = V
  nodes : ∀ n ∈ r.physicalNodes, n ∈ A
  exact : RingExact r

@[simp] theorem mem_addedNodes {n : Bytes} {ops : List RingOp} :
    n ∈ addedNodes ops ↔ RingOp.addNode n ∈ ops := by
  induction ops with
  | nil => simp [addedNodes]
  | cons op ops ih => cases op <;> simp_all [addedNodes]

section Run

variable {V : Int} {A : List Bytes}

/-- `AddNode` of a node of `A` keeps the invariant: its positions are free
of every other present node's, so nothing it writes overwrites them. -/
theorem RingInv.addNode {r : ConsistentHashRing} {m : Bytes} (hc : NoCollision V A)
    (hm : m ∈ A) (hi : RingInv V A r) : RingInv V A (r.addNode m) := by
  unfold ConsistentHashRing.addNode
  split_ifs with hin
  · exact hi
  obtain ⟨rfl, hA, hr⟩ := hi
  refine ⟨rfl, fun n hn => (Finset.mem_insert.mp hn).elim (· ▸ hm) (hA n), ?_⟩
  rintro ⟨p, o⟩
  simp only [mem_insertAll _ r.sorted, hr (p, o), Finset.mem_insert]
  constructor
  · rintro (⟨hp, rfl⟩ | ⟨⟨ho, hp⟩, -⟩)
    exacts [⟨.inl rfl, hp⟩, ⟨.inr ho, hp⟩]
  · rintro ⟨rfl | ho, hp⟩
    · exact .inl ⟨hp, rfl⟩
    · exact .inr ⟨⟨ho, hp⟩, fun hpm => hin (hc o (hA o ho) m hm p hp hpm ▸ ho)⟩

/-- `RemoveNode` keeps the invariant: the positions it erases belong to the
removed node alone. -/
theorem RingInv.removeNode {r : ConsistentHashRing} {m : Bytes} (hc : NoCollision V A)
    (hi : RingInv V A r) : RingInv V A (r.removeNode m) := by
  unfold ConsistentHashRing.removeNode
  split_ifs with hin
  · obtain ⟨rfl, hA, hr⟩ := hi
    refine ⟨rfl, fun n hn => hA n (Finset.mem_of_mem_erase hn), ?_⟩
    rintro ⟨p, o⟩
    simp only [mem_eraseAll, hr (p, o), Finset.mem_erase]
    constructor
    · rintro ⟨⟨ho, hp⟩, hpm⟩
      exact ⟨⟨fun h => hpm (h ▸ hp), ho⟩, hp⟩
    · rintro ⟨⟨hne, ho⟩, hp⟩
      exact ⟨⟨ho, hp⟩, fun hpm => hne (hc o (hA o ho) m (hA m hin) p hp hpm)⟩
  · exact hi

theorem ringInv_foldl (hc : NoCollision V A) :
    ∀ (ops : List RingOp) {r : ConsistentHashRing}, (∀ n ∈ addedNodes ops, n ∈ A) →
      RingInv V A r → RingInv V A (ops.foldl (fun r op => op.apply r) r)
  | [], _, _, hi => hi
  | .addNode n :: ops, _, hA, hi =>
    ringInv_foldl hc ops (fun m hm => hA m (by simp_all)) (hi.addNode hc (hA n (by simp)))
  | .removeNode _ :: ops, _, hA, hi =>
    ringInv_foldl hc ops (fun m hm => hA m (by simp_all)) (hi.removeNode hc)

/-- The run lemma: every ring built from `ConsistentHashRing(V)` by calls
adding nodes of a collision-free `A` is exact. -/
theorem ringInv_runRing (ops : List RingOp) (hc : NoCollision V A)
    (hA : ∀ n ∈ addedNodes ops, n ∈ A) : RingInv V A (runRing V ops) :=
  ringInv_foldl hc ops hA ⟨rfl, by simp [ConsistentHashRing.new],
    fun _ => by simp [ConsistentHashRing.new]⟩

end Run

/-- Exact rings with the same virtual-node count and node set are equal. -/
theorem eq_of_ringExact {r₁ r₂ : ConsistentHashRing} (h₁ : RingExact r₁) (h₂ : RingExact r₂)
    (hv : r₁.virtualNodes = r₂.virtualNodes) (hn : r₁.physicalNodes = r₂.physicalNodes) :
    r₁ = r₂ := by
  obtain ⟨v, m₁, ns, s₁⟩ := r₁
  obtain ⟨_, m₂, _, s₂⟩ := r₂
  subst hv hn
  obtain rfl : m₁ = m₂ := ringMap_ext s₁ s₂ fun e => (h₁ e).trans (h₂ e).symm
  rfl

/-- Without collisions between the nodes two histories add, the ring is a
function of the final node set: equal as a structure, so both routing
queries agree on every key. -/
theorem ring_history_independent (V : Int) (ops₁ ops₂ : List RingOp)
    (hc : NoCollision V (addedNodes ops₁ ++ addedNodes ops₂))
    (hn : (runRing V ops₁).physicalNodes = (runRing V ops₂).physicalNodes) :
    runRing V ops₁ = runRing V ops₂ ∧
      ∀ key count, (runRing V ops₁).getPrimaryNode key = (runRing V ops₂).getPrimaryNode key ∧
        (runRing V ops₁).getNodes key count = (runRing V ops₂).getNodes key count := by
  have h₁ := ringInv_runRing ops₁ hc fun _ hn => List.mem_append_left _ hn
  have h₂ := ringInv_runRing ops₂ hc fun _ hn => List.mem_append_right _ hn
  have heq := eq_of_ringExact h₁.exact h₂.exact (h₁.virtualNodes.trans h₂.virtualNodes.symm) hn
  exact ⟨heq, fun _ _ => heq ▸ ⟨rfl, rfl⟩⟩

/-- Three joins and a leave against two joins, same final nodes. -/
theorem ring_history_independent_sample :
    runRing 2 [.addNode (Bytes.ofString "n1"), .addNode (Bytes.ofString "n2"),
        .removeNode (Bytes.ofString "n1"), .addNode (Bytes.ofString "n3")] =
      runRing 2 [.addNode (Bytes.ofString "n3"), .addNode (Bytes.ofString "n2")] :=
  (ring_history_independent 2 _ _ (by decide) (by decide)).1

/-- Two node ids whose first virtual nodes collide:
`Hash("n16724#0") = Hash("n100940#0") = 4158874788`. -/
def collidingA : Bytes := Bytes.ofString "n16724"

/-- The other id of the colliding pair. -/
def collidingB : Bytes := Bytes.ofString "n100940"

/-- With one virtual node each, the two join orders end with the same node
set, but the later join owns the shared position, so each ring has one
entry and routes every key to a different node. -/
theorem ring_depends_on_join_order :
    (runRing 1 [.addNode collidingA, .addNode collidingB]).physicalNodes =
      (runRing 1 [.addNode collidingB, .addNode collidingA]).physicalNodes ∧
    (runRing 1 [.addNode collidingA, .addNode collidingB]).ring = [(4158874788, collidingB)] ∧
    (runRing 1 [.addNode collidingB, .addNode collidingA]).ring = [(4158874788, collidingA)] := by
  decide

end KvStore.Cluster
