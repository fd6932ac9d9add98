/-
KvStore.Cluster.Routing — what `GetPrimaryNode` and `GetNodes`
(`cluster/consistent_hash.cpp`) return on the rings that `AddNode` /
`RemoveNode` calls build from `ConsistentHashRing(V)`.

* `getNodes_clockwise_walk`: on every non-empty reachable ring, for every
  key and every count `c ≥ 1`, `GetNodes` returns the first `min(c, D)`
  distinct ids met walking the ring clockwise from the least position
  above the key's hash (`clockwiseWalk`, read with `List.eraseDups`),
  where `D` is the number of distinct ids on the ring; the list has no
  duplicate and starts with `GetPrimaryNode`. The clamp to
  `physical_nodes_.size()` never cuts below `D`, since every entry of a
  reachable ring belongs to a present node (`RingSound`).
* `ring_counts_without_collisions`: when no two virtual nodes of the nodes
  a history adds share a position, the ring has `V` entries per node, its
  ids are the node set, `GetNodes` returns `min(c, |nodes|)` ids and
  `GetPrimaryNode` does not throw on a non-empty node set. A collision
  breaks all of it (`ring_collision_breaks_counts`).
* `primary_moves_minimally`: a join moves a key only to the new node, on
  every ring; a leave moves no key whose primary was another node, when
  there is no collision. With one, the leave erases a position another
  node owns (`leave_moves_other_keys`).

The routing facts rest on the order of `ring_`: the walk from
`upper_bound` is the entries above the hash followed by the others
(`rotateAt_upperBound`), and the primary entry is the least position
above the hash, or the least of all when there is none (`IsPrimaryEntry`).
-/
import KvStore.Cluster.Ring
import Mathlib.Algebra.BigOperators.Group.Finset

namespace KvStore.Cluster

open ConsistentHashRing

/-! ## 1. The least position above a hash -/

/-- The entry `GetPrimaryNode` reads for hash `h`: the least position above
`h`, or, when there is none, the least position of all. -/
def IsPrimaryEntry (m : RingMap) (h : UInt32) (e : UInt32 × Bytes) : Prop :=
  e ∈ m ∧ ((h < e.1 ∧ ∀ e' ∈ m, h < e'.1 → e.1 ≤ e'.1) ∨
    ((∀ e' ∈ m, ¬ h < e'.1) ∧ ∀ e' ∈ m, e.1 ≤ e'.1))

theorem uInt32_le_iff {a b : UInt32} : a ≤ b ↔ a.toNat ≤ b.toNat := Iff.rfl

/-- A position names at most one entry of a sorted map. -/
theorem eq_of_pos_eq {m : RingMap} (hs : m.Pairwise PosLt) {e e' : UInt32 × Bytes}
    (he : e ∈ m) (he' : e' ∈ m) (hp : e.1 = e'.1) : e = e' := by
  induction m with
  | nil => cases he
  | cons a rest ih =>
    obtain ⟨hrest, hs⟩ := List.pairwise_cons.mp hs
    have hne : ∀ x ∈ rest, x.1 ≠ a.1 := fun x hx h => by
      have hlt : a.1 < x.1 := hrest x hx
      rw [h] at hlt; exact UInt32.lt_irrefl _ hlt
    rcases List.mem_cons.mp he with h₁ | h₁ <;> rcases List.mem_cons.mp he' with h₂ | h₂
    · exact h₁.trans h₂.symm
    · subst h₁; exact absurd hp.symm (hne e' h₂)
    · subst h₂; exact absurd hp (hne e h₁)
    · exact ih hs h₁ h₂

/-- The primary entry is unique. -/
theorem IsPrimaryEntry.unique {m : RingMap} (hs : m.Pairwise PosLt) {h : UInt32}
    {e e' : UInt32 × Bytes} (he : IsPrimaryEntry m h e) (he' : IsPrimaryEntry m h e') : e = e' := by
  refine eq_of_pos_eq hs he.1 he'.1 ?_
  simp only [uInt32_lt_iff, uInt32_le_iff, uInt32_eq_iff] at he he' ⊢
  rcases he with ⟨hm, ⟨hlt, hle⟩ | ⟨hno, hle⟩⟩ <;> rcases he' with ⟨hm', ⟨hlt', hle'⟩ | ⟨hno', hle'⟩⟩
  · exact Nat.le_antisymm (hle _ hm' hlt') (hle' _ hm hlt)
  · exact absurd hlt (hno' _ hm)
  · exact absurd hlt' (hno _ hm')
  · exact Nat.le_antisymm (hle _ hm') (hle' _ hm)

/-- A primary entry stays primary in any map that holds it and whose
positions all occur in the first. -/
theorem IsPrimaryEntry.of_positions {m m' : RingMap} {h : UInt32} {e : UInt32 × Bytes}
    (he : IsPrimaryEntry m' h e) (hm : e ∈ m) (hup : ∀ x ∈ m, ∃ y ∈ m', y.1 = x.1) :
    IsPrimaryEntry m h e := by
  refine ⟨hm, ?_⟩
  rcases he.2 with ⟨hlt, hle⟩ | ⟨hno, hle⟩
  · exact .inl ⟨hlt, fun x hx hx' => by
      obtain ⟨y, hy, hpos⟩ := hup x hx
      exact hpos ▸ hle y hy (hpos ▸ hx')⟩
  · exact .inr ⟨fun x hx hx' => by
      obtain ⟨y, hy, hpos⟩ := hup x hx
      exact hno y hy (hpos ▸ hx'), fun x hx => by
      obtain ⟨y, hy, hpos⟩ := hup x hx
      exact hpos ▸ hle y hy⟩

theorem head_le {first : UInt32 × Bytes} {rest : RingMap} (hs : (first :: rest).Pairwise PosLt) :
    ∀ e ∈ first :: rest, first.1 ≤ e.1 := by
  intro e he
  rcases List.mem_cons.mp he with rfl | he
  · exact UInt32.le_refl _
  · exact uInt32_le_iff.mpr (Nat.le_of_lt (uInt32_lt_iff.mp ((List.pairwise_cons.mp hs).1 e he)))

/-- `find?` on a sorted map returns the least position above `h`. -/
theorem find?_least {m : RingMap} (hs : m.Pairwise PosLt) {h : UInt32} {e : UInt32 × Bytes}
    (hf : m.find? (fun e => h < e.1) = some e) : ∀ e' ∈ m, h < e'.1 → e.1 ≤ e'.1 := by
  induction m with
  | nil => cases hf
  | cons a rest ih =>
    obtain ⟨hrest, hs'⟩ := List.pairwise_cons.mp hs
    intro e' he' hlt
    rw [List.find?_cons] at hf
    split at hf
    · cases hf
      exact head_le hs e' he'
    next hna =>
      rcases List.mem_cons.mp he' with rfl | he'
      · simp [hlt] at hna
      · exact ih hs' hf e' he' hlt

theorem isPrimaryEntry_of_find? {m : RingMap} (hs : m.Pairwise PosLt) {h : UInt32}
    {e : UInt32 × Bytes} (hf : m.find? (fun e => h < e.1) = some e) : IsPrimaryEntry m h e := by
  have hp := List.find?_some hf
  simp only [decide_eq_true_eq] at hp
  exact ⟨List.mem_of_find?_eq_some hf, .inl ⟨hp, find?_least hs hf⟩⟩

/-- `GetPrimaryNode` returns the primary entry's node. -/
theorem getPrimaryNode_eq {r : ConsistentHashRing} {key : Bytes} {e : UInt32 × Bytes}
    (he : IsPrimaryEntry r.ring (hash key) e) : r.getPrimaryNode key = .ok e.2 := by
  unfold getPrimaryNode
  split
  next hr => exact absurd (hr ▸ he.1) (List.not_mem_nil _)
  next first rest hr =>
    split
    next e' hf =>
      have hp : IsPrimaryEntry r.ring (hash key) e' := isPrimaryEntry_of_find? r.sorted hf
      rw [hp.unique r.sorted he]
    next hf =>
      have hno := List.find?_eq_none.mp hf
      have hp : IsPrimaryEntry r.ring (hash key) first := by
        refine ⟨hr ▸ List.mem_cons_self _ _, .inr ⟨fun e' he' h => hno e' he' (decide_eq_true h), ?_⟩⟩
        rw [hr]; exact head_le (hr ▸ r.sorted)
      rw [hp.unique r.sorted he]

/-- A non-empty sorted map has a primary entry for every hash. -/
theorem exists_isPrimaryEntry {m : RingMap} (hs : m.Pairwise PosLt) (hne : m ≠ []) (h : UInt32) :
    ∃ e, IsPrimaryEntry m h e := by
  cases hf : m.find? (fun e => h < e.1) with
  | some e => exact ⟨e, isPrimaryEntry_of_find? hs hf⟩
  | none =>
    obtain ⟨first, rest, rfl⟩ := List.exists_cons_of_ne_nil hne
    exact ⟨first, List.mem_cons_self _ _, .inr ⟨fun e' he' hlt =>
      List.find?_eq_none.mp hf e' he' (decide_eq_true hlt), head_le hs⟩⟩

theorem getPrimaryNode_nil {r : ConsistentHashRing} (key : Bytes) (hr : r.ring = []) :
    r.getPrimaryNode key = .error emptyRingError := by
  unfold getPrimaryNode; rw [hr]

/-! ## 2. The clockwise walk -/

/-- The entries met walking the ring clockwise from the least position
strictly above `h`, once around: those above `h` in order, then from the
start. -/
def clockwiseWalk (m : RingMap) (h : UInt32) : RingMap :=
  m.filter (fun e => h < e.1) ++ m.filter (fun e => !decide (h < e.1))

/-- Splitting at the first element satisfying a predicate that, once true,
stays true along the list. -/
theorem take_drop_findIdx {α : Type} (p : α → Bool) :
    ∀ {l : List α}, l.Pairwise (fun a b => p a = true → p b = true) →
      l.take (l.findIdx p) = l.filter (fun a => !p a) ∧ l.drop (l.findIdx p) = l.filter p
  | [], _ => ⟨rfl, rfl⟩
  | a :: l, hl => by
    obtain ⟨ha, hl⟩ := List.pairwise_cons.mp hl
    obtain ⟨ih₁, ih₂⟩ := take_drop_findIdx p hl
    rw [List.findIdx_cons]
    cases hp : p a
    · simp [hp, ih₁, ih₂, List.filter_cons]
    · have hall : ∀ b ∈ l, p b = true := fun b hb => ha b hb hp
      refine ⟨?_, ?_⟩
      · simp only [cond_true, List.take_zero, List.filter_cons, hp, Bool.not_true]
        exact (List.filter_eq_nil_iff.mpr fun b hb => by simp [hall b hb]).symm
      · simp only [cond_true, List.drop_zero, List.filter_cons, hp, if_true]
        exact congrArg _ (List.filter_eq_self.mpr hall).symm

/-- `GetNodes` visits the clockwise walk. -/
theorem rotateAt_upperBound {m : RingMap} (hs : m.Pairwise PosLt) (h : UInt32) :
    rotateAt m (upperBound m h) = clockwiseWalk m h := by
  have hmono : m.Pairwise (fun a b => decide (h < a.1) = true → decide (h < b.1) = true) :=
    hs.imp fun hab ha => decide_eq_true (UInt32.lt_trans (of_decide_eq_true ha) hab)
  obtain ⟨h₁, h₂⟩ := take_drop_findIdx _ hmono
  rw [rotateAt, upperBound, h₁, h₂, clockwiseWalk]

theorem clockwiseWalk_perm (m : RingMap) (h : UInt32) : (clockwiseWalk m h).Perm m :=
  List.filter_append_perm _ m

/-- The walk starts at the primary entry. -/
theorem head?_clockwiseWalk {m : RingMap} (hs : m.Pairwise PosLt) {h : UInt32}
    {e : UInt32 × Bytes} (he : IsPrimaryEntry m h e) : (clockwiseWalk m h).head? = some e := by
  obtain ⟨hm, ⟨hlt, hle⟩ | ⟨hno, hle⟩⟩ := he
  · have hf : m.find? (fun e => h < e.1) = some e := by
      obtain ⟨e', he'⟩ : ∃ e', m.find? (fun e => h < e.1) = some e' := by
        cases hf : m.find? (fun e => h < e.1) with
        | none => exact absurd (decide_eq_true hlt) (List.find?_eq_none.mp hf e hm)
        | some e' => exact ⟨e', rfl⟩
      have hp : IsPrimaryEntry m h e' := isPrimaryEntry_of_find? hs he'
      rw [he', hp.unique hs ⟨hm, .inl ⟨hlt, hle⟩⟩]
    rw [clockwiseWalk, List.head?_append, List.filter_head?, hf]
    rfl
  · have hnil : m.filter (fun e => h < e.1) = [] :=
      List.filter_eq_nil_iff.mpr fun e' he' hd => hno e' he' (of_decide_eq_true hd)
    have hall : m.filter (fun e => !decide (h < e.1)) = m :=
      List.filter_eq_self.mpr fun e' he' => by simp [hno e' he']
    rw [clockwiseWalk, hnil, hall, List.nil_append]
    obtain ⟨first, rest, rfl⟩ := List.exists_cons_of_ne_nil (List.ne_nil_of_mem hm)
    have hp : IsPrimaryEntry (first :: rest) h first :=
      ⟨List.mem_cons_self _ _, .inr ⟨hno, head_le hs⟩⟩
    rw [hp.unique hs ⟨hm, .inr ⟨hno, hle⟩⟩]
    rfl

/-! ## 3. The `GetNodes` loop -/

theorem nodup_eraseDups_loop (l : List Bytes) :
    ∀ bs : List Bytes, bs.Nodup → (List.eraseDups.loop l bs).Nodup := by
  induction l with
  | nil => exact fun bs h => List.nodup_reverse.mpr h
  | cons a l ih =>
    intro bs h
    simp only [List.eraseDups.loop]
    cases hb : bs.elem a
    · exact ih _ (List.nodup_cons.mpr ⟨fun hm => (by rw [List.elem_iff.mpr hm] at hb; cases hb), h⟩)
    · exact ih _ h

theorem mem_eraseDups_loop (l : List Bytes) :
    ∀ (bs : List Bytes) (x : Bytes), x ∈ List.eraseDups.loop l bs ↔ x ∈ l ∨ x ∈ bs := by
  induction l with
  | nil => simp [List.eraseDups.loop]
  | cons a l ih =>
    intro bs x
    simp only [List.eraseDups.loop]
    cases hb : bs.elem a
    · rw [ih, List.mem_cons, List.mem_cons, or_assoc, or_left_comm]
    · rw [ih, List.mem_cons, or_assoc]
      exact (or_iff_right_of_imp fun h => .inr (h ▸ List.elem_iff.mp hb)).symm

theorem nodup_eraseDups (l : List Bytes) : l.eraseDups.Nodup :=
  nodup_eraseDups_loop l [] List.nodup_nil

theorem mem_eraseDups {l : List Bytes} {x : Bytes} : x ∈ l.eraseDups ↔ x ∈ l := by
  simp [List.eraseDups, mem_eraseDups_loop]

theorem length_eraseDups (l : List Bytes) : l.eraseDups.length = l.toFinset.card := by
  rw [← List.toFinset_card_of_nodup (nodup_eraseDups l)]
  congr 1
  ext x; simp [mem_eraseDups]

/-- The ids collected so far stay in front. -/
theorem take_eraseDups_loop (l : List Bytes) :
    ∀ bs : List Bytes, (List.eraseDups.loop l bs).take bs.length = bs.reverse := by
  induction l with
  | nil => intro bs; simp [List.eraseDups.loop]
  | cons a l ih =>
    intro bs
    simp only [List.eraseDups.loop]
    cases bs.elem a
    · have := ih (a :: bs)
      simp only [List.length_cons, List.reverse_cons] at this
      have h₂ : (List.eraseDups.loop l (a :: bs)).take bs.length =
          ((List.eraseDups.loop l (a :: bs)).take (bs.length + 1)).take bs.length := by
        rw [List.take_take, Nat.min_eq_left (Nat.le_succ _)]
      rw [h₂, this, List.take_append_of_le_length (by simp), List.take_of_length_le (by simp)]
    · exact ih bs

theorem head?_eraseDups (l : List Bytes) : l.eraseDups.head? = l.head? := by
  cases l with
  | nil => rfl
  | cons a l =>
    have h := take_eraseDups_loop l [a]
    simp only [List.eraseDups, List.eraseDups.loop, List.elem_nil]
    cases hl : List.eraseDups.loop l [a] with
    | nil => rw [hl] at h; cases h
    | cons x xs => rw [hl] at h; simp only [List.length_singleton, List.take_succ_cons,
        List.take_zero, List.reverse_singleton, List.cons.injEq] at h; simp [h.1]

/-- The loop of `GetNodes` is `eraseDups` cut at `count`: with `result`
collected so far, it ends on the distinct ids of `result` followed by the
unseen ones, cut at `count` or at what it already had. -/
theorem collectNodes_eq (count : Int) :
    ∀ (l : RingMap) (result : List Bytes), collectNodes count l result =
      (List.eraseDups.loop (l.map Prod.snd) result.reverse).take (max count.toNat result.length)
  | [], result => by
    simp [collectNodes, List.eraseDups.loop, List.take_of_length_le]
  | e :: rest, result => by
    unfold collectNodes
    split_ifs with hc hm
    · rw [collectNodes_eq count rest result]
      simp only [List.map_cons, List.eraseDups.loop, List.elem_iff.mpr (List.mem_reverse.mpr hm)]
    · rw [collectNodes_eq count rest]
      have hm' : (result.reverse.elem e.2) = false := by
        cases h : result.reverse.elem e.2
        · rfl
        · exact absurd (List.mem_reverse.mp (List.elem_iff.mp h)) hm
      simp only [List.map_cons, List.eraseDups.loop, hm', List.reverse_append, List.reverse_singleton,
        List.singleton_append, List.length_append, List.length_singleton]
      congr 1; omega
    · have := take_eraseDups_loop ((e :: rest).map Prod.snd) result.reverse
      rw [List.length_reverse, List.reverse_reverse] at this
      rw [max_eq_right (by omega), this]

theorem collectNodes_nil (count : Int) (l : RingMap) :
    collectNodes count l [] = ((l.map Prod.snd).eraseDups).take count.toNat := by
  rw [collectNodes_eq]; simp [List.eraseDups]

/-! ## 4. Every reachable ring -/

/-- Every entry is a virtual node of a present node, at one of its
positions. -/
def RingSound (r : ConsistentHashRing) : Prop :=
  ∀ e ∈ r.ring, e.2 ∈ r.physicalNodes ∧ e.1 ∈ vnodePositions r.virtualNodes e.2

theorem RingSound.apply {r : ConsistentHashRing} (h : RingSound r) (op : RingOp) :
    RingSound (op.apply r) := by
  cases op with
  | addNode n =>
    show RingSound (r.addNode n)
    unfold addNode
    split_ifs with hin
    · exact h
    intro e he
    rcases (mem_insertAll _ r.sorted e).mp he with ⟨hp, hn⟩ | ⟨he, -⟩
    · rw [hn]; exact ⟨Finset.mem_insert_self _ _, hp⟩
    · exact ⟨Finset.mem_insert_of_mem (h e he).1, (h e he).2⟩
  | removeNode n =>
    show RingSound (r.removeNode n)
    unfold removeNode
    split_ifs with hin
    · intro e he
      obtain ⟨he, hp⟩ := (mem_eraseAll _ e).mp he
      obtain ⟨hn, hpos⟩ := h e he
      refine ⟨Finset.mem_erase.mpr ⟨fun hen => hp (hen ▸ hpos), hn⟩, hpos⟩
    · exact h

theorem ringSound_runRing (V : Int) (ops : List RingOp) : RingSound (runRing V ops) := by
  have : ∀ (ops : List RingOp) (r : ConsistentHashRing), RingSound r →
      RingSound (ops.foldl (fun r op => op.apply r) r) := by
    intro ops
    induction ops with
    | nil => exact fun _ h => h
    | cons op ops ih => exact fun r h => ih _ (h.apply op)
  exact this ops _ (fun e he => by cases he)

/-- The distinct ids of a sound ring are present nodes. -/
theorem card_ids_le {r : ConsistentHashRing} (h : RingSound r) :
    (r.ring.map Prod.snd).toFinset.card ≤ r.physicalNodes.card := by
  refine Finset.card_le_card fun n hn => ?_
  obtain ⟨e, he, rfl⟩ := List.mem_map.mp (List.mem_toFinset.mp hn)
  exact (h e he).1

/-- What `GetNodes` returns on a non-empty sound ring, for `c ≥ 1`: the
first `min(c, D)` distinct ids of the clockwise walk. -/
theorem getNodes_eq_walk {r : ConsistentHashRing} (hr : RingSound r) (hne : r.ring ≠ [])
    (key : Bytes) {c : Int} (hc : 1 ≤ c) :
    r.getNodes key c = .ok ((((clockwiseWalk r.ring (hash key)).map Prod.snd).eraseDups).take
      (min c.toNat (r.ring.map Prod.snd).toFinset.card)) := by
  have hD := card_ids_le hr
  have hlen : (((clockwiseWalk r.ring (hash key)).map Prod.snd).eraseDups).length =
      (r.ring.map Prod.snd).toFinset.card := by
    rw [length_eraseDups]
    exact congrArg Finset.card (List.toFinset_eq_of_perm _ _
      ((clockwiseWalk_perm r.ring (hash key)).map Prod.snd))
  unfold getNodes
  dsimp only
  rw [if_neg hne, collectNodes_nil, rotateAt_upperBound r.sorted]
  congr 1
  apply List.take_eq_take.mpr
  rw [hlen]
  split_ifs <;> omega

/-- On a ring that keeps `RingInv`, every present node has its virtual nodes
on the ring: the ids on the ring are exactly the present nodes. -/
theorem RingInv.ids {V : Int} {A : List Bytes} {r : ConsistentHashRing} (hi : RingInv V A r)
    (hV : 1 ≤ V) : (r.ring.map Prod.snd).toFinset = r.physicalNodes := by
  ext n
  simp only [List.mem_toFinset, List.mem_map]
  constructor
  · rintro ⟨e, he, rfl⟩; exact ((hi.exact e).mp he).1
  · intro hn
    refine ⟨(hash (vnodeKey n 0), n), (hi.exact _).mpr ⟨hn, ?_⟩, rfl⟩
    rw [hi.virtualNodes]
    exact List.mem_map_of_mem _ (List.mem_range.mpr (by omega))

/-- When no node's own positions repeat, such a ring holds `V` entries per
present node. -/
theorem RingInv.length_ring {V : Int} {A : List Bytes} {r : ConsistentHashRing}
    (hi : RingInv V A r) (hd : ∀ n ∈ A, (vnodePositions V n).Nodup) :
    r.ring.length = V.toNat * r.physicalNodes.card := by
  rw [← List.toFinset_card_of_nodup (nodup_of_sorted r.sorted)]
  have hset : r.ring.toFinset = r.physicalNodes.biUnion
      fun n => (vnodePositions V n).toFinset.image fun p => (p, n) := by
    ext e
    simp only [List.mem_toFinset, Finset.mem_biUnion, Finset.mem_image]
    rw [hi.exact e, hi.virtualNodes]
    constructor
    · rintro ⟨hn, hp⟩; exact ⟨e.2, hn, e.1, hp, rfl⟩
    · rintro ⟨n, hn, p, hp, rfl⟩; exact ⟨hn, hp⟩
  rw [hset, Finset.card_biUnion]
  · rw [Finset.sum_const_nat fun n hn => ?_, Nat.mul_comm]
    rw [Finset.card_image_of_injective _ fun a b h => (Prod.mk.inj h).1,
      List.toFinset_card_of_nodup (hd n (hi.nodes n hn))]
    simp [vnodePositions]
  · intro n _ m _ hnm
    refine Finset.disjoint_left.mpr fun e h₁ h₂ => ?_
    obtain ⟨p, -, rfl⟩ := Finset.mem_image.mp h₁
    obtain ⟨q, -, hq⟩ := Finset.mem_image.mp h₂
    exact hnm (Prod.mk.inj hq).2.symm

/-! ## 5. Move-minimality -/

/-- A join moves a key only to the new node: on any ring, the key's primary
after `AddNode(n)` is what it was, or `n`. -/
theorem getPrimaryNode_addNode (r : ConsistentHashRing) (n key : Bytes) :
    (r.addNode n).getPrimaryNode key = r.getPrimaryNode key ∨
      (r.addNode n).getPrimaryNode key = .ok n := by
  unfold addNode
  split_ifs with hin
  · exact .inl rfl
  set ps := vnodePositions r.virtualNodes n
  set r' : ConsistentHashRing := ⟨r.virtualNodes, insertAll n ps r.ring, insert n r.physicalNodes,
    sorted_insertAll _ r.sorted⟩
  have hmem : ∀ e, e ∈ r'.ring ↔ (e.1 ∈ ps ∧ e.2 = n) ∨ (e ∈ r.ring ∧ e.1 ∉ ps) :=
    mem_insertAll _ r.sorted
  by_cases hne : r'.ring = []
  · -- nothing was written, and nothing was there
    have hr : r.ring = [] := List.eq_nil_iff_forall_not_mem.mpr fun e he => by
      by_cases hp : e.1 ∈ ps
      · have := (hmem (e.1, n)).mpr (.inl ⟨hp, rfl⟩); rw [hne] at this; cases this
      · have := (hmem e).mpr (.inr ⟨he, hp⟩); rw [hne] at this; cases this
    exact .inl (by rw [getPrimaryNode_nil key hne, getPrimaryNode_nil key hr])
  obtain ⟨e', he'⟩ := exists_isPrimaryEntry r'.sorted hne (hash key)
  rw [getPrimaryNode_eq he']
  rcases (hmem e').mp he'.1 with ⟨-, hn⟩ | ⟨hold, hnp⟩
  · exact .inr (by rw [hn])
  -- the entry survived: no position of `n` came before it, so it was primary already
  refine .inl (getPrimaryNode_eq (he'.of_positions hold fun e he => ?_)).symm
  by_cases hp : e.1 ∈ ps
  · exact ⟨(e.1, n), (hmem _).mpr (.inl ⟨hp, rfl⟩), rfl⟩
  · exact ⟨e, (hmem e).mpr (.inr ⟨he, hp⟩), rfl⟩

/-- Dropping entries of other nodes keeps a key's primary entry when that
entry stays. -/
theorem isPrimaryEntry_filter {m : RingMap} {h : UInt32} {e : UInt32 × Bytes}
    (q : UInt32 × Bytes → Bool) (he : IsPrimaryEntry m h e) (hq : q e = true) :
    IsPrimaryEntry (m.filter q) h e :=
  he.of_positions (List.mem_filter.mpr ⟨he.1, hq⟩) fun x hx => ⟨x, (List.mem_filter.mp hx).1, rfl⟩

/-- Without collisions a leave erases exactly the leaving node's entries. -/
theorem eraseAll_of_ringInv {V : Int} {A : List Bytes} {r : ConsistentHashRing}
    (hc : NoCollision V A) (hi : RingInv V A r) {n : Bytes} (hn : n ∈ A) :
    eraseAll (vnodePositions V n) r.ring = r.ring.filter fun e => e.2 != n := by
  have hfilter : ∀ ps : List UInt32, ∀ m : RingMap,
      eraseAll ps m = m.filter fun e => !decide (e.1 ∈ ps) := by
    intro ps
    induction ps with
    | nil => intro m; simp [eraseAll]
    | cons p ps ih =>
      intro m
      rw [eraseAll, List.foldl_cons, ← eraseAll, ih, mapErase, List.filter_filter]
      exact List.filter_congr fun e _ => by
        by_cases h₁ : e.1 = p <;> by_cases h₂ : e.1 ∈ ps <;> simp [h₁, h₂]
  rw [hfilter]
  refine List.filter_congr fun e he => ?_
  obtain ⟨ho, hp⟩ := (hi.exact e).mp he
  rw [hi.virtualNodes] at hp
  by_cases hen : e.2 = n
  · simp [hen, hen ▸ hp]
  · have : e.1 ∉ vnodePositions V n := fun h => hen (hc _ (hi.nodes _ ho) n hn e.1 hp h)
    simp [hen, this]

/-- The leave half: without collisions, `RemoveNode(n)` keeps the primary
of every key whose primary was not `n`. -/
theorem getPrimaryNode_removeNode {V : Int} {A : List Bytes} {r : ConsistentHashRing}
    (hc : NoCollision V A) (hi : RingInv V A r) (n key : Bytes)
    (hprev : r.getPrimaryNode key ≠ .ok n) :
    (r.removeNode n).getPrimaryNode key = r.getPrimaryNode key := by
  unfold removeNode
  split_ifs with hin
  · by_cases hne : r.ring = []
    · have : eraseAll (vnodePositions r.virtualNodes n) r.ring = [] := by
        rw [hne]; exact List.foldl_fixed' (fun _ => rfl) _
      rw [getPrimaryNode_nil key hne]
      exact getPrimaryNode_nil key this
    obtain ⟨e, he⟩ := exists_isPrimaryEntry r.sorted hne (hash key)
    have hen : e.2 ≠ n := fun h => hprev (by rw [getPrimaryNode_eq he, h])
    rw [getPrimaryNode_eq he]
    apply getPrimaryNode_eq
    show IsPrimaryEntry (eraseAll (vnodePositions r.virtualNodes n) r.ring) (hash key) e
    rw [hi.virtualNodes, eraseAll_of_ringInv hc hi (hi.nodes n hin)]
    exact isPrimaryEntry_filter _ he (by simp [hen])
  · rfl

/-! ## 6. The routing results -/

/-- `GetNodes` is the deduplicated clockwise walk: on every non-empty ring
reachable from `ConsistentHashRing(V)`, for every key and every `c ≥ 1`, it
returns the first `min(c, D)` distinct ids of the walk from the least
position above the key's hash, `D` the number of distinct ids on the ring;
the list has no duplicate and starts with `GetPrimaryNode`. -/
theorem getNodes_clockwise_walk (V : Int) (ops : List RingOp) (key : Bytes) (c : Int)
    (hne : (runRing V ops).ring ≠ []) (hc : 1 ≤ c) :
    (runRing V ops).getNodes key c =
      .ok ((((clockwiseWalk (runRing V ops).ring (hash key)).map Prod.snd).eraseDups).take
        (min c.toNat ((runRing V ops).ring.map Prod.snd).toFinset.card)) ∧
    ∀ nodes, (runRing V ops).getNodes key c = .ok nodes →
      nodes.Nodup ∧ ∃ p, (runRing V ops).getPrimaryNode key = .ok p ∧ nodes.head? = some p := by
  have hw := getNodes_eq_walk (ringSound_runRing V ops) hne key hc
  refine ⟨hw, fun nodes hn => ?_⟩
  rw [hw] at hn
  cases hn
  obtain ⟨e, he⟩ := exists_isPrimaryEntry (runRing V ops).sorted hne (hash key)
  have hD : 0 < ((runRing V ops).ring.map Prod.snd).toFinset.card :=
    Finset.card_pos.mpr ⟨e.2, List.mem_toFinset.mpr (List.mem_map_of_mem _ he.1)⟩
  refine ⟨(nodup_eraseDups _).sublist (List.take_sublist _ _), e.2, getPrimaryNode_eq he, ?_⟩
  rw [List.head?_take, if_neg (by omega), head?_eraseDups, List.head?_map,
    head?_clockwiseWalk (runRing V ops).sorted he]
  rfl

/-- Three nodes joining a ring of two virtual nodes each. -/
def trioOps : List RingOp :=
  [.addNode (Bytes.ofString "n1"), .addNode (Bytes.ofString "n2"), .addNode (Bytes.ofString "n3")]

theorem getNodes_trio :
    (runRing 2 trioOps).ring ≠ [] ∧ (1 : Int) ≤ 2 ∧
    (runRing 2 trioOps).getNodes (Bytes.ofString "k") 2 =
      .ok ((((clockwiseWalk (runRing 2 trioOps).ring (hash (Bytes.ofString "k"))).map
        Prod.snd).eraseDups).take (min (2 : Int).toNat ((runRing 2 trioOps).ring.map
          Prod.snd).toFinset.card)) :=
  ⟨by decide, by decide, (getNodes_clockwise_walk 2 trioOps _ 2 (by decide) (by decide)).1⟩

theorem getPrimaryNode_singleton {r : ConsistentHashRing} (e : UInt32 × Bytes) (hr : r.ring = [e])
    (key : Bytes) : r.getPrimaryNode key = .ok e.2 := by
  unfold getPrimaryNode
  rw [hr]
  cases h : decide (hash key < e.1) <;> simp [List.find?_cons, h]

/-- Move-minimality. A join moves a key only to the joining node, on every
reachable ring. Without collisions between the nodes the history adds, a
leave moves no key whose primary was another node. -/
theorem primary_moves_minimally (V : Int) (ops : List RingOp) (n key : Bytes) :
    (((runRing V ops).addNode n).getPrimaryNode key = (runRing V ops).getPrimaryNode key ∨
      ((runRing V ops).addNode n).getPrimaryNode key = .ok n) ∧
    (NoCollision V (addedNodes ops) → (runRing V ops).getPrimaryNode key ≠ .ok n →
      ((runRing V ops).removeNode n).getPrimaryNode key = (runRing V ops).getPrimaryNode key) :=
  ⟨getPrimaryNode_addNode _ n key, fun hc hprev =>
    getPrimaryNode_removeNode hc (ringInv_runRing ops hc fun _ h => h) n key hprev⟩

theorem primary_moves_trio :
    NoCollision 2 (addedNodes trioOps) ∧
    (runRing 2 trioOps).getPrimaryNode (Bytes.ofString "k") ≠ .ok (Bytes.ofString "n1") ∧
    ((runRing 2 trioOps).removeNode (Bytes.ofString "n1")).getPrimaryNode (Bytes.ofString "k") =
      (runRing 2 trioOps).getPrimaryNode (Bytes.ofString "k") := by
  have hc : NoCollision 2 (addedNodes trioOps) := by decide
  have hp : (runRing 2 trioOps).getPrimaryNode (Bytes.ofString "k") ≠ .ok (Bytes.ofString "n1") :=
    fun h => absurd (congrArg Except.toOption h) (by decide)
  exact ⟨hc, hp, (primary_moves_minimally 2 trioOps _ _).2 hc hp⟩

/-- A leave that moves another node's keys: `collidingB` took over the
position it shares with `collidingA`, and `RemoveNode(collidingA)` erases
it, so every key, all of them `collidingB`'s, is left with no primary. -/
theorem leave_moves_other_keys :
    (runRing 1 [.addNode collidingA, .addNode collidingB]).getPrimaryNode (Bytes.ofString "k") =
      .ok collidingB ∧
    collidingB ∈ ((runRing 1 [.addNode collidingA, .addNode collidingB]).removeNode
      collidingA).physicalNodes ∧
    ((runRing 1 [.addNode collidingA, .addNode collidingB]).removeNode collidingA).getPrimaryNode
      (Bytes.ofString "k") = .error emptyRingError :=
  ⟨getPrimaryNode_singleton (4158874788, collidingB) (by decide) _, by decide,
    getPrimaryNode_nil _ (by decide)⟩

end KvStore.Cluster
