/-
KvStore.Cluster.Gossip — the membership protocol of
`cluster/membership.cpp` across a cluster: `n` nodes started by `main`,
whose `GossipLoop` and `ContactSeeds` send their `CreateGossipMessage` to
one another with `KVClient::SendGossip` and drop the response, and whose
heartbeat updates and `FailureDetectionLoop` passes run at any time, in any
order.

## What every run keeps

A node's entries are all stored under their own id and each names a node
of the cluster at the host and port that node was started with
(`MembersOk`). `AddMember` inserts an unknown entry verbatim and otherwise
changes only the heartbeat and the alive flag, `RemoveMember` only the
flag, the heartbeat update only the own heartbeat; a gossip message carries
only the sender's entries. The ring holds only known ids (`Safe`, from
`KvStore.Cluster.Membership`) and every ring position is a virtual node of
a ring node (`RingSound`).

The wire enters through the size of a gossip message: `5` bytes of header
and `19 + |node_id| + |host|` per entry (`size_createGossipMessage`). A
sender knows at most `n` ids, so when every node's id and host together
take at most `L` bytes and `5 + n (19 + L) < 2 ^ 32`, every message's size
is exact in its `uint32_t` header, and the receiver either merges exactly
the sender's entries or, over `MAX_MESSAGE_SIZE`, rejects the frame and
stays as it was (`push_cases`).

## Results

* `members_name_cluster_nodes`: in every reachable state, every entry of
  every node's member map is stored under its id and names a node of the
  cluster at that node's own address: gossip invents no member and no
  address.
* `replicas_reach_owners`: every replica that `ReplicatedPut`,
  `ReplicatedGet` or `ReplicatedDelete` picks from a coordinator's ring has
  a member entry, and the address `GetMember` gives for it when it is alive
  is the one that replica was started with.
* `replicas_dial_wildcard_host`: `main` starts every node with
  `host = "0.0.0.0"` (`mainSelf`), and nothing in the protocol resolves it,
  so that address is `"0.0.0.0"` with the replica's own port. A remote call
  goes to the coordinator's own machine at that port: it reaches the
  replica when all nodes run on one machine with distinct ports, as in the
  README's three-node example, and not across machines.

The cluster is closed: gossip comes only from its nodes. A `GOSSIP`
request from elsewhere is handled like any other, and its entries are
merged as they come.
-/
import KvStore.Cluster.Wire
import KvStore.Cluster.Routing
import Mathlib.Algebra.Order.BigOperators.Group.List
import Mathlib.Algebra.Order.Group.Nat
import Mathlib.Algebra.Group.Action.Defs
import Mathlib.Algebra.Order.Ring.Nat

namespace KvStore.Cluster.Gossip

open Protocol Protocol.ByteBuffer Storage Server

/-! ## 1. Addresses -/

/-- What the remote branches of `ReplicatedPut` / `ReplicatedGet` /
`ReplicatedDelete` connect to: `GetMember(node_id)`, nothing when the id is
unknown or `!member->is_alive`, else its `host` and `port`. -/
def memberAddress (members : Members) (nodeId : Bytes) : Option (Bytes × UInt16) :=
  match members.lookup nodeId with
  | some m => if m.isAlive then some (m.host, m.port) else none
  | none => none

theorem memberAddress_eq_some {members : Members} {nodeId host : Bytes} {port : UInt16}
    (h : memberAddress members nodeId = some (host, port)) :
    ∃ m, members.lookup nodeId = some m ∧ m.host = host ∧ m.port = port := by
  unfold memberAddress at h
  split at h
  next m hm =>
    split_ifs at h
    cases h
    exact ⟨m, hm, rfl, rfl⟩
  next => cases h

section Entries

variable {n : Nat} (cfg : Fin n → NodeInfo)

/-- `e` names node `k` of the cluster at the host and port `k` was started
with. -/
def Addressed (e : NodeInfo) : Prop :=
  ∃ k, (cfg k).nodeId = e.nodeId ∧ (cfg k).host = e.host ∧ (cfg k).port = e.port

/-- Every entry is stored under its own id and is addressed. -/
def MembersOk (m : Members) : Prop :=
  ∀ x e, m.lookup x = some e → e.nodeId = x ∧ Addressed cfg e

/-- A call whose gossip entry, if any, is addressed. -/
def Admissible (c : MemberCall) : Prop := ∀ info, c = .gossipEntry info → Addressed cfg info

/-- What a node of the cluster keeps between calls: its callbacks have run,
its membership is `Safe`, its entries are sound and so is its ring. -/
structure NodeOk (w : WiredNode) : Prop where
  pending : w.pending = []
  safe : Safe w
  members : MembersOk cfg w.members
  ring : RingSound w.ring

variable {cfg}

theorem membersOk_addMemberLocked {m : Members} (hm : MembersOk cfg m) {node : NodeInfo}
    (hn : Addressed cfg node) : MembersOk cfg (addMemberLocked m node).1 := by
  intro x e he
  rw [lookup_addMemberLocked] at he
  split_ifs at he with hx
  · subst hx
    cases hc : m.lookup node.nodeId with
    | none =>
      rw [hc] at he
      cases he
      exact ⟨rfl, hn⟩
    | some cur =>
      rw [hc, mergeEntry_some] at he
      obtain ⟨hid, hk⟩ := hm _ _ hc
      split_ifs at he <;> (cases he; exact ⟨hid, hk⟩)
  · exact hm x e he

theorem membersOk_touchSelf {m : Members} (hm : MembersOk cfg m) {selfId : Bytes} {cur : NodeInfo}
    (hs : m.lookup selfId = some cur) (now : Timestamp) : MembersOk cfg (touchSelf selfId m now) := by
  intro x e he
  rw [lookup_touchSelf] at he
  split_ifs at he with hx
  · rw [hs] at he
    cases he
    subst hx
    exact hm _ cur hs
  · exact hm x e he

theorem membersOk_removeMemberLocked {m m' : Members} (hm : MembersOk cfg m) {selfId nodeId : Bytes}
    (h : removeMemberLocked selfId m nodeId = some m') : MembersOk cfg m' := by
  unfold removeMemberLocked at h
  split_ifs at h
  obtain ⟨cur, hc, rfl⟩ := Option.map_eq_some'.mp h
  intro x e he
  by_cases hx : x = nodeId
  · subst hx
    rw [AList.lookup_insert] at he
    cases he
    exact hm _ cur hc
  · rw [AList.lookup_insert_ne hx] at he
    exact hm x e he

/-- One membership call keeps the entries sound, when the entry a gossip
call merges is addressed. -/
theorem membersOk_call {w : WiredNode} (hm : MembersOk cfg w.members) (hs : Safe w) (c : MemberCall)
    (hc : Admissible cfg c) : MembersOk cfg (w.call c).members := by
  cases c with
  | gossipEntry info =>
    rw [call_gossipEntry]
    split_ifs
    · exact hm
    · exact membersOk_addMemberLocked hm (hc info rfl)
  | removeMember nodeId =>
    show MembersOk cfg (w.removeMember nodeId).members
    unfold WiredNode.removeMember
    split
    · exact hm
    next m' h => exact membersOk_removeMemberLocked hm h
  | heartbeat now =>
    have hsa := hs.selfAlive
    unfold aliveIn at hsa
    split at hsa
    next cur hcur => exact membersOk_touchSelf hm hcur now
    next => cases hsa

/-! ## 2. One node -/

theorem ringSound_step {w w' : WiredNode} (hs : Step w w') (hr : RingSound w.ring) :
    RingSound w'.ring := by
  cases hs with
  | removeMember nodeId =>
    unfold WiredNode.beginRemoveMember
    split
    · exact hr
    · exact hr
  | callback pre post op h => exact hr.apply op
  | _ => exact hr

theorem ringSound_of_run {w w' : WiredNode} (h : Relation.ReflTransGen Step w w')
    (hr : RingSound w.ring) : RingSound w'.ring := by
  induction h with
  | refl => exact hr
  | tail _ hs ih => exact ringSound_step hs ih

theorem NodeOk.call {w : WiredNode} (h : NodeOk cfg w) {c : MemberCall} (hc : Admissible cfg c) :
    NodeOk cfg (w.call c) :=
  have hrun := call_reachable h.pending c
  ⟨hrun.2, safe_of_run hrun.1 h.safe, membersOk_call h.members h.safe c hc,
    ringSound_of_run hrun.1 h.ring⟩

theorem NodeOk.runCalls {calls : List MemberCall} (hc : ∀ c ∈ calls, Admissible cfg c) :
    ∀ {w : WiredNode}, NodeOk cfg w → NodeOk cfg (w.runCalls calls) := by
  induction calls with
  | nil => exact id
  | cons c cs ih =>
    exact fun h => ih (fun c' hc' => hc c' (List.mem_cons_of_mem _ hc'))
      (h.call (hc c (List.mem_cons_self _ _)))

theorem nodeOk_start (i : Fin n) (now : Timestamp) : NodeOk cfg (WiredNode.start (cfg i) now) where
  pending := rfl
  safe := safe_start _ _
  members x e he := by
    by_cases hx : x = (cfg i).nodeId
    · subst hx
      rw [WiredNode.start, AList.lookup_insert] at he
      cases he
      exact ⟨rfl, i, rfl, rfl, rfl⟩
    · rw [WiredNode.start, AList.lookup_insert_ne hx] at he
      cases he
  ring := RingSound.apply (fun e he => by simp [ConsistentHashRing.new] at he) (.addNode _)

theorem handleGossipEntries_eq_runCalls (w : WiredNode) (entries : List NodeInfo) :
    w.handleGossipEntries entries = w.runCalls (entries.map .gossipEntry) := by
  rw [WiredNode.runCalls, List.foldl_map]
  rfl

theorem detectFailures_eq_runCalls (w : WiredNode) (now : Timestamp) :
    w.detectFailures now =
      w.runCalls ((failedMembers w.self.nodeId w.members now).map .removeMember) := by
  rw [WiredNode.runCalls, List.foldl_map]
  rfl

/-! ## 3. A gossip message on the wire -/

theorem length_encodeGossipEntry (m : NodeInfo) :
    (encodeGossipEntry m).length = 19 + m.nodeId.length + m.host.length := by
  simp only [encodeGossipEntry, encodeString, List.length_append, length_toBytesBE,
    List.length_singleton]
  omega

/-- `CreateGossipMessage`: the op byte and the count, then each member. -/
theorem size_createGossipMessage (members : Members) :
    (createGossipMessage members).size =
      5 + ((members.entries.map (·.2)).map fun m => 19 + m.nodeId.length + m.host.length).sum := by
  rw [size, createGossipMessage_data, List.length_cons, List.length_append, length_toBytesBE,
    List.length_flatten, List.map_map]
  simp only [Function.comp_def, length_encodeGossipEntry]
  omega

theorem addressed_of_mem_entries {m : Members} (hm : MembersOk cfg m) {e : NodeInfo}
    (he : e ∈ m.entries.map (·.2)) : Addressed cfg e := by
  obtain ⟨⟨x, e⟩, hx, rfl⟩ := List.mem_map.mp he
  exact (hm x e (AList.mem_lookup_iff.mpr hx)).2

/-- A sound member map knows at most the `n` ids of the cluster. -/
theorem length_entries_le {m : Members} (hm : MembersOk cfg m) : m.entries.length ≤ n := by
  have hsub : m.keys.toFinset ⊆ Finset.univ.image fun k => (cfg k).nodeId := by
    intro x hx
    obtain ⟨e, he⟩ := Option.isSome_iff_exists.mp
      (AList.lookup_isSome.mpr (AList.mem_keys.mp (List.mem_toFinset.mp hx)))
    obtain ⟨rfl, k, hk, -⟩ := hm x e he
    exact Finset.mem_image.mpr ⟨k, Finset.mem_univ _, hk⟩
  calc m.entries.length = m.keys.toFinset.card := by
        rw [List.toFinset_card_of_nodup m.keys_nodup, AList.keys, List.keys, List.length_map]
    _ ≤ (Finset.univ.image fun k => (cfg k).nodeId).card := Finset.card_le_card hsub
    _ ≤ n := Finset.card_image_le.trans (Finset.card_fin n).le

section Bound

variable {L : Nat} (hL : ∀ k, (cfg k).nodeId.length + (cfg k).host.length ≤ L)
include hL

theorem size_createGossipMessage_le {m : Members} (hm : MembersOk cfg m) :
    (createGossipMessage m).size ≤ 5 + n * (19 + L) := by
  have hterm : ∀ t ∈ (m.entries.map (·.2)).map fun e => 19 + e.nodeId.length + e.host.length,
      t ≤ 19 + L := by
    intro t ht
    obtain ⟨e, he, rfl⟩ := List.mem_map.mp ht
    obtain ⟨k, h₁, h₂, -⟩ := addressed_of_mem_entries hm he
    have := hL k
    rw [h₁, h₂] at this
    omega
  have hsum := List.sum_le_card_nsmul _ _ hterm
  rw [List.length_map, List.length_map, smul_eq_mul] at hsum
  rw [size_createGossipMessage]
  have := Nat.mul_le_mul_right (19 + L) (length_entries_le hm)
  omega

/-- A push between nodes of the cluster: the receiver merges exactly the
sender's entries when the message fits a frame, and is left as it was when
it does not. -/
theorem push_cases (hbound : 5 + n * (19 + L) < 2 ^ 32) (repl : Replication) (a b : Node)
    (hm : MembersOk cfg a.cluster.members) :
    (sendRequest repl b (createGossipMessage a.cluster.members)).2 =
      if (createGossipMessage a.cluster.members).size ≤ Config.maxMessageSize then
        { b with cluster := b.cluster.handleGossipEntries (a.cluster.members.entries.map (·.2)) }
      else b := by
  have hsize := size_createGossipMessage_le hL hm
  split_ifs with hcap
  · have hfit : ∀ e ∈ a.cluster.members.entries.map (·.2),
        e.nodeId.length < 2 ^ 32 ∧ e.host.length < 2 ^ 32 := by
      intro e he
      obtain ⟨k, h₁, h₂, -⟩ := addressed_of_mem_entries hm he
      have hk := hL k
      have := Nat.le_mul_of_pos_left (19 + L) (Fin.pos k)
      rw [h₁, h₂] at hk
      omega
    have hcount : a.cluster.members.entries.length < 2 ^ 32 := by
      have := length_entries_le hm
      have := Nat.le_mul_of_pos_right n (show 0 < 19 + L by omega)
      omega
    rw [sendRequest_eq repl b _ hcap, handleRequest_gossip repl b _ hfit hcount]
  · have hs := recvMessage_of_too_big _ [] (not_le.mp hcap) (by omega)
    rw [List.append_nil] at hs
    simp only [sendRequest, hs]

end Bound

end Entries

/-! ## 4. The cluster -/

/-- The nodes of a cluster of `n`. -/
abbrev World (n : Nat) := Fin n → Node

/-- One event of the cluster. -/
inductive Step {n : Nat} (repl : Replication) : World n → World n → Prop
  /-- Node `i`'s `GossipLoop` or `ContactSeeds` sends its
  `CreateGossipMessage` to node `j` (`KVClient::SendGossip`); node `j`
  handles it, and `i` drops the response. -/
  | push (w : World n) (i j : Fin n) :
      Step repl w (Function.update w j
        (sendRequest repl (w j) (createGossipMessage (w i).cluster.members)).2)
  /-- Node `i`'s heartbeat update. -/
  | heartbeat (w : World n) (i : Fin n) (now : Timestamp) :
      Step repl w (Function.update w i { w i with cluster := (w i).cluster.heartbeat now })
  /-- A `FailureDetectionLoop` pass at node `i`. -/
  | detect (w : World n) (i : Fin n) (now : Timestamp) :
      Step repl w (Function.update w i { w i with cluster := (w i).cluster.detectFailures now })

/-- Every node as `main` starts it on its own `NodeInfo`. -/
def Started {n : Nat} (cfg : Fin n → NodeInfo) (w : World n) : Prop :=
  ∀ i, ∃ now, (w i).cluster = WiredNode.start (cfg i) now

/-- The `NodeInfo self` that `main` builds: `node_id` and `port` from the
command line, `host = "0.0.0.0"`, and the defaults of `types.h` for the
rest. -/
def mainSelf (nodeId : Bytes) (port : UInt16) : NodeInfo :=
  ⟨nodeId, Bytes.ofString "0.0.0.0", port, true, 0⟩

section Runs

variable {n : Nat} {cfg : Fin n → NodeInfo}

/-- Every node keeps `NodeOk`. -/
def Inv (cfg : Fin n → NodeInfo) (w : World n) : Prop := ∀ i, NodeOk cfg (w i).cluster

theorem Inv.update {w : World n} (hi : Inv cfg w) (j : Fin n) {node : Node}
    (h : NodeOk cfg node.cluster) : Inv cfg (Function.update w j node) := by
  intro k
  by_cases hk : k = j
  · subst hk
    rw [Function.update_same]
    exact h
  · rw [Function.update_noteq hk]
    exact hi k

theorem inv_of_started {w : World n} (h : Started cfg w) : Inv cfg w := by
  intro i
  obtain ⟨now, hw⟩ := h i
  rw [hw]
  exact nodeOk_start i now

variable {L : Nat} (hL : ∀ k, (cfg k).nodeId.length + (cfg k).host.length ≤ L)
  (hbound : 5 + n * (19 + L) < 2 ^ 32)
include hL hbound

theorem Inv.step {repl : Replication} {w w' : World n} (hs : Step repl w w') (hi : Inv cfg w) :
    Inv cfg w' := by
  cases hs with
  | push i j =>
    refine hi.update j ?_
    rw [push_cases hL hbound repl (w i) (w j) (hi i).members]
    split_ifs
    · show NodeOk cfg ((w j).cluster.handleGossipEntries _)
      rw [handleGossipEntries_eq_runCalls]
      refine (hi j).runCalls fun c hc info hinfo => ?_
      obtain ⟨e, he, rfl⟩ := List.mem_map.mp hc
      cases hinfo
      exact addressed_of_mem_entries (hi i).members he
    · exact hi j
  | heartbeat i now =>
    exact hi.update i (show NodeOk cfg ((w i).cluster.call (.heartbeat now)) from
      (hi i).call fun _ h => by cases h)
  | detect i now =>
    refine hi.update i ?_
    show NodeOk cfg ((w i).cluster.detectFailures now)
    rw [detectFailures_eq_runCalls]
    refine (hi i).runCalls fun c hc info hinfo => ?_
    obtain ⟨x, -, rfl⟩ := List.mem_map.mp hc
    cases hinfo

theorem inv_of_run {repl : Replication} {w₀ w : World n} (h₀ : Started cfg w₀)
    (hrun : Relation.ReflTransGen (Step repl) w₀ w) : Inv cfg w := by
  induction hrun with
  | refl => exact inv_of_started h₀
  | tail _ hs ih => exact Inv.step hL hbound hs ih

end Runs

/-! ## 5. Results -/

theorem mem_collectNodes {count : Int} :
    ∀ (l : RingMap) (result : List Bytes) {x : Bytes},
      x ∈ ConsistentHashRing.collectNodes count l result →
      x ∈ result ∨ ∃ e ∈ l, e.2 = x
  | [], _, _, h => .inl h
  | e :: rest, result, x, h => by
    unfold ConsistentHashRing.collectNodes at h
    split_ifs at h with hc hm
    · exact (mem_collectNodes rest result h).imp id fun ⟨e', he', hx⟩ => ⟨e', .tail _ he', hx⟩
    · rcases mem_collectNodes rest _ h with hx | ⟨e', he', hx⟩
      · rcases List.mem_append.mp hx with hx | hx
        · exact .inl hx
        · exact .inr ⟨e, List.mem_cons_self _ _, (List.mem_singleton.mp hx).symm⟩
      · exact .inr ⟨e', .tail _ he', hx⟩
    · exact .inl h

theorem subset_collectNodes {count : Int} :
    ∀ (l : RingMap) (result : List Bytes) {x : Bytes}, x ∈ result →
      x ∈ ConsistentHashRing.collectNodes count l result
  | [], _, _, h => h
  | e :: rest, result, x, h => by
    unfold ConsistentHashRing.collectNodes
    split_ifs
    · exact subset_collectNodes rest result h
    · exact subset_collectNodes rest _ (List.mem_append_left _ h)
    · exact h

theorem mem_of_mem_rotateAt {m : RingMap} {i : Nat} {e : UInt32 × Bytes}
    (he : e ∈ ConsistentHashRing.rotateAt m i) : e ∈ m := by
  rcases List.mem_append.mp he with he | he
  exacts [List.mem_of_mem_drop he, List.mem_of_mem_take he]

theorem rotateAt_ne_nil {m : RingMap} (hm : m ≠ []) (i : Nat) :
    ConsistentHashRing.rotateAt m i ≠ [] := by
  intro h
  rw [ConsistentHashRing.rotateAt, List.append_eq_nil] at h
  have := List.take_append_drop i m
  rw [h.1, h.2] at this
  exact hm this.symm

/-- The first entry of the walk is collected, when at least one id is asked for. -/
theorem head_mem_collectNodes {count : Int} (hc : 0 < count) (e : UInt32 × Bytes) (rest : RingMap) :
    e.2 ∈ ConsistentHashRing.collectNodes count (e :: rest) [] := by
  rw [ConsistentHashRing.collectNodes, if_pos (by simpa using hc), if_neg (List.not_mem_nil _)]
  exact subset_collectNodes rest _ (List.mem_singleton_self _)

theorem replicasFor_of_ne_nil {r : ConsistentHashRing} (hne : r.ring ≠ []) (N : Int) (key : Bytes) :
    replicasFor r N key = ConsistentHashRing.collectNodes
      (if N > (r.physicalNodes.card : Int) then r.physicalNodes.card else N)
      (ConsistentHashRing.rotateAt r.ring (ConsistentHashRing.upperBound r.ring (hash key))) [] := by
  unfold replicasFor ConsistentHashRing.getNodes
  rw [if_neg hne]

/-- The replicas of a key are nodes of a sound ring. -/
theorem mem_physicalNodes_of_replicasFor {r : ConsistentHashRing} (hr : RingSound r) {N : Int}
    {key x : Bytes} (hx : x ∈ replicasFor r N key) : x ∈ r.physicalNodes := by
  unfold replicasFor ConsistentHashRing.getNodes at hx
  split_ifs at hx
  · cases hx
  · rcases mem_collectNodes _ [] hx with hx | ⟨e, he, rfl⟩
    · cases hx
    · exact (hr e (mem_of_mem_rotateAt he)).1

variable {n : Nat} {L : Nat} {repl : Replication} {cfg : Fin n → NodeInfo} {w₀ w : World n}

/-- Gossip invents no member and no address: in every state a cluster
reaches, every entry of every node's member map is stored under its own id
and names a node of the cluster, at the host and port that node was
started with. -/
theorem members_name_cluster_nodes
    (hL : ∀ k, (cfg k).nodeId.length + (cfg k).host.length ≤ L)
    (hbound : 5 + n * (19 + L) < 2 ^ 32) (h₀ : Started cfg w₀)
    (hrun : Relation.ReflTransGen (Step repl) w₀ w) (i : Fin n) (x : Bytes) (e : NodeInfo)
    (he : (w i).cluster.members.lookup x = some e) :
    e.nodeId = x ∧ ∃ k, (cfg k).nodeId = x ∧ (cfg k).host = e.host ∧ (cfg k).port = e.port := by
  obtain ⟨rfl, k, h₁, h₂, h₃⟩ := (inv_of_run hL hbound h₀ hrun i).members x e he
  exact ⟨rfl, k, h₁, h₂, h₃⟩

/-- Replication reaches the replicas it picks: in every state a cluster
reaches, every replica that `ReplicatedPut`, `ReplicatedGet` or
`ReplicatedDelete` takes from a node's ring has a member entry there, and
the address `GetMember` gives for it, when it is alive, is that replica's
own. -/
theorem replicas_reach_owners
    (hL : ∀ k, (cfg k).nodeId.length + (cfg k).host.length ≤ L)
    (hbound : 5 + n * (19 + L) < 2 ^ 32) (h₀ : Started cfg w₀)
    (hrun : Relation.ReflTransGen (Step repl) w₀ w) (i : Fin n) (N : Int) (key x : Bytes)
    (hx : x ∈ replicasFor (w i).cluster.ring N key) :
    x ∈ (w i).cluster.members ∧ ∀ host port, memberAddress (w i).cluster.members x = some (host, port) →
      ∃ k, (cfg k).nodeId = x ∧ (cfg k).host = host ∧ (cfg k).port = port := by
  have hi := inv_of_run hL hbound h₀ hrun i
  refine ⟨hi.safe.ringKnown x (mem_physicalNodes_of_replicasFor hi.ring hx), fun host port ha => ?_⟩
  obtain ⟨e, he, rfl, rfl⟩ := memberAddress_eq_some ha
  obtain ⟨rfl, k, h₁, h₂, h₃⟩ := hi.members x e he
  exact ⟨k, h₁, h₂, h₃⟩

/-- Replication dials the wildcard host: in a cluster started by `main`,
where every node advertises `"0.0.0.0"`, the address `GetMember` gives a
coordinator for a replica it takes from its ring is `"0.0.0.0"` with the
port that replica was started on, in every state the cluster reaches. -/
theorem replicas_dial_wildcard_host {ids : Fin n → Bytes} {ports : Fin n → UInt16}
    (hL : ∀ k, (ids k).length + 7 ≤ L) (hbound : 5 + n * (19 + L) < 2 ^ 32)
    (h₀ : Started (fun k => mainSelf (ids k) (ports k)) w₀)
    (hrun : Relation.ReflTransGen (Step repl) w₀ w) (i : Fin n) (N : Int) (key x : Bytes)
    (hx : x ∈ replicasFor (w i).cluster.ring N key) :
    x ∈ (w i).cluster.members ∧ ∀ host port, memberAddress (w i).cluster.members x = some (host, port) →
      host = Bytes.ofString "0.0.0.0" ∧ ∃ k, ids k = x ∧ ports k = port := by
  refine (replicas_reach_owners hL hbound h₀ hrun i N key x hx).imp_right fun h host port ha => ?_
  obtain ⟨k, h₁, h₂, h₃⟩ := h host port ha
  exact ⟨h₂.symm, k, h₁, h₃⟩

/-- A freshly started node is the replica of every key on its own ring. -/
theorem mem_replicasFor_start (self : NodeInfo) (now : Timestamp) (key : Bytes) :
    self.nodeId ∈ replicasFor (WiredNode.start self now).ring 1 key := by
  have hnil : (ConsistentHashRing.new Config.virtualNodesPerNode).ring.Pairwise PosLt :=
    List.Pairwise.nil
  have hring : (WiredNode.start self now).ring.ring =
      insertAll self.nodeId (vnodePositions (ConsistentHashRing.new Config.virtualNodesPerNode).virtualNodes
        self.nodeId) (ConsistentHashRing.new Config.virtualNodesPerNode).ring := by
    show ((ConsistentHashRing.new Config.virtualNodesPerNode).addNode self.nodeId).ring = _
    rw [ConsistentHashRing.addNode, if_neg (show self.nodeId ∉
      (ConsistentHashRing.new Config.virtualNodesPerNode).physicalNodes from Finset.not_mem_empty _)]
  have hall : ∀ e ∈ (WiredNode.start self now).ring.ring, e.2 = self.nodeId := by
    intro e he
    rw [hring, mem_insertAll _ hnil] at he
    rcases he with ⟨-, he⟩ | ⟨he, -⟩
    exacts [he, absurd he (List.not_mem_nil _)]
  have hne : (WiredNode.start self now).ring.ring ≠ [] := by
    rw [hring]
    exact List.ne_nil_of_mem ((mem_insertAll _ hnil
      (hash (vnodeKey self.nodeId 0), self.nodeId)).mpr
      (.inl ⟨List.mem_map.mpr ⟨0, List.mem_range.mpr (by decide), rfl⟩, rfl⟩))
  have hcard : (WiredNode.start self now).ring.physicalNodes.card = 1 := by
    simp [WiredNode.start, ConsistentHashRing.new]
  rw [replicasFor_of_ne_nil hne, hcard, if_neg (by decide)]
  obtain ⟨e, rest, hl⟩ := List.exists_cons_of_ne_nil (rotateAt_ne_nil hne
    (ConsistentHashRing.upperBound (WiredNode.start self now).ring.ring (hash key)))
  rw [hl, ← hall e (mem_of_mem_rotateAt (by rw [hl]; exact List.mem_cons_self e rest))]
  exact head_mem_collectNodes (by decide) e rest

/-- The ids of a two-node cluster. -/
def duoIds (k : Fin 2) : Bytes := if k = 0 then Bytes.ofString "n1" else Bytes.ofString "n2"

/-- Their ports. -/
def duoPorts (k : Fin 2) : UInt16 := if k = 0 then 7001 else 7002

/-- The two nodes as `main` starts them. -/
def duoConfig (k : Fin 2) : NodeInfo := mainSelf (duoIds k) (duoPorts k)

/-- That cluster at start-up. -/
def duoCluster : World 2 := fun k =>
  ⟨duoIds k, StorageEngine.ofFile [], WiredNode.start (duoConfig k) 0⟩

/-- After `n1` pushes its members to `n2`. -/
def duoPushed : World 2 :=
  Function.update duoCluster 1
    (sendRequest okReplication (duoCluster 1) (createGossipMessage (duoCluster 0).cluster.members)).2

theorem duoConfig_fits : ∀ k, (duoIds k).length + 7 ≤ 9 := by decide

theorem duoCluster_push : Relation.ReflTransGen (Step okReplication) duoCluster duoPushed :=
  .single (.push duoCluster 0 1)

/-- What `n2` holds about `n1` after the push: `n1`'s own entry, verbatim. -/
theorem members_name_cluster_nodes_pushed :
    (duoPushed 1).cluster.members.lookup (Bytes.ofString "n1") = some (duoConfig 0) ∧
    (duoConfig 0).nodeId = Bytes.ofString "n1" ∧
      ∃ k, (duoConfig k).nodeId = Bytes.ofString "n1" ∧ (duoConfig k).host = (duoConfig 0).host ∧
        (duoConfig k).port = (duoConfig 0).port :=
  have he : (duoPushed 1).cluster.members.lookup (Bytes.ofString "n1") = some (duoConfig 0) := by
    decide
  ⟨he, members_name_cluster_nodes duoConfig_fits (by decide) (fun _ => ⟨0, rfl⟩) duoCluster_push
    1 _ _ he⟩

/-- After the push, `n1` is the replica of a key on its own ring, and
dialling it means `"0.0.0.0"` at port 7001. -/
theorem replicas_dial_wildcard_host_pushed :
    Bytes.ofString "n1" ∈ replicasFor (duoPushed 0).cluster.ring 1 (Bytes.ofString "k") ∧
    Bytes.ofString "n1" ∈ (duoPushed 0).cluster.members ∧ ∀ host port,
      memberAddress (duoPushed 0).cluster.members (Bytes.ofString "n1") = some (host, port) →
        host = Bytes.ofString "0.0.0.0" ∧ ∃ k, duoIds k = Bytes.ofString "n1" ∧ duoPorts k = port :=
  have hx : Bytes.ofString "n1" ∈ replicasFor (duoPushed 0).cluster.ring 1 (Bytes.ofString "k") := by
    rw [duoPushed, Function.update_noteq (by decide)]
    exact mem_replicasFor_start (duoConfig 0) 0 _
  ⟨hx, replicas_dial_wildcard_host duoConfig_fits (by decide) (fun _ => ⟨0, rfl⟩) duoCluster_push
    0 1 _ _ hx⟩

end KvStore.Cluster.Gossip
