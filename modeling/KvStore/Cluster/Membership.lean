/-
KvStore.Cluster.Membership — `MembershipManager` of
`cluster/membership.cpp`, wired to the ring as `main` wires it:
`on_join` → `ring.AddNode`, `on_leave` → `ring.RemoveNode`, and the own id
in both from the start.

`members_` is an `unordered_map`, an association list here: its order
stands for the map's unspecified iteration order. `AddMember` and
`RemoveMember` each update the map under `members_mutex_` and fire their
callback after releasing it, so one call's callback can run after another
call's update. The locked blocks are `addMemberLocked` and
`removeMemberLocked`; a `WiredNode` carries the callbacks fired and not yet
run (`pending`), and `Step` lets any of them run at any time. Running a
call's callback right after its own update is the sequential semantics
`WiredNode.call`; `call_reachable` shows it is one of the interleaved runs,
so what holds of every interleaved run holds of it.

## What the ring tracks

`AddMember` inserts an unknown id verbatim and fires `on_join` whatever its
`is_alive` flag says, so a node first heard of as dead enters the ring and
stays there (`ring_membership_diverges`, first part). With callbacks
racing, a leave can run after a revival's join, leaving an alive member
off the ring (second part). What holds (`ring_tracks_membership`): in every
interleaved run the own entry is alive and on the ring and every ring node
has a member entry; in sequential runs the ring lies between the alive ids
and the known ids, and equals the alive ids when every first sighting
reports the node alive.

## The own entry, failure detection, gossip

`self_entry_stays`: in every interleaved run the own entry is there, alive,
at the address `main` gave it, and no `on_leave` for the own id is queued.
The failure detector subtracts heartbeats in `uint64_t`, so a heartbeat
learned from a peer whose clock runs ahead of the local one wraps the
difference around and marks the peer dead (`isFailed_of_ahead`,
`clock_ahead_marked_dead`); when the heartbeat is not ahead, the test is
the elapsed time (`isFailed_of_le`). `gossip_merge_per_id` says what gossip
leaves at each id: the first sighting's address, the largest heartbeat,
and an alive flag that only a report raising the heartbeat can set; so the
result depends on the order of the reports (`gossip_merge_order_dependent`).
-/
import KvStore.Cluster.Ring
import Mathlib.Logic.Relation

namespace KvStore.Cluster

/-! ## 1. The member map -/

/-- `members_`: node id to what is known of it. -/
abbrev Members := AList (fun _ : Bytes => NodeInfo)

/-- `NodeInfo{}`, the entry `operator[]` creates for a missing id. -/
def blankNodeInfo : NodeInfo := ⟨[], [], 0, true, 0⟩

/-- Whether `n` has an entry marked alive. -/
def aliveIn (members : Members) (n : Bytes) : Bool :=
  match members.lookup n with
  | some info => info.isAlive
  | none => false

/-- The locked block of `AddMember`: the updated map and `is_new`. An unknown
id is inserted verbatim; a known one takes a newer heartbeat, and a revival
(dead entry, alive report) counts as a join. -/
def addMemberLocked (members : Members) (node : NodeInfo) : Members × Bool :=
  match members.lookup node.nodeId with
  | none => (members.insert node.nodeId node, true)
  | some cur =>
    if node.lastHeartbeat > cur.lastHeartbeat then
      if !cur.isAlive && node.isAlive then
        (members.insert node.nodeId
          { cur with lastHeartbeat := node.lastHeartbeat, isAlive := true }, true)
      else (members.insert node.nodeId { cur with lastHeartbeat := node.lastHeartbeat }, false)
    else (members, false)

/-- `RemoveMember`'s checks and locked block: `none` where it returns early
(the own id, an unknown id), otherwise the map with the entry marked dead. -/
def removeMemberLocked (selfId : Bytes) (members : Members) (nodeId : Bytes) :
    Option Members :=
  if nodeId = selfId then none
  else (members.lookup nodeId).map fun cur => members.insert nodeId { cur with isAlive := false }

/-- The gossip loop's `members_[self_.node_id].last_heartbeat = NowMs()`. -/
def touchSelf (selfId : Bytes) (members : Members) (now : Timestamp) : Members :=
  members.insert selfId { (members.lookup selfId).getD blankNodeInfo with lastHeartbeat := now }

/-- The test of `FailureDetectionLoop`: a non-self entry, alive, with
`now - last_heartbeat > FAILURE_TIMEOUT_MS` in `uint64_t` arithmetic. -/
def isFailed (selfId : Bytes) (members : Members) (now : Timestamp) (id : Bytes) : Bool :=
  id != selfId &&
    match members.lookup id with
    | some info => info.isAlive && decide (now - info.lastHeartbeat > Config.failureTimeoutMs)
    | none => false

/-- The ids one pass of `FailureDetectionLoop` hands to `RemoveMember`, in
iteration order. -/
def failedMembers (selfId : Bytes) (members : Members) (now : Timestamp) : List Bytes :=
  members.keys.filter fun id => isFailed selfId members now id

theorem mem_of_lookup_eq_some {members : Members} {n : Bytes} {e : NodeInfo}
    (h : members.lookup n = some e) : n ∈ members :=
  AList.lookup_isSome.mp (by rw [h]; rfl)

theorem aliveIn_insert (members : Members) (k n : Bytes) (e : NodeInfo) :
    aliveIn (members.insert k e) n = if n = k then e.isAlive else aliveIn members n := by
  unfold aliveIn
  split_ifs with h
  · rw [h, AList.lookup_insert]
  · rw [AList.lookup_insert_ne h]

/-- Everything `AddMember`'s locked block can do. -/
theorem addMemberLocked_cases (members : Members) (node : NodeInfo) :
    (node.nodeId ∉ members ∧
      addMemberLocked members node = (members.insert node.nodeId node, true)) ∨
    (∃ cur, members.lookup node.nodeId = some cur ∧ cur.isAlive = false ∧ node.isAlive = true ∧
      addMemberLocked members node = (members.insert node.nodeId
        { cur with lastHeartbeat := node.lastHeartbeat, isAlive := true }, true)) ∨
    (∃ cur e, members.lookup node.nodeId = some cur ∧ e.isAlive = cur.isAlive ∧
      addMemberLocked members node = (members.insert node.nodeId e, false)) ∨
    (node.nodeId ∈ members ∧ addMemberLocked members node = (members, false)) := by
  unfold addMemberLocked
  split
  next h => exact .inl ⟨AList.lookup_eq_none.mp h, rfl⟩
  next cur h =>
    split_ifs with h₁ h₂
    · simp only [Bool.and_eq_true, Bool.not_eq_true'] at h₂
      exact .inr (.inl ⟨cur, h, h₂.1, h₂.2, rfl⟩)
    · exact .inr (.inr (.inl ⟨cur, { cur with lastHeartbeat := node.lastHeartbeat }, h, rfl, rfl⟩))
    · exact .inr (.inr (.inr ⟨mem_of_lookup_eq_some h, rfl⟩))

theorem mem_addMemberLocked {members : Members} {node : NodeInfo} {n : Bytes} :
    n ∈ (addMemberLocked members node).1 ↔ n = node.nodeId ∨ n ∈ members := by
  rcases addMemberLocked_cases members node with ⟨_, h⟩ | ⟨_, _, _, _, h⟩ | ⟨_, _, _, _, h⟩ | ⟨hm, h⟩ <;>
    rw [h] <;> simp only [AList.mem_insert]
  exact ⟨.inr, fun h => h.elim (· ▸ hm) id⟩

/-- `aliveIn` after the locked block: only a reported join changes the
entry's flag, to the reported one. -/
theorem aliveIn_addMemberLocked (members : Members) (node : NodeInfo) (n : Bytes) :
    aliveIn (addMemberLocked members node).1 n =
      if n = node.nodeId ∧ (addMemberLocked members node).2 = true then node.isAlive
      else aliveIn members n := by
  rcases addMemberLocked_cases members node with
    ⟨_, h⟩ | ⟨cur, _, _, hn, h⟩ | ⟨cur, e, hc, he, h⟩ | ⟨_, h⟩ <;> rw [h]
  · simp [aliveIn_insert]
  · simp [aliveIn_insert, hn]
  · simp only [aliveIn_insert, Bool.false_eq_true, and_false, if_false]
    split_ifs with hk
    · subst hk; simp [aliveIn, hc, he]
    · rfl
  · simp

/-- A reported join of a known id is a revival: the report says alive. -/
theorem isAlive_of_join_of_mem {members : Members} {node : NodeInfo}
    (h : (addMemberLocked members node).2 = true) (hm : node.nodeId ∈ members) :
    node.isAlive = true := by
  rcases addMemberLocked_cases members node with
    ⟨hn, _⟩ | ⟨_, _, _, ha, _⟩ | ⟨_, _, _, _, he⟩ | ⟨_, he⟩
  · exact absurd hm hn
  · exact ha
  all_goals rw [he] at h; cases h

/-- What `RemoveMember` does when it does not return early. -/
theorem removeMemberLocked_eq_some {selfId nodeId : Bytes} {members members' : Members}
    (h : removeMemberLocked selfId members nodeId = some members') :
    nodeId ≠ selfId ∧ nodeId ∈ members ∧
      ∃ cur : NodeInfo, members' = members.insert nodeId { cur with isAlive := false } := by
  unfold removeMemberLocked at h
  split_ifs at h with hs
  obtain ⟨cur, hc, rfl⟩ := Option.map_eq_some'.mp h
  exact ⟨hs, mem_of_lookup_eq_some hc, cur, rfl⟩

theorem mem_touchSelf {selfId n : Bytes} {members : Members} {now : Timestamp} :
    n ∈ touchSelf selfId members now ↔ n = selfId ∨ n ∈ members :=
  AList.mem_insert _

/-- The heartbeat update keeps every flag when the own entry is alive. -/
theorem aliveIn_touchSelf {selfId : Bytes} {members : Members} (now : Timestamp)
    (hs : aliveIn members selfId = true) (n : Bytes) :
    aliveIn (touchSelf selfId members now) n = aliveIn members n := by
  rw [touchSelf, aliveIn_insert]
  split_ifs with h
  · subst h
    unfold aliveIn at hs ⊢
    split at hs <;> simp_all
  · rfl

/-- What `AddMember`'s locked block leaves at the entry's id: the entry
itself for an unknown id; for a known one a newer heartbeat, with the flag
raised by an alive report (a revival) and never lowered, and the address
kept. -/
def mergeEntry : Option NodeInfo → NodeInfo → NodeInfo
  | none, node => node
  | some cur, node =>
    if node.lastHeartbeat > cur.lastHeartbeat then
      { cur with lastHeartbeat := node.lastHeartbeat, isAlive := cur.isAlive || node.isAlive }
    else cur

/-- `AddMember` changes one entry, the one at the reported id. -/
theorem lookup_addMemberLocked (members : Members) (node : NodeInfo) (n : Bytes) :
    (addMemberLocked members node).1.lookup n =
      if n = node.nodeId then some (mergeEntry (members.lookup n) node) else members.lookup n := by
  split_ifs with hn
  · subst hn
    unfold addMemberLocked
    split
    next h => rw [h, mergeEntry, AList.lookup_insert]
    next cur h =>
      rw [h, mergeEntry]
      split_ifs with h₁ h₂
      · simp only [Bool.and_eq_true, Bool.not_eq_true'] at h₂
        simp [AList.lookup_insert, h₂.2]
      · simp only [Bool.and_eq_true, Bool.not_eq_true', not_and, Bool.not_eq_true] at h₂
        cases hc : cur.isAlive <;> simp [AList.lookup_insert, hc, h₂]
      · exact h
  · rcases addMemberLocked_cases members node with
      ⟨_, h⟩ | ⟨_, _, _, _, h⟩ | ⟨_, _, _, _, h⟩ | ⟨_, h⟩ <;> rw [h] <;>
      exact AList.lookup_insert_ne hn

/-- The heartbeat update changes the own entry's heartbeat and nothing else. -/
theorem lookup_touchSelf (selfId : Bytes) (members : Members) (now : Timestamp) (n : Bytes) :
    (touchSelf selfId members now).lookup n =
      if n = selfId then some { (members.lookup selfId).getD blankNodeInfo with lastHeartbeat := now }
      else members.lookup n := by
  split_ifs with hn
  · rw [hn, touchSelf, AList.lookup_insert]
  · exact AList.lookup_insert_ne hn

/-! ## 2. The wired node -/

/-- A node's membership state and ring, with the callbacks fired after an
update and not yet run. -/
structure WiredNode where
  self : NodeInfo
  members : Members
  ring : ConsistentHashRing
  pending : List RingOp

namespace WiredNode

/-- `main`: `ring.AddNode(self)` on `ConsistentHashRing(VIRTUAL_NODES_PER_NODE)`,
and `MembershipManager(self)`, whose own entry is alive and stamped `now`. -/
def start (self : NodeInfo) (now : Timestamp) : WiredNode :=
  let self := { self with lastHeartbeat := now, isAlive := true }
  ⟨self, (∅ : Members).insert self.nodeId self,
    (ConsistentHashRing.new Config.virtualNodesPerNode).addNode self.nodeId, []⟩

/-- `AddMember` with its `on_join` run at once. -/
def addMember (w : WiredNode) (node : NodeInfo) : WiredNode :=
  { w with
    members := (addMemberLocked w.members node).1
    ring := if (addMemberLocked w.members node).2 then w.ring.addNode node.nodeId else w.ring }

/-- `RemoveMember` with its `on_leave` run at once. -/
def removeMember (w : WiredNode) (nodeId : Bytes) : WiredNode :=
  match removeMemberLocked w.self.nodeId w.members nodeId with
  | none => w
  | some members => { w with members, ring := w.ring.removeNode nodeId }

/-- The gossip loop's heartbeat update. -/
def heartbeat (w : WiredNode) (now : Timestamp) : WiredNode :=
  { w with members := touchSelf w.self.nodeId w.members now }

/-- `HandleGossipMessage` on its decoded entries: `AddMember` for every
entry that does not name the own id. -/
def handleGossipEntries (w : WiredNode) (entries : List NodeInfo) : WiredNode :=
  entries.foldl (fun w info => if info.nodeId = w.self.nodeId then w else w.addMember info) w

/-- The locked block of `AddMember`, its `on_join` queued. -/
def beginAddMember (w : WiredNode) (node : NodeInfo) : WiredNode :=
  { w with
    members := (addMemberLocked w.members node).1
    pending := if (addMemberLocked w.members node).2 then w.pending ++ [.addNode node.nodeId]
      else w.pending }

/-- The locked block of `RemoveMember`, its `on_leave` queued. -/
def beginRemoveMember (w : WiredNode) (nodeId : Bytes) : WiredNode :=
  match removeMemberLocked w.self.nodeId w.members nodeId with
  | none => w
  | some members => { w with members, pending := w.pending ++ [.removeNode nodeId] }

/-- Running a queued callback on the ring. -/
def runCallback (w : WiredNode) (op : RingOp) (rest : List RingOp) : WiredNode :=
  { w with ring := op.apply w.ring, pending := rest }

end WiredNode

/-- A call on a wired node, run to completion. -/
inductive MemberCall
  | gossipEntry (info : NodeInfo)
  | removeMember (nodeId : Bytes)
  | heartbeat (now : Timestamp)
  deriving DecidableEq, Repr

/-- One call with its callback run before the next call starts. -/
def WiredNode.call (w : WiredNode) : MemberCall → WiredNode
  | .gossipEntry info => w.handleGossipEntries [info]
  | .removeMember nodeId => w.removeMember nodeId
  | .heartbeat now => w.heartbeat now

/-- Calls run one after another. -/
def WiredNode.runCalls (w : WiredNode) (calls : List MemberCall) : WiredNode :=
  calls.foldl WiredNode.call w

/-- Every gossip entry of the run that names an unknown id reports it alive. -/
def joinsAlive : WiredNode → List MemberCall → Bool
  | _, [] => true
  | w, c :: cs =>
    (match c with
      | .gossipEntry info => decide (info.nodeId ∈ w.members) || info.isAlive
      | _ => true) && joinsAlive (w.call c) cs

/-- The interleaved semantics: a gossip handler's or the failure detector's
locked update, the heartbeat update, or any queued callback. -/
inductive Step : WiredNode → WiredNode → Prop
  | addMember (w : WiredNode) (node : NodeInfo) (h : node.nodeId ≠ w.self.nodeId) :
      Step w (w.beginAddMember node)
  | removeMember (w : WiredNode) (nodeId : Bytes) : Step w (w.beginRemoveMember nodeId)
  | heartbeat (w : WiredNode) (now : Timestamp) : Step w (w.heartbeat now)
  | callback (w : WiredNode) (pre post : List RingOp) (op : RingOp)
      (h : w.pending = pre ++ op :: post) : Step w (w.runCallback op (pre ++ post))

theorem call_gossipEntry (w : WiredNode) (info : NodeInfo) :
    w.call (.gossipEntry info) = if info.nodeId = w.self.nodeId then w else w.addMember info := rfl

theorem Step.self_eq {w w' : WiredNode} (h : Step w w') : w'.self = w.self := by
  cases h with
  | removeMember n =>
    unfold WiredNode.beginRemoveMember
    split <;> rfl
  | _ => rfl

theorem self_eq_of_run {w w' : WiredNode} (h : Relation.ReflTransGen Step w w') :
    w'.self = w.self := by
  induction h with
  | refl => rfl
  | tail _ hs ih => exact hs.self_eq.trans ih

/-- A sequential call is an interleaved run: its update, then its callback. -/
theorem call_reachable {w : WiredNode} (hp : w.pending = []) (c : MemberCall) :
    Relation.ReflTransGen Step w (w.call c) ∧ (w.call c).pending = [] := by
  obtain ⟨self, members, ring, pending⟩ := w
  subst hp
  cases c with
  | gossipEntry info =>
    rw [call_gossipEntry]
    split_ifs with hs
    · exact ⟨.refl, rfl⟩
    · have h₁ := Step.addMember _ info hs
      unfold WiredNode.beginAddMember at h₁
      unfold WiredNode.addMember
      by_cases hj : (addMemberLocked members info).2 = true
      · simp only [hj, if_true] at h₁
        refine ⟨.tail (.single h₁) ?_, rfl⟩
        simp only [hj, if_true]
        exact Step.callback _ [] [] (.addNode info.nodeId) rfl
      · simp only [hj, if_false] at h₁
        refine ⟨.single ?_, rfl⟩
        simpa only [hj, if_false] using h₁
  | removeMember n =>
    have h₁ := Step.removeMember ⟨self, members, ring, []⟩ n
    simp only [WiredNode.call, WiredNode.removeMember, WiredNode.beginRemoveMember] at h₁ ⊢
    cases hr : removeMemberLocked self.nodeId members n with
    | none => exact ⟨.refl, rfl⟩
    | some members' =>
      rw [hr] at h₁
      exact ⟨.tail (.single h₁) (Step.callback _ [] [] (.removeNode n) rfl), rfl⟩
  | heartbeat now => exact ⟨.single (Step.heartbeat _ now), rfl⟩

theorem runCalls_reachable (w : WiredNode) (hp : w.pending = []) (calls : List MemberCall) :
    Relation.ReflTransGen Step w (w.runCalls calls) := by
  induction calls generalizing w with
  | nil => exact .refl
  | cons c cs ih =>
    obtain ⟨h₁, h₂⟩ := call_reachable hp c
    exact h₁.trans (ih _ h₂)

/-! ## 3. Every interleaved run -/

/-- What every interleaved run keeps. -/
structure Safe (w : WiredNode) : Prop where
  selfAlive : aliveIn w.members w.self.nodeId = true
  selfInRing : w.self.nodeId ∈ w.ring.physicalNodes
  ringKnown : ∀ n ∈ w.ring.physicalNodes, n ∈ w.members
  pendingKnown : ∀ op ∈ w.pending, op.nodeId ∈ w.members
  noSelfLeave : RingOp.removeNode w.self.nodeId ∉ w.pending

theorem safe_start (self : NodeInfo) (now : Timestamp) : Safe (WiredNode.start self now) where
  selfAlive := by simp [WiredNode.start, aliveIn_insert, -AList.insert_empty]
  selfInRing := by simp [WiredNode.start]
  ringKnown := by simp [WiredNode.start, ConsistentHashRing.new, AList.mem_insert, -AList.insert_empty]
  pendingKnown := by simp [WiredNode.start]
  noSelfLeave := by simp [WiredNode.start]

theorem Safe.beginAddMember {w : WiredNode} {node : NodeInfo} (hs : node.nodeId ≠ w.self.nodeId)
    (hi : Safe w) : Safe (w.beginAddMember node) where
  selfAlive := by
    simpa [WiredNode.beginAddMember, aliveIn_addMemberLocked, Ne.symm hs] using hi.selfAlive
  selfInRing := hi.selfInRing
  ringKnown n hn := mem_addMemberLocked.mpr (.inr (hi.ringKnown n hn))
  pendingKnown op hop := by
    simp only [WiredNode.beginAddMember] at hop ⊢
    split_ifs at hop
    · rcases List.mem_append.mp hop with hop | hop
      · exact mem_addMemberLocked.mpr (.inr (hi.pendingKnown op hop))
      · simp only [List.mem_singleton] at hop; subst hop
        exact mem_addMemberLocked.mpr (.inl rfl)
    · exact mem_addMemberLocked.mpr (.inr (hi.pendingKnown op hop))
  noSelfLeave := by
    simp only [WiredNode.beginAddMember]
    split_ifs <;> simpa using hi.noSelfLeave

theorem Safe.beginRemoveMember {w : WiredNode} (n : Bytes) (hi : Safe w) :
    Safe (w.beginRemoveMember n) := by
  unfold WiredNode.beginRemoveMember
  split
  · exact hi
  next members h =>
    obtain ⟨hs, hn, cur, rfl⟩ := removeMemberLocked_eq_some h
    have known : ∀ m, m ∈ w.members → m ∈ w.members.insert n { cur with isAlive := false } :=
      fun m hm => (AList.mem_insert _).mpr (.inr hm)
    refine ⟨?_, hi.selfInRing, fun m hm => known m (hi.ringKnown m hm), fun op hop => ?_, ?_⟩
    · simpa [aliveIn_insert, Ne.symm hs] using hi.selfAlive
    · rcases List.mem_append.mp hop with hop | hop
      · exact known _ (hi.pendingKnown op hop)
      · simp only [List.mem_singleton] at hop; subst hop; exact known _ hn
    · simp only [List.mem_append, List.mem_singleton, RingOp.removeNode.injEq, not_or]
      exact ⟨hi.noSelfLeave, fun e => hs e.symm⟩

theorem Safe.heartbeat {w : WiredNode} (now : Timestamp) (hi : Safe w) :
    Safe (w.heartbeat now) where
  selfAlive := (aliveIn_touchSelf now hi.selfAlive _).trans hi.selfAlive
  selfInRing := hi.selfInRing
  ringKnown n hn := mem_touchSelf.mpr (.inr (hi.ringKnown n hn))
  pendingKnown op hop := mem_touchSelf.mpr (.inr (hi.pendingKnown op hop))
  noSelfLeave := hi.noSelfLeave

theorem Safe.runCallback {w : WiredNode} {pre post : List RingOp} {op : RingOp}
    (h : w.pending = pre ++ op :: post) (hi : Safe w) :
    Safe (w.runCallback op (pre ++ post)) := by
  have hop : op ∈ w.pending := by simp [h]
  have sub : ∀ o ∈ pre ++ post, o ∈ w.pending := fun o ho => by
    rw [h]; rcases List.mem_append.mp ho with ho | ho <;> simp [ho]
  refine ⟨hi.selfAlive, ?_, fun n hn => ?_, fun o ho => hi.pendingKnown o (sub o ho),
    fun ho => hi.noSelfLeave (sub _ ho)⟩
  · cases op with
    | addNode n => simpa [WiredNode.runCallback] using .inr hi.selfInRing
    | removeNode n =>
      have : n ≠ w.self.nodeId := fun e => hi.noSelfLeave (e ▸ hop)
      simpa [WiredNode.runCallback, Ne.symm this] using hi.selfInRing
  · cases op with
    | addNode m =>
      rcases Finset.mem_insert.mp (by simpa [WiredNode.runCallback] using hn) with rfl | hn
      exacts [hi.pendingKnown _ hop, hi.ringKnown n hn]
    | removeNode m =>
      exact hi.ringKnown n (Finset.mem_of_mem_erase (by simpa [WiredNode.runCallback] using hn))

theorem Safe.step {w w' : WiredNode} (hs : Step w w') (hi : Safe w) : Safe w' := by
  cases hs with
  | addMember node h => exact hi.beginAddMember h
  | removeMember n => exact hi.beginRemoveMember n
  | heartbeat now => exact hi.heartbeat now
  | callback pre post op h => exact hi.runCallback h

theorem safe_of_run {w w' : WiredNode} (h : Relation.ReflTransGen Step w w') (hi : Safe w) :
    Safe w' := by
  induction h with
  | refl => exact hi
  | tail _ hs ih => exact ih.step hs

/-! ## 4. Sequential runs -/

/-- Every alive id is on the ring. -/
def AliveOnRing (w : WiredNode) : Prop :=
  ∀ n, aliveIn w.members n = true → n ∈ w.ring.physicalNodes

/-- Every ring node is alive. -/
def RingAlive (w : WiredNode) : Prop :=
  ∀ n ∈ w.ring.physicalNodes, aliveIn w.members n = true

section Sequential

variable {w : WiredNode}

theorem aliveOnRing_addMember (node : NodeInfo) (h : AliveOnRing w) :
    AliveOnRing (w.addMember node) := by
  intro n hn
  simp only [WiredNode.addMember, aliveIn_addMemberLocked] at hn ⊢
  by_cases hj : (addMemberLocked w.members node).2 = true
  · simp only [hj, if_true, and_true, ConsistentHashRing.physicalNodes_addNode,
      Finset.mem_insert] at hn ⊢
    by_cases hk : n = node.nodeId
    · exact .inl hk
    · rw [if_neg hk] at hn; exact .inr (h n hn)
  · simp only [hj, if_false, and_false, Bool.false_eq_true] at hn ⊢
    exact h n hn

theorem ringAlive_addMember {node : NodeInfo} (hf : node.nodeId ∈ w.members ∨ node.isAlive = true)
    (h : RingAlive w) : RingAlive (w.addMember node) := by
  intro n hn
  simp only [WiredNode.addMember, aliveIn_addMemberLocked] at hn ⊢
  by_cases hj : (addMemberLocked w.members node).2 = true
  · simp only [hj, if_true, and_true, ConsistentHashRing.physicalNodes_addNode,
      Finset.mem_insert] at hn ⊢
    by_cases hk : n = node.nodeId
    · rw [if_pos hk]; exact hf.elim (isAlive_of_join_of_mem hj) id
    · rw [if_neg hk]; exact h n (hn.resolve_left hk)
  · simp only [hj, if_false, and_false, Bool.false_eq_true] at hn ⊢
    exact h n hn

theorem removeMember_cases (n : Bytes) :
    w.removeMember n = w ∨ ∃ cur : NodeInfo, n ≠ w.self.nodeId ∧
      w.removeMember n = ⟨w.self, w.members.insert n { cur with isAlive := false },
        w.ring.removeNode n, w.pending⟩ := by
  unfold WiredNode.removeMember
  split
  · exact .inl rfl
  next members h =>
    obtain ⟨hs, -, cur, rfl⟩ := removeMemberLocked_eq_some h
    exact .inr ⟨cur, hs, rfl⟩

theorem aliveOnRing_removeMember (n : Bytes) (h : AliveOnRing w) :
    AliveOnRing (w.removeMember n) := by
  rcases removeMember_cases n with he | ⟨cur, -, he⟩ <;> rw [he]
  · exact h
  intro m hm
  dsimp only at hm ⊢
  rw [aliveIn_insert] at hm
  rw [ConsistentHashRing.physicalNodes_removeNode, Finset.mem_erase]
  by_cases hmn : m = n
  · rw [if_pos hmn] at hm; cases hm
  · rw [if_neg hmn] at hm; exact ⟨hmn, h m hm⟩

theorem ringAlive_removeMember (n : Bytes) (h : RingAlive w) :
    RingAlive (w.removeMember n) := by
  rcases removeMember_cases n with he | ⟨cur, -, he⟩ <;> rw [he]
  · exact h
  intro m hm
  obtain ⟨hmn, hm⟩ := Finset.mem_erase.mp (by simpa using hm)
  simpa [aliveIn_insert, hmn] using h m hm

end Sequential

/-- A sequential call keeps the alive ids on the ring. -/
theorem aliveOnRing_call {w : WiredNode} (hi : Safe w) (c : MemberCall) (h : AliveOnRing w) :
    AliveOnRing (w.call c) := by
  cases c with
  | gossipEntry info =>
    rw [call_gossipEntry]
    split_ifs
    exacts [h, aliveOnRing_addMember info h]
  | removeMember n => exact aliveOnRing_removeMember n h
  | heartbeat now =>
    intro n hn
    exact h n ((aliveIn_touchSelf now hi.selfAlive n).symm.trans hn)

/-- A sequential call whose gossip entry, if it names an unknown id,
reports it alive keeps every ring node alive. -/
theorem ringAlive_call {w : WiredNode} (hi : Safe w) (c : MemberCall)
    (hf : ∀ info, c = .gossipEntry info → info.nodeId ∈ w.members ∨ info.isAlive = true)
    (h : RingAlive w) : RingAlive (w.call c) := by
  cases c with
  | gossipEntry info =>
    rw [call_gossipEntry]
    split_ifs
    exacts [h, ringAlive_addMember (hf info rfl) h]
  | removeMember n => exact ringAlive_removeMember n h
  | heartbeat now =>
    intro n hn
    exact (aliveIn_touchSelf now hi.selfAlive n).trans (h n hn)

/-- The run lemma for sequential runs from any safe quiescent node. -/
theorem aliveOnRing_runCalls (calls : List MemberCall) :
    ∀ {w : WiredNode}, w.pending = [] → Safe w → AliveOnRing w → AliveOnRing (w.runCalls calls) := by
  induction calls with
  | nil => exact fun _ _ h => h
  | cons c cs ih =>
    intro w hp hi h
    obtain ⟨hr, hp'⟩ := call_reachable hp c
    exact ih hp' (safe_of_run hr hi) (aliveOnRing_call hi c h)

theorem ringAlive_runCalls (calls : List MemberCall) :
    ∀ {w : WiredNode}, w.pending = [] → Safe w → joinsAlive w calls = true → RingAlive w →
      RingAlive (w.runCalls calls) := by
  induction calls with
  | nil => exact fun _ _ _ h => h
  | cons c cs ih =>
    intro w hp hi hj h
    simp only [joinsAlive, Bool.and_eq_true] at hj
    obtain ⟨hr, hp'⟩ := call_reachable hp c
    refine ih hp' (safe_of_run hr hi) hj.2 (ringAlive_call hi c (fun info hc => ?_) h)
    subst hc
    simpa using hj.1

theorem aliveOnRing_start (self : NodeInfo) (now : Timestamp) :
    AliveOnRing (WiredNode.start self now) := by
  intro n hn
  simp only [WiredNode.start, aliveIn_insert] at hn ⊢
  split_ifs at hn with h
  · simp [h]
  · simp [aliveIn] at hn

theorem ringAlive_start (self : NodeInfo) (now : Timestamp) :
    RingAlive (WiredNode.start self now) := by
  intro n hn
  simp only [WiredNode.start, ConsistentHashRing.physicalNodes_addNode] at hn
  simp [WiredNode.start, aliveIn_insert, -AList.insert_empty, by simpa [ConsistentHashRing.new] using hn]

/-- What the ring tracks. In every interleaved run of gossip updates,
failure-detector removals, heartbeat updates and callbacks, the own entry
is alive and on the ring and every ring node has a member entry. In
sequential runs every alive id is on the ring and every ring node is known;
when every first sighting reports the node alive, the ring's nodes are
exactly the alive ids. -/
theorem ring_tracks_membership (self : NodeInfo) (now : Timestamp) :
    (∀ w, Relation.ReflTransGen Step (WiredNode.start self now) w →
      aliveIn w.members self.nodeId = true ∧ self.nodeId ∈ w.ring.physicalNodes ∧
        ∀ n ∈ w.ring.physicalNodes, n ∈ w.members) ∧
    (∀ calls n,
      (aliveIn ((WiredNode.start self now).runCalls calls).members n = true →
        n ∈ ((WiredNode.start self now).runCalls calls).ring.physicalNodes) ∧
      (n ∈ ((WiredNode.start self now).runCalls calls).ring.physicalNodes →
        n ∈ ((WiredNode.start self now).runCalls calls).members)) ∧
    (∀ calls, joinsAlive (WiredNode.start self now) calls = true → ∀ n,
      n ∈ ((WiredNode.start self now).runCalls calls).ring.physicalNodes ↔
        aliveIn ((WiredNode.start self now).runCalls calls).members n = true) := by
  have hs := safe_start self now
  have run := runCalls_reachable (WiredNode.start self now) rfl
  refine ⟨fun w hw => ?_, fun calls n => ⟨?_, (safe_of_run (run calls) hs).ringKnown n⟩,
    fun calls hj n => ⟨ringAlive_runCalls calls rfl hs hj (ringAlive_start self now) n,
      aliveOnRing_runCalls calls rfl hs (aliveOnRing_start self now) n⟩⟩
  · have hw' := safe_of_run hw hs
    have hself : w.self.nodeId = self.nodeId := by rw [self_eq_of_run hw]; rfl
    exact ⟨hself ▸ hw'.selfAlive, hself ▸ hw'.selfInRing, hw'.ringKnown⟩
  · exact aliveOnRing_runCalls calls rfl hs (aliveOnRing_start self now) n

/-- A node as `main` starts it. -/
def seedNode : NodeInfo := ⟨Bytes.ofString "n1", Bytes.ofString "0.0.0.0", 7001, true, 0⟩

/-- A gossip entry about a second node. -/
def peerEntry (alive : Bool) (heartbeat : Timestamp) : NodeInfo :=
  ⟨Bytes.ofString "n2", Bytes.ofString "10.0.0.2", 7002, alive, heartbeat⟩

/-- A first sighting reported alive puts the node on the ring. -/
theorem ring_tracks_first_alive_sighting :
    (Bytes.ofString "n2" ∈
        ((WiredNode.start seedNode 0).runCalls [.gossipEntry (peerEntry true 100)]).ring.physicalNodes ↔
      aliveIn ((WiredNode.start seedNode 0).runCalls
        [.gossipEntry (peerEntry true 100)]).members (Bytes.ofString "n2") = true) ∧
    aliveIn (WiredNode.start seedNode 0).members seedNode.nodeId = true :=
  ⟨(ring_tracks_membership seedNode 0).2.2 _ (by decide) _,
    ((ring_tracks_membership seedNode 0).1 _ .refl).1⟩

/-- The ring does not follow the alive ids. A first sighting reported dead
joins the ring while its entry stays dead; and when the failure detector's
leave for a node runs after a revival's join, the node ends alive and off
the ring. -/
theorem ring_membership_diverges :
    (Bytes.ofString "n2" ∈
        ((WiredNode.start seedNode 0).runCalls [.gossipEntry (peerEntry false 100)]).ring.physicalNodes ∧
      aliveIn ((WiredNode.start seedNode 0).runCalls
        [.gossipEntry (peerEntry false 100)]).members (Bytes.ofString "n2") = false) ∧
    ∃ w, Relation.ReflTransGen Step (WiredNode.start seedNode 0) w ∧ w.pending = [] ∧
      aliveIn w.members (Bytes.ofString "n2") = true ∧
      Bytes.ofString "n2" ∉ w.ring.physicalNodes :=
  ⟨by decide, _,
    ((((runCalls_reachable (WiredNode.start seedNode 0) rfl
      [.gossipEntry (peerEntry true 100)]).tail
      (Step.removeMember _ (Bytes.ofString "n2"))).tail
      (Step.addMember _ (peerEntry true 200) (by decide))).tail
      (Step.callback _ [.removeNode (Bytes.ofString "n2")] [] (.addNode (Bytes.ofString "n2"))
        (by decide))).tail
      (Step.callback _ [] [] (.removeNode (Bytes.ofString "n2")) (by decide)),
    by decide, by decide, by decide⟩


/-! ## 5. The own entry -/

/-- The own entry is there, alive, at the address the node was started with. -/
def SelfEntry (w : WiredNode) : Prop :=
  ∃ e, w.members.lookup w.self.nodeId = some e ∧ e.isAlive = true ∧
    e.host = w.self.host ∧ e.port = w.self.port

theorem selfEntry_start (self : NodeInfo) (now : Timestamp) :
    SelfEntry (WiredNode.start self now) :=
  ⟨_, AList.lookup_insert _, rfl, rfl, rfl⟩

/-- Every step keeps the own entry: gossip about the own id is skipped,
`RemoveMember` returns early on it, and the heartbeat update touches only
`last_heartbeat`. -/
theorem SelfEntry.step {w w' : WiredNode} (hs : Step w w') (hi : SelfEntry w) : SelfEntry w' := by
  obtain ⟨e, he, ha, hh, hp⟩ := hi
  cases hs with
  | addMember node h =>
    refine ⟨e, ?_, ha, hh, hp⟩
    simp only [WiredNode.beginAddMember, lookup_addMemberLocked, if_neg (Ne.symm h), he]
  | removeMember n =>
    unfold WiredNode.beginRemoveMember
    split
    · exact ⟨e, he, ha, hh, hp⟩
    next members hr =>
      obtain ⟨hn, -, cur, rfl⟩ := removeMemberLocked_eq_some hr
      exact ⟨e, (AList.lookup_insert_ne (Ne.symm hn)).trans he, ha, hh, hp⟩
  | heartbeat now =>
    refine ⟨{ e with lastHeartbeat := now }, ?_, ha, hh, hp⟩
    simp only [WiredNode.heartbeat, lookup_touchSelf, if_true, he, Option.getD_some]
  | callback pre post op h => exact ⟨e, he, ha, hh, hp⟩

theorem selfEntry_of_run {w w' : WiredNode} (h : Relation.ReflTransGen Step w w')
    (hi : SelfEntry w) : SelfEntry w' := by
  induction h with
  | refl => exact hi
  | tail _ hs ih => exact ih.step hs

/-- The own entry in every interleaved run: there, alive, at the address
`main` gave it; and no `on_leave` for the own id is ever queued, so none
runs. -/
theorem self_entry_stays (self : NodeInfo) (now : Timestamp) (w : WiredNode)
    (hw : Relation.ReflTransGen Step (WiredNode.start self now) w) :
    (∃ e, w.members.lookup self.nodeId = some e ∧ e.isAlive = true ∧
      e.host = self.host ∧ e.port = self.port) ∧
    RingOp.removeNode self.nodeId ∉ w.pending := by
  have hself : w.self = { self with lastHeartbeat := now, isAlive := true } := self_eq_of_run hw
  obtain ⟨e, he, ha, hh, hp⟩ := selfEntry_of_run hw (selfEntry_start self now)
  have hleave := (safe_of_run hw (safe_start self now)).noSelfLeave
  rw [hself] at he hh hp hleave
  exact ⟨⟨e, he, ha, hh, hp⟩, hleave⟩

/-- A report about the own id, dead and from another address, then a
removal of the own id and a heartbeat. -/
def selfImpostor : NodeInfo := ⟨Bytes.ofString "n1", Bytes.ofString "10.0.0.9", 9999, false, 500⟩

theorem self_entry_after_impostor :
    (∃ e, ((WiredNode.start seedNode 0).runCalls
        [.gossipEntry selfImpostor, .removeMember seedNode.nodeId, .heartbeat 7]).members.lookup
          seedNode.nodeId = some e ∧ e.isAlive = true ∧ e.host = seedNode.host ∧
        e.port = seedNode.port) ∧
    RingOp.removeNode seedNode.nodeId ∉ ((WiredNode.start seedNode 0).runCalls
      [.gossipEntry selfImpostor, .removeMember seedNode.nodeId, .heartbeat 7]).pending :=
  self_entry_stays seedNode 0 _ (runCalls_reachable _ rfl _)

/-! ## 6. Failure detection -/

/-- One pass of `FailureDetectionLoop` at `now`: the failed ids collected
under the shared lock, then `RemoveMember` of each. -/
def WiredNode.detectFailures (w : WiredNode) (now : Timestamp) : WiredNode :=
  (failedMembers w.self.nodeId w.members now).foldl WiredNode.removeMember w

theorem toNat_sub_timestamp (a b : Timestamp) :
    (a - b).toNat = (2 ^ 64 - b.toNat + a.toNat) % 2 ^ 64 :=
  BitVec.toNat_sub _ _

/-- The test of the loop, over the naturals: the `uint64_t` difference is
taken modulo `2 ^ 64`. -/
theorem isFailed_eq_true {selfId : Bytes} {members : Members} {now : Timestamp} {id : Bytes} :
    isFailed selfId members now id = true ↔ id ≠ selfId ∧ ∃ info, members.lookup id = some info ∧
      info.isAlive = true ∧ 5000 < (2 ^ 64 - info.lastHeartbeat.toNat + now.toNat) % 2 ^ 64 := by
  unfold isFailed
  split
  next info h =>
    simp only [Bool.and_eq_true, bne_iff_ne, ne_eq, decide_eq_true_eq, h, Option.some.injEq,
      exists_eq_left', ts_lt_iff, toNat_sub_timestamp]
    rfl
  next h => simp [h]

/-- When the heartbeat is not ahead of the local clock, the test is the
elapsed time against `FAILURE_TIMEOUT_MS`. -/
theorem isFailed_of_le {selfId : Bytes} {members : Members} {now : Timestamp} {id : Bytes}
    {info : NodeInfo} (hid : id ≠ selfId) (h : members.lookup id = some info)
    (hle : info.lastHeartbeat.toNat ≤ now.toNat) :
    isFailed selfId members now id = (info.isAlive && decide (5000 < now.toNat - info.lastHeartbeat.toNat)) := by
  have hlt : info.lastHeartbeat.toNat < 2 ^ 64 := info.lastHeartbeat.toNat_lt_size
  have hnow : now.toNat < 2 ^ 64 := now.toNat_lt_size
  have hmod : (2 ^ 64 - info.lastHeartbeat.toNat + now.toNat) % 2 ^ 64 =
      now.toNat - info.lastHeartbeat.toNat := by
    rw [show 2 ^ 64 - info.lastHeartbeat.toNat + now.toNat =
      (now.toNat - info.lastHeartbeat.toNat) + 2 ^ 64 by omega, Nat.add_mod_right,
      Nat.mod_eq_of_lt (by omega)]
  apply Bool.eq_iff_iff.mpr
  rw [isFailed_eq_true, Bool.and_eq_true, decide_eq_true_eq, ← hmod]
  simp [hid, h]

/-- A heartbeat ahead of the local clock, by less than `2 ^ 64 - 5000`
milliseconds, wraps the difference around: the member counts as failed. -/
theorem isFailed_of_ahead {selfId : Bytes} {members : Members} {now : Timestamp} {id : Bytes}
    {info : NodeInfo} (hid : id ≠ selfId) (h : members.lookup id = some info)
    (ha : info.isAlive = true) (hahead : now.toNat < info.lastHeartbeat.toNat)
    (hnear : info.lastHeartbeat.toNat - now.toNat < 2 ^ 64 - 5000) :
    isFailed selfId members now id = true := by
  have hlt : info.lastHeartbeat.toNat < 2 ^ 64 := info.lastHeartbeat.toNat_lt_size
  refine isFailed_eq_true.mpr ⟨hid, info, h, ha, ?_⟩
  rw [Nat.mod_eq_of_lt (by omega)]
  omega

/-- A node at local time 9000 that has heard from `n2`, whose clock runs a
second ahead, a heartbeat of 10000. -/
def aheadNode : WiredNode :=
  (WiredNode.start seedNode 9000).runCalls [.gossipEntry (peerEntry true 10000)]

/-- The failure detector at 9000 marks `n2` dead and takes it off the ring,
although its heartbeat is a second newer than the local clock. -/
theorem clock_ahead_marked_dead :
    aliveIn aheadNode.members (Bytes.ofString "n2") = true ∧
    (aheadNode.members.lookup (Bytes.ofString "n2")).map (·.lastHeartbeat) = some 10000 ∧
    aliveIn (aheadNode.detectFailures 9000).members (Bytes.ofString "n2") = false ∧
    Bytes.ofString "n2" ∉ (aheadNode.detectFailures 9000).ring.physicalNodes := by
  decide


/-! ## 7. The gossip merge

`HandleGossipMessage` calls `AddMember` on the entries one by one, so what
an id ends with depends on what was seen of it, in order: the local entry,
then the incoming entries for it (`sightings`). `MergedFrom` says what that
is: the address of the first sighting, the largest heartbeat, and an alive
flag that is set iff some sighting that raised the heartbeat above every
earlier one reported alive. A newer report of a dead node or of a new
address changes neither, so the result depends on the order of the
entries (`gossip_merge_order_dependent`). -/

/-- What was seen of `n`, in order: its local entry, then the incoming
entries that name it. -/
def sightings (members : Members) (entries : List NodeInfo) (n : Bytes) : List NodeInfo :=
  (members.lookup n).toList ++ entries.filter fun e => e.nodeId = n

/-- `e` is what a run of `AddMember` leaves after the sightings `hist`. -/
structure MergedFrom (hist : List NodeInfo) (e : NodeInfo) : Prop where
  first : ∃ f rest, hist = f :: rest ∧ e.nodeId = f.nodeId ∧ e.host = f.host ∧ e.port = f.port
  heartbeat_ge : ∀ x ∈ hist, x.lastHeartbeat ≤ e.lastHeartbeat
  heartbeat_mem : ∃ x ∈ hist, x.lastHeartbeat = e.lastHeartbeat
  alive : e.isAlive = true ↔ ∃ pre x post, hist = pre ++ x :: post ∧
    (∀ y ∈ pre, y.lastHeartbeat < x.lastHeartbeat) ∧ x.isAlive = true

theorem mergedFrom_single (x : NodeInfo) : MergedFrom [x] x where
  first := ⟨x, [], rfl, rfl, rfl, rfl⟩
  heartbeat_ge y hy := by rw [List.mem_singleton.mp hy]; exact UInt64.le_refl _
  heartbeat_mem := ⟨x, List.mem_singleton_self x, rfl⟩
  alive := ⟨fun h => ⟨[], x, [], rfl, by simp, h⟩, fun ⟨pre, y, post, he, _, hy⟩ => by
    obtain ⟨rfl, rfl⟩ : pre = [] ∧ y = x := by
      cases pre with
      | nil => exact ⟨rfl, (List.cons.inj he).1.symm⟩
      | cons a pre => simp at he
    exact hy⟩

/-- A split of `hist ++ [x]` around an element is a split of `hist`, or
`x` itself after all of `hist`. -/
theorem exists_split_snoc (hist : List NodeInfo) (x : NodeInfo)
    (P : List NodeInfo → NodeInfo → Prop) :
    (∃ pre y post, hist ++ [x] = pre ++ y :: post ∧ P pre y) ↔
      (∃ pre y post, hist = pre ++ y :: post ∧ P pre y) ∨ P hist x := by
  constructor
  · rintro ⟨pre, y, post, he, hp⟩
    rcases List.eq_nil_or_concat post with rfl | ⟨L, z, rfl⟩
    · obtain ⟨rfl, h⟩ := List.append_inj' he rfl
      exact .inr ((List.cons.inj h).1 ▸ hp)
    · rw [List.concat_eq_append, ← List.cons_append, ← List.append_assoc] at he
      obtain ⟨rfl, -⟩ := List.append_inj' he rfl
      exact .inl ⟨pre, y, L, rfl, hp⟩
  · rintro (⟨pre, y, post, rfl, hp⟩ | hp)
    · exact ⟨pre, y, post ++ [x], by simp, hp⟩
    · exact ⟨hist, x, [], rfl, hp⟩

theorem mergeEntry_some (cur node : NodeInfo) :
    mergeEntry (some cur) node =
      if node.lastHeartbeat > cur.lastHeartbeat then
        { cur with lastHeartbeat := node.lastHeartbeat, isAlive := cur.isAlive || node.isAlive }
      else cur := rfl

/-- One `AddMember` extends the sightings by one. -/
theorem MergedFrom.snoc {hist : List NodeInfo} {e : NodeInfo} (h : MergedFrom hist e)
    (x : NodeInfo) : MergedFrom (hist ++ [x]) (mergeEntry (some e) x) := by
  obtain ⟨⟨f, rest, rfl, hn, hh, hp⟩, hge, ⟨m, hm, hme⟩, halive⟩ := h
  simp only [ts_le_iff, ts_lt_iff] at hge
  -- every earlier heartbeat is below `x`'s iff the largest one is
  have hbelow : (∀ y ∈ f :: rest, y.lastHeartbeat < x.lastHeartbeat) ↔
      e.lastHeartbeat < x.lastHeartbeat := by
    simp only [ts_lt_iff]
    exact ⟨fun hy => hme ▸ hy m hm, fun hlt y hy => by have := hge y hy; omega⟩
  have hsplit := exists_split_snoc (f :: rest) x
    (fun pre y => (∀ z ∈ pre, z.lastHeartbeat < y.lastHeartbeat) ∧ y.isAlive = true)
  rw [mergeEntry_some]
  split_ifs with hlt
  · -- a newer heartbeat: taken, and an alive report revives
    simp only [gt_iff_lt, ts_lt_iff] at hlt
    refine ⟨⟨f, rest ++ [x], rfl, hn, hh, hp⟩, fun y hy => ?_, ⟨x, by simp, rfl⟩, ?_⟩
    · rcases List.mem_append.mp hy with hy | hy
      · exact ts_le_iff.mpr (show y.lastHeartbeat.toNat ≤ x.lastHeartbeat.toNat by
          have := hge y hy; omega)
      · rw [List.mem_singleton.mp hy]; exact UInt64.le_refl _
    · rw [hsplit, ← halive, hbelow, ts_lt_iff]
      simp [hlt]
  · -- an older one: nothing changes
    simp only [gt_iff_lt, ts_lt_iff, Nat.not_lt] at hlt
    refine ⟨⟨f, rest ++ [x], rfl, hn, hh, hp⟩, fun y hy => ?_, ⟨m, List.mem_append_left _ hm, hme⟩, ?_⟩
    · rcases List.mem_append.mp hy with hy | hy
      · exact ts_le_iff.mpr (hge y hy)
      · rw [List.mem_singleton.mp hy]; exact ts_le_iff.mpr hlt
    · rw [hsplit, ← halive, hbelow, ts_lt_iff]
      simp [Nat.not_lt.mpr hlt]

/-- The run over the later sightings, from a merged entry. -/
theorem foldl_mergeEntry (l : List NodeInfo) :
    ∀ {hist : List NodeInfo} {e : NodeInfo}, MergedFrom hist e →
      ∃ e', l.foldl (fun acc x => some (mergeEntry acc x)) (some e) = some e' ∧
        MergedFrom (hist ++ l) e' := by
  induction l with
  | nil => exact fun h => ⟨_, rfl, by simpa using h⟩
  | cons x xs ih =>
    intro hist e h
    obtain ⟨e', he', h'⟩ := ih (h.snoc x)
    exact ⟨e', he', by simpa using h'⟩

/-- The `AddMember` loop, seen from one id: the entries naming it, merged
into its local entry in order. -/
theorem lookup_foldl_addMemberLocked (entries : List NodeInfo) :
    ∀ (members : Members) (n : Bytes),
      (entries.foldl (fun m e => (addMemberLocked m e).1) members).lookup n =
        (entries.filter fun e => e.nodeId = n).foldl (fun acc e => some (mergeEntry acc e))
          (members.lookup n) := by
  induction entries with
  | nil => exact fun _ _ => rfl
  | cons x xs ih =>
    intro members n
    rw [List.foldl_cons, ih, List.filter_cons, lookup_addMemberLocked]
    by_cases hn : n = x.nodeId
    · simp [hn]
    · simp [hn, Ne.symm hn]

/-- `HandleGossipMessage` on its entries: `AddMember` for each entry that does
not name the own id, in order. -/
theorem handleGossipEntries_eq (entries : List NodeInfo) :
    ∀ w : WiredNode, (w.handleGossipEntries entries).self = w.self ∧
      (w.handleGossipEntries entries).members =
        (entries.filter fun e => e.nodeId ≠ w.self.nodeId).foldl
          (fun m e => (addMemberLocked m e).1) w.members := by
  induction entries with
  | nil => exact fun _ => ⟨rfl, rfl⟩
  | cons x xs ih =>
    intro w
    have hstep := ih (if x.nodeId = w.self.nodeId then w else w.addMember x)
    have hself : (if x.nodeId = w.self.nodeId then w else w.addMember x).self = w.self := by
      split_ifs <;> rfl
    rw [hself] at hstep
    refine ⟨hstep.1, hstep.2.trans ?_⟩
    by_cases hx : x.nodeId = w.self.nodeId
    · simp [hx]
    · simp [hx, WiredNode.addMember]

/-- What gossip leaves at one id. For every node, every list of incoming
entries and every id other than the own: the id has an entry iff it had one
or some entry names it, and that entry has the address of the first
sighting, the largest heartbeat of all sightings, and is alive iff some
sighting that raised the heartbeat above all earlier ones reported it
alive. -/
theorem gossip_merge_per_id (w : WiredNode) (entries : List NodeInfo) (n : Bytes)
    (hn : n ≠ w.self.nodeId) :
    ((w.handleGossipEntries entries).members.lookup n = none ↔
        sightings w.members entries n = []) ∧
    ∀ e, (w.handleGossipEntries entries).members.lookup n = some e →
      MergedFrom (sightings w.members entries n) e := by
  have hfilter : ((entries.filter fun e => e.nodeId ≠ w.self.nodeId).filter
      fun e => e.nodeId = n) = entries.filter fun e => e.nodeId = n := by
    rw [List.filter_filter]
    exact List.filter_congr fun x _ => by by_cases h : x.nodeId = n <;> simp [h, hn]
  rw [(handleGossipEntries_eq entries w).2, lookup_foldl_addMemberLocked, hfilter, sightings]
  cases w.members.lookup n with
  | none =>
    cases entries.filter fun e => e.nodeId = n with
    | nil => simp
    | cons x xs =>
      obtain ⟨e', he', h'⟩ := foldl_mergeEntry xs (mergedFrom_single x)
      simp only [List.foldl_cons, mergeEntry] at he' ⊢
      rw [he']
      exact ⟨by simp, fun e he => Option.some.inj he ▸ h'⟩
  | some cur =>
    obtain ⟨e', he', h'⟩ := foldl_mergeEntry (entries.filter fun e => e.nodeId = n)
      (mergedFrom_single cur)
    rw [he']
    exact ⟨by simp, fun e he => Option.some.inj he ▸ h'⟩

/-- Two reports of `n2`: an older one, alive at its first address, and a
newer one, dead at another. -/
def oldReport : NodeInfo := peerEntry true 100

/-- The newer report. -/
def newReport : NodeInfo := ⟨Bytes.ofString "n2", Bytes.ofString "10.0.0.9", 7009, false, 200⟩

theorem gossip_merge_two_reports :
    (Bytes.ofString "n2" ≠ (WiredNode.start seedNode 0).self.nodeId) ∧
    (((WiredNode.start seedNode 0).handleGossipEntries [oldReport, newReport]).members.lookup
        (Bytes.ofString "n2") = none ↔
      sightings (WiredNode.start seedNode 0).members [oldReport, newReport] (Bytes.ofString "n2") = []) :=
  ⟨by decide, (gossip_merge_per_id _ _ _ (by decide)).1⟩

/-- The merge depends on the order. Old report first: the entry keeps the
first address and stays alive, taking only the newer heartbeat, so it is
not the entry with the largest heartbeat. New report first: the entry is
the new report, and the old one is ignored. -/
theorem gossip_merge_order_dependent :
    ((WiredNode.start seedNode 0).handleGossipEntries [oldReport, newReport]).members.lookup
        (Bytes.ofString "n2") =
      some ⟨Bytes.ofString "n2", Bytes.ofString "10.0.0.2", 7002, true, 200⟩ ∧
    ((WiredNode.start seedNode 0).handleGossipEntries [newReport, oldReport]).members.lookup
        (Bytes.ofString "n2") = some newReport := by
  decide

end KvStore.Cluster
