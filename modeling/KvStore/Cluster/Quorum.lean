/-
KvStore.Cluster.Quorum — the replication protocol as a whole: every node a
`StorageEngine`, any number of coordinators running `ReplicatedPut`,
`ReplicatedGet` and `ReplicatedDelete` (`cluster/replication.cpp`) at once
over one ring and one `N`, `R`, `W`, and a network that delivers, delays or
loses each request.

## The model

A `World` holds each node's engine, the messages in flight and every
operation started so far. An operation (`Op`) records what its coordinator
was asked, which of its futures have resolved, the acknowledgements or
replies they brought, and, once every future is in, its outcome. Both
branches of a coordinator are messages. A write request is applied by the
replica's engine when it is delivered: locally `Put` / `Delete`, remotely
`HandleInternalPut` / `HandleInternalDelete`, which make the same engine call
(`remotePut_eq`). Its acknowledgement travels back as a message of its own:
the engine's result on the local branch, `OK` on the remote one. A future
can fail at any time (a dead member, a refused connection, a lost
response), a read-repair write is a request with no answer, and any message
can be lost. Nodes do not restart. Every step advances a clock, so that
"started after it returned" can be said.

`World.lastWrite` is ghost state: the last engine call each replica made on
each key, which a read reply carries along with the value. The code has no
such field; it is there to state what a get reads after a delete.

## Results

* `World.WF.of_reachable`: every operation's futures resolve once each, from
  its own replicas, and a returned operation's outcome is the one its
  futures give. `can_finish`: whatever the network has done, every waiting
  operation can still return.
* `put_visible_to_later_gets`: with `R + W > N`, if a put of `(v, t, c)`
  with `t > 0` returned success and no other write of the key carries a
  timestamp `≥ t`, every get of the key that starts after the put returned
  and succeeds returns `(v, t, c)`. Invariants: every value of the key at
  `t` or later is the put's (`Values`); each replica that acknowledged the
  put holds it (`AckedHold`); every reply a later get has from such a
  replica carries it (`LaterReads`); the two quorums meet (`quorums_meet`).
* Deletes leave no trace in the engine, so a replica that missed a delete
  answers with the old value, and the latest-version rule prefers any value
  to none (`delete_undone_by_stale_replica`). What holds
  (`get_value_from_undeleted_replica`): a get's value, and so every repair
  it sends, comes from a replica whose last call on the key was not a
  newer delete.
* `Op.close_get`: a get's outcome, value and repairs are `finishRead` over
  its responses, so `finishRead_spec` holds of every get of every run.
-/
import KvStore.Cluster.Replication
import Mathlib.Logic.Relation

namespace KvStore.Cluster.Quorum

open Storage Cluster

/-! ## 1. Operations, messages, the world -/

/-- What every coordinator shares: `ring_`, `N_`, `R_`, `W_`. -/
structure QuorumConfig where
  ring : ConsistentHashRing
  N : Int
  R : Int
  W : Int

/-- What a coordinator was asked for. -/
inductive OpKind
  | put (value : Bytes)
  | get
  | delete
  deriving DecidableEq, Repr

/-- A message in flight. A request names its operation by its index in
`World.ops`; the operation says what the request carries. A reply carries
the replica's value and, as ghost state, its last engine call on the key. -/
inductive Msg
  | write (op : Nat) (replica : Bytes)
  | ack (op : Nat) (replica : Bytes) (ok : Bool)
  | read (op : Nat) (replica : Bytes)
  | reply (op : Nat) (replica : Bytes) (value : Option VersionedValue) (last : Option KeyOp)
  | repair (op : Nat) (replica : Bytes)
  deriving DecidableEq, Repr

/-- The operation a message belongs to. -/
def Msg.opId : Msg → Nat
  | write i _ | ack i _ _ | read i _ | reply i _ _ _ | repair i _ => i

/-- One `ReplicatedPut` / `ReplicatedGet` / `ReplicatedDelete`: the request,
the replicas `GetNodes` chose and when it started; the futures resolved so
far, with the acknowledgements (writes) or replies (gets) they brought; and
once all are in, when it returned and whether it succeeded, the value it
returned and the replicas it repaired. -/
structure Op where
  coord : Bytes
  key : Bytes
  kind : OpKind
  ts : Timestamp
  replicas : List Bytes
  startedAt : Nat
  resolved : List Bytes
  acks : List Bytes
  replies : List (Bytes × Option VersionedValue × Option KeyOp)
  finished : Option (Nat × Bool)
  result : Option VersionedValue
  repairs : List Bytes
  deriving DecidableEq, Repr

namespace Op

/-- The engine call a write request makes on a replica: `Put(key, value,
ts, self_id_)` (remotely `ConditionalPut` of the same entry), or
`Delete(key, ts)`. -/
def keyOp (o : Op) : KeyOp :=
  match o.kind with
  | .put v => .put v o.ts o.coord
  | _ => .delete o.ts

/-- What the local branch counts as an acknowledgement: the call's result. -/
def accepted (o : Op) (s : StorageEngine) : Bool :=
  match o.kind with
  | .put v => (s.put o.key v o.ts o.coord).1
  | _ => (s.delete o.key o.ts).1

/-- The request sent to one replica. -/
def request (o : Op) (i : Nat) (r : Bytes) : Msg :=
  match o.kind with
  | .get => .read i r
  | _ => .write i r

/-- The future of `r` resolves with an acknowledgement or without. -/
def addAck (o : Op) (r : Bytes) (ok : Bool) : Op :=
  { o with resolved := o.resolved ++ [r], acks := if ok then o.acks ++ [r] else o.acks }

/-- The future of `r` resolves with a reply. -/
def addReply (o : Op) (r : Bytes) (value : Option VersionedValue) (last : Option KeyOp) : Op :=
  { o with resolved := o.resolved ++ [r], replies := o.replies ++ [(r, value, last)] }

/-- The future of `r` fails. -/
def addFailure (o : Op) (r : Bytes) : Op :=
  { o with resolved := o.resolved ++ [r] }

/-- The `responses` vector of `ReplicatedGet`: one per reply, in the order
of the replicas. -/
def responses (o : Op) : List ReadResponse :=
  o.replicas.filterMap fun r => (o.replies.find? (·.1 == r)).map fun x => ⟨true, x.2.1, r⟩

/-- Whether the operation returns success: no replica (`"No nodes
available"`) fails; a get needs `R` responses, a write `W` acknowledgements. -/
def succeeds (q : QuorumConfig) (o : Op) : Bool :=
  !o.replicas.isEmpty && match o.kind with
    | .get => decide ((o.responses.length : Int) ≥ q.R)
    | _ => writeSucceeds q.W o.acks.length

/-- The value a successful get returns: the latest version. -/
def value (q : QuorumConfig) (o : Op) : Option VersionedValue :=
  match o.kind with
  | .get => if o.succeeds q then latestVersion o.responses else none
  | _ => none

/-- The replicas read repair writes the returned value to. -/
def staleReplicas (q : QuorumConfig) (o : Op) : List Bytes :=
  match o.value q with
  | some latest => repairTargets o.responses latest
  | none => []

/-- The operation returns at `now`. -/
def close (q : QuorumConfig) (now : Nat) (o : Op) : Op :=
  { o with finished := some (now, o.succeeds q), result := o.value q, repairs := o.staleReplicas q }

end Op

/-- Every node's engine, the ghost record of each replica's last engine
call per key, the messages in flight, every operation started, a clock. -/
structure World where
  stores : Bytes → StorageEngine
  lastWrite : Bytes → Bytes → Option KeyOp
  net : List Msg
  ops : List Op
  now : Nat

namespace World

/-- Nodes with their engines; nothing started, nothing in flight. -/
def init (stores : Bytes → StorageEngine) : World := ⟨stores, fun _ _ => none, [], [], 0⟩

/-- The engine of `replica` makes `op` on `key`. -/
def write (w : World) (replica key : Bytes) (op : KeyOp) : World :=
  { w with
    stores := Function.update w.stores replica (op.run key (w.stores replica))
    lastWrite := Function.update w.lastWrite replica
      (Function.update (w.lastWrite replica) key (some op)) }

/-- A coordinator starts an operation: `GetNodes(key, N_)`, then one
request per replica. -/
def start (q : QuorumConfig) (w : World) (coord key : Bytes) (kind : OpKind) (ts : Timestamp) :
    World :=
  let o : Op := ⟨coord, key, kind, ts, replicasFor q.ring q.N key, w.now, [], [], [], none, none, []⟩
  { w with
    ops := w.ops ++ [o]
    net := w.net ++ o.replicas.map (o.request w.ops.length)
    now := w.now + 1 }

/-- A write request of operation `i` reaches replica `r`: its engine makes
the call, and the acknowledgement goes back — the call's result on the
local branch, `OK` on the remote one. -/
def deliverWrite (w : World) (pre post : List Msg) (i : Nat) (r : Bytes) (o : Op) : World :=
  { w.write r o.key o.keyOp with
    net := pre ++ post ++ [.ack i r (if r = o.coord then o.accepted (w.stores r) else true)]
    now := w.now + 1 }

/-- A read request reaches replica `r`: it answers with `Get(key)`. -/
def deliverRead (w : World) (pre post : List Msg) (i : Nat) (r : Bytes) (o : Op) : World :=
  { w with
    net := pre ++ post ++ [.reply i r ((w.stores r).get o.key) (w.lastWrite r o.key)]
    now := w.now + 1 }

/-- A read-repair `INTERNAL_PUT` reaches replica `r`: `ConditionalPut`. -/
def deliverRepair (w : World) (pre post : List Msg) (r key : Bytes) (latest : VersionedValue) :
    World :=
  { w.write r key (.conditionalPut latest) with net := pre ++ post, now := w.now + 1 }

/-- A message is lost. -/
def drop (w : World) (pre post : List Msg) : World :=
  { w with net := pre ++ post, now := w.now + 1 }

/-- A future resolves on a message. -/
def receive (w : World) (pre post : List Msg) (i : Nat) (o : Op) : World :=
  { w with net := pre ++ post, ops := w.ops.set i o, now := w.now + 1 }

/-- A future resolves without one. -/
def resolve (w : World) (i : Nat) (o : Op) : World :=
  { w with ops := w.ops.set i o, now := w.now + 1 }

/-- The coordinator's own stale replica is repaired at once:
`storage_.ConditionalPut(key, latest)`. -/
def repairLocal (q : QuorumConfig) (w : World) (o : Op) : World :=
  match o.value q with
  | some latest =>
    if o.coord ∈ o.staleReplicas q then w.write o.coord o.key (.conditionalPut latest) else w
  | none => w

/-- Every future is in: the operation returns; a successful get repairs the
stale replicas, its own at once and the others by a request with no answer. -/
def finish (q : QuorumConfig) (w : World) (i : Nat) (o : Op) : World :=
  { repairLocal q w o with
    ops := w.ops.set i (o.close q w.now)
    net := w.net ++ ((o.staleReplicas q).filter (· != o.coord)).map (.repair i)
    now := w.now + 1 }

end World

/-- One step of the system. A future resolves only while its operation is
waiting and only once; a write request is never sent for a get. -/
inductive Step (q : QuorumConfig) : World → World → Prop
  | start (w : World) (coord key : Bytes) (kind : OpKind) (ts : Timestamp) :
      Step q w (w.start q coord key kind ts)
  | deliverWrite (w : World) (pre post : List Msg) (i : Nat) (r : Bytes) (o : Op)
      (hnet : w.net = pre ++ .write i r :: post) (hop : w.ops[i]? = some o)
      (hk : o.kind ≠ .get) :
      Step q w (w.deliverWrite pre post i r o)
  | deliverRead (w : World) (pre post : List Msg) (i : Nat) (r : Bytes) (o : Op)
      (hnet : w.net = pre ++ .read i r :: post) (hop : w.ops[i]? = some o) :
      Step q w (w.deliverRead pre post i r o)
  | deliverRepair (w : World) (pre post : List Msg) (i : Nat) (r : Bytes) (o : Op)
      (latest : VersionedValue)
      (hnet : w.net = pre ++ .repair i r :: post) (hop : w.ops[i]? = some o)
      (hres : o.result = some latest) :
      Step q w (w.deliverRepair pre post r o.key latest)
  | drop (w : World) (pre : List Msg) (m : Msg) (post : List Msg)
      (hnet : w.net = pre ++ m :: post) :
      Step q w (w.drop pre post)
  | receiveAck (w : World) (pre post : List Msg) (i : Nat) (r : Bytes) (ok : Bool) (o : Op)
      (hnet : w.net = pre ++ .ack i r ok :: post) (hop : w.ops[i]? = some o)
      (hopen : o.finished = none) (hr : r ∈ o.replicas) (hnew : r ∉ o.resolved) :
      Step q w (w.receive pre post i (o.addAck r ok))
  | receiveReply (w : World) (pre post : List Msg) (i : Nat) (r : Bytes)
      (v : Option VersionedValue) (last : Option KeyOp) (o : Op)
      (hnet : w.net = pre ++ .reply i r v last :: post) (hop : w.ops[i]? = some o)
      (hopen : o.finished = none) (hr : r ∈ o.replicas) (hnew : r ∉ o.resolved) :
      Step q w (w.receive pre post i (o.addReply r v last))
  | failFuture (w : World) (i : Nat) (r : Bytes) (o : Op) (hop : w.ops[i]? = some o)
      (hopen : o.finished = none) (hr : r ∈ o.replicas) (hnew : r ∉ o.resolved) :
      Step q w (w.resolve i (o.addFailure r))
  | finish (w : World) (i : Nat) (o : Op) (hop : w.ops[i]? = some o)
      (hopen : o.finished = none) (hall : ∀ r ∈ o.replicas, r ∈ o.resolved) :
      Step q w (w.finish q i o)

/-- The worlds a run from `init` reaches. -/
def Reachable (q : QuorumConfig) (stores : Bytes → StorageEngine) (w : World) : Prop :=
  Relation.ReflTransGen (Step q) (World.init stores) w

/-! ## 2. What a step changes -/

namespace World

@[simp] theorem write_net (w : World) (r key : Bytes) (op : KeyOp) : (w.write r key op).net = w.net :=
  rfl

@[simp] theorem write_ops (w : World) (r key : Bytes) (op : KeyOp) : (w.write r key op).ops = w.ops :=
  rfl

@[simp] theorem write_now (w : World) (r key : Bytes) (op : KeyOp) : (w.write r key op).now = w.now :=
  rfl

/-- A call on `key` at `r` changes that entry by the engine's rule and
nothing else. -/
theorem get_write (w : World) (r key : Bytes) (op : KeyOp) (n k : Bytes) :
    ((w.write r key op).stores n).get k =
      if n = r ∧ k = key then op.step ((w.stores r).get k) else (w.stores n).get k := by
  by_cases hn : n = r
  · subst hn
    by_cases hk : k = key
    · subst hk; simp [write, KeyOp.get_run]
    · simp [write, hk, KeyOp.get_run_of_ne hk]
  · simp [write, hn]

theorem lastWrite_write (w : World) (r key : Bytes) (op : KeyOp) (n k : Bytes) :
    (w.write r key op).lastWrite n k = if n = r ∧ k = key then some op else w.lastWrite n k := by
  by_cases hn : n = r
  · subst hn; by_cases hk : k = key <;> simp [write, hk]
  · simp [write, hn]

@[simp] theorem repairLocal_net (q : QuorumConfig) (w : World) (o : Op) :
    (repairLocal q w o).net = w.net := by
  unfold repairLocal; split <;> (try split) <;> rfl

@[simp] theorem repairLocal_ops (q : QuorumConfig) (w : World) (o : Op) :
    (repairLocal q w o).ops = w.ops := by
  unfold repairLocal; split <;> (try split) <;> rfl

/-- The local repair is a `ConditionalPut` of the value returned, at the
coordinator. -/
theorem repairLocal_cases (q : QuorumConfig) (w : World) (o : Op) :
    repairLocal q w o = w ∨
      ∃ latest, o.value q = some latest ∧
        repairLocal q w o = w.write o.coord o.key (.conditionalPut latest) := by
  unfold repairLocal
  split
  next latest h => split_ifs; exacts [.inr ⟨latest, h, rfl⟩, .inl rfl]
  next => exact .inl rfl

end World

/-- What is left of the network when one message is taken out was in it. -/
theorem mem_of_mem_consume {net pre post : List Msg} {m x : Msg} (h : net = pre ++ m :: post)
    (hx : x ∈ pre ++ post) : x ∈ net := by
  subst h
  rcases List.mem_append.mp hx with hx | hx
  exacts [List.mem_append_left _ hx, List.mem_append_right _ (List.mem_cons_of_mem _ hx)]

theorem getElem?_append_singleton {l : List Op} {a b : Op} {j : Nat} (h : (l ++ [a])[j]? = some b) :
    l[j]? = some b ∨ (j = l.length ∧ b = a) := by
  rcases Nat.lt_or_ge j l.length with hj | hj
  · exact .inl (by rwa [List.getElem?_append_left hj] at h)
  · rw [List.getElem?_append_right hj] at h
    have h0 : j - l.length = 0 := by
      by_contra h0
      rw [List.getElem?_eq_none (by simp; omega)] at h
      cases h
    rw [h0] at h
    exact .inr ⟨by omega, (Option.some.inj h).symm⟩

theorem getElem?_set_eq_some {l : List Op} {i j : Nat} {a b : Op} (h : (l.set i a)[j]? = some b) :
    (j = i ∧ b = a) ∨ (j ≠ i ∧ l[j]? = some b) := by
  rw [List.getElem?_set] at h
  split_ifs at h with h₁ h₂
  · exact .inl ⟨h₁.symm, (Option.some.inj h).symm⟩
  · exact .inr ⟨Ne.symm h₁, h⟩

theorem lt_length_of_getElem? {l : List Op} {i : Nat} {o : Op} (h : l[i]? = some o) : i < l.length :=
  (List.getElem?_eq_some_iff.mp h).1

theorem nodup_snoc {l : List Bytes} {r : Bytes} (h : l.Nodup) (hr : r ∉ l) : (l ++ [r]).Nodup :=
  List.nodup_append.mpr ⟨h, List.nodup_singleton r, List.disjoint_singleton.mpr hr⟩

/-! ## 3. Well-formed operations -/

/-- What every operation keeps: its replicas are `GetNodes`'s; each of its
futures resolves once, and only those it launched; acknowledgements come
from resolved futures; it started in the past; until it returns it has no
result and no repairs, and once it has returned, its outcome is the one the
futures it collected give. -/
structure Op.WF (q : QuorumConfig) (now : Nat) (o : Op) : Prop where
  replicas : o.replicas = replicasFor q.ring q.N o.key
  resolved_nodup : o.resolved.Nodup
  resolved_sub : ∀ r ∈ o.resolved, r ∈ o.replicas
  acks_sublist : o.acks.Sublist o.resolved
  startedAt_lt : o.startedAt < now
  pending : o.finished = none → o.result = none ∧ o.repairs = []
  closed : ∀ f s, o.finished = some (f, s) →
    f < now ∧ s = o.succeeds q ∧ o.result = o.value q ∧ o.repairs = o.staleReplicas q

/-- The messages belong to operations, and every operation is well formed. -/
structure World.WF (q : QuorumConfig) (w : World) : Prop where
  msgs : ∀ m ∈ w.net, m.opId < w.ops.length
  ops : ∀ (i : Nat) (o : Op), w.ops[i]? = some o → o.WF q w.now

namespace Op.WF

variable {q : QuorumConfig} {now : Nat} {o : Op} {r : Bytes}

theorem tick (h : o.WF q now) : o.WF q (now + 1) :=
  { h with
    startedAt_lt := Nat.lt_succ_of_lt h.startedAt_lt
    closed := fun f s hf => (h.closed f s hf).imp_left Nat.lt_succ_of_lt }

theorem resolved_snoc (h : o.WF q now) (hr : r ∈ o.replicas) :
    ∀ x ∈ o.resolved ++ [r], x ∈ o.replicas := fun x hx =>
  (List.mem_append.mp hx).elim (h.resolved_sub x) fun hx => List.mem_singleton.mp hx ▸ hr

theorem addAck (h : o.WF q now) (hopen : o.finished = none) (hr : r ∈ o.replicas)
    (hnew : r ∉ o.resolved) (ok : Bool) : (o.addAck r ok).WF q (now + 1) where
  replicas := h.replicas
  resolved_nodup := nodup_snoc h.resolved_nodup hnew
  resolved_sub := h.resolved_snoc hr
  acks_sublist := by
    cases ok
    · exact h.acks_sublist.trans (List.sublist_append_left _ _)
    · exact h.acks_sublist.append (List.Sublist.refl [r])
  startedAt_lt := Nat.lt_succ_of_lt h.startedAt_lt
  pending := h.pending
  closed := by simp [Op.addAck, hopen]

theorem addReply (h : o.WF q now) (hopen : o.finished = none) (hr : r ∈ o.replicas)
    (hnew : r ∉ o.resolved) (v : Option VersionedValue) (last : Option KeyOp) :
    (o.addReply r v last).WF q (now + 1) where
  replicas := h.replicas
  resolved_nodup := nodup_snoc h.resolved_nodup hnew
  resolved_sub := h.resolved_snoc hr
  acks_sublist := h.acks_sublist.trans (List.sublist_append_left _ _)
  startedAt_lt := Nat.lt_succ_of_lt h.startedAt_lt
  pending := h.pending
  closed := by simp [Op.addReply, hopen]

theorem addFailure (h : o.WF q now) (hopen : o.finished = none) (hr : r ∈ o.replicas)
    (hnew : r ∉ o.resolved) : (o.addFailure r).WF q (now + 1) where
  replicas := h.replicas
  resolved_nodup := nodup_snoc h.resolved_nodup hnew
  resolved_sub := h.resolved_snoc hr
  acks_sublist := h.acks_sublist.trans (List.sublist_append_left _ _)
  startedAt_lt := Nat.lt_succ_of_lt h.startedAt_lt
  pending := h.pending
  closed := by simp [Op.addFailure, hopen]

theorem close (h : o.WF q now) : (o.close q now).WF q (now + 1) where
  replicas := h.replicas
  resolved_nodup := h.resolved_nodup
  resolved_sub := h.resolved_sub
  acks_sublist := h.acks_sublist
  startedAt_lt := Nat.lt_succ_of_lt h.startedAt_lt
  pending := by simp [Op.close]
  closed := by
    intro f s hf
    simp only [Op.close, Option.some.injEq, Prod.mk.injEq] at hf
    obtain ⟨rfl, rfl⟩ := hf
    exact ⟨Nat.lt_succ_self _, rfl, rfl, rfl⟩

end Op.WF

namespace World.WF

variable {q : QuorumConfig} {w w' : World}

theorem init (stores : Bytes → StorageEngine) : World.WF q (World.init stores) where
  msgs _ hm := absurd hm (List.not_mem_nil _)
  ops _ _ h := by cases h

/-- Replacing a waiting operation by a well-formed one. -/
theorem ops_set {ops : List Op} {now i : Nat} {o' : Op}
    (h : ∀ (j : Nat) (o : Op), ops[j]? = some o → o.WF q now) (ho : o'.WF q (now + 1)) :
    ∀ (j : Nat) (o : Op), (ops.set i o')[j]? = some o → o.WF q (now + 1) := by
  intro j o hj
  rcases getElem?_set_eq_some hj with ⟨-, rfl⟩ | ⟨-, hj⟩
  exacts [ho, (h j o hj).tick]

theorem step (h : World.WF q w) (hs : Step q w w') : World.WF q w' := by
  cases hs with
  | start coord key kind ts =>
    constructor
    · intro m hm
      simp only [World.start, List.mem_append, List.mem_map, List.length_append,
        List.length_singleton] at hm ⊢
      rcases hm with hm | ⟨r, -, rfl⟩
      · exact Nat.lt_succ_of_lt (h.msgs m hm)
      · unfold Op.request; split <;> exact Nat.lt_succ_self _
    · intro j o hj
      rcases getElem?_append_singleton hj with hj | ⟨-, rfl⟩
      · exact (h.ops j o hj).tick
      · exact ⟨rfl, List.nodup_nil, by simp, List.Sublist.slnil, Nat.lt_succ_self _,
          fun _ => ⟨rfl, rfl⟩, by simp⟩
  | deliverWrite pre post i r o hnet hop _ | deliverRead pre post i r o hnet hop =>
    refine ⟨fun m hm => ?_, fun j o hj => (h.ops j o hj).tick⟩
    rcases List.mem_append.mp hm with hm | hm
    · exact h.msgs m (mem_of_mem_consume hnet hm)
    · rw [List.mem_singleton.mp hm]; exact lt_length_of_getElem? hop
  | deliverRepair pre post _ _ _ _ hnet | drop pre _ post hnet =>
    exact ⟨fun m hm => h.msgs m (mem_of_mem_consume hnet hm), fun j o hj => (h.ops j o hj).tick⟩
  | receiveAck pre post i r ok o hnet hop hopen hr hnew =>
    refine ⟨fun m hm => ?_, ops_set h.ops ((h.ops i o hop).addAck hopen hr hnew ok)⟩
    simpa [World.receive] using h.msgs m (mem_of_mem_consume hnet hm)
  | receiveReply pre post i r v last o hnet hop hopen hr hnew =>
    refine ⟨fun m hm => ?_, ops_set h.ops ((h.ops i o hop).addReply hopen hr hnew v last)⟩
    simpa [World.receive] using h.msgs m (mem_of_mem_consume hnet hm)
  | failFuture i r o hop hopen hr hnew =>
    refine ⟨fun m hm => ?_, ops_set h.ops ((h.ops i o hop).addFailure hopen hr hnew)⟩
    simpa [World.resolve] using h.msgs m hm
  | finish i o hop hopen hall =>
    refine ⟨fun m hm => ?_, ops_set h.ops (h.ops i o hop).close⟩
    simp only [World.finish, List.mem_append, List.mem_map, List.length_set] at hm ⊢
    rcases hm with hm | ⟨r, -, rfl⟩
    · exact h.msgs m hm
    · exact lt_length_of_getElem? hop

theorem of_reachable {stores : Bytes → StorageEngine} (hw : Reachable q stores w) :
    World.WF q w := by
  induction hw with
  | refl => exact init stores
  | tail _ hs ih => exact ih.step hs

end World.WF

/-! ## 4. No operation waits forever -/

/-- The replicas whose futures have not resolved. -/
def Op.unresolved (o : Op) : List Bytes := o.replicas.filter fun r => r ∉ o.resolved

theorem length_unresolved_addFailure {o : Op} {r : Bytes} (hr : r ∈ o.replicas)
    (hnew : r ∉ o.resolved) : (o.addFailure r).unresolved.length < o.unresolved.length := by
  have h : (o.addFailure r).unresolved = o.unresolved.filter fun x => x ∉ o.resolved ++ [r] := by
    simp only [Op.unresolved, Op.addFailure, List.filter_filter]
    congr 1
    funext x
    by_cases hx : x ∈ o.resolved <;> simp [hx]
  rw [h, List.length_filter_lt_length_iff_exists]
  exact ⟨r, List.mem_filter.mpr ⟨hr, by simpa using hnew⟩, by simp⟩

/-- Whatever the network has done, a waiting operation can still return:
its unresolved futures fail one by one, then it finishes. -/
theorem can_finish (q : QuorumConfig) (w : World) (i : Nat) (o : Op) (hop : w.ops[i]? = some o)
    (hopen : o.finished = none) :
    ∃ w' o', Relation.ReflTransGen (Step q) w w' ∧ w'.ops[i]? = some o' ∧ o'.finished ≠ none := by
  by_cases hall : ∀ r ∈ o.replicas, r ∈ o.resolved
  · exact ⟨_, _, .single (Step.finish w i o hop hopen hall),
      List.getElem?_set_self (lt_length_of_getElem? hop), by simp [Op.close]⟩
  · push_neg at hall
    obtain ⟨r, hr, hnew⟩ := hall
    have hs : Step q w (w.resolve i (o.addFailure r)) := .failFuture w i r o hop hopen hr hnew
    obtain ⟨w', o', hrun, ho', hf⟩ := can_finish q (w.resolve i (o.addFailure r)) i (o.addFailure r)
      (List.getElem?_set_self (lt_length_of_getElem? hop)) hopen
    exact ⟨w', o', .head hs hrun, ho', hf⟩
termination_by o.unresolved.length
decreasing_by exact length_unresolved_addFailure hr hnew

/-! ## 5. Operations only move forward -/

/-- `o'` is `o` later on: the same request, and once `o` has returned it no
longer changes. -/
structure Op.Le (o o' : Op) : Prop where
  coord : o'.coord = o.coord
  key : o'.key = o.key
  kind : o'.kind = o.kind
  ts : o'.ts = o.ts
  startedAt : o'.startedAt = o.startedAt
  frozen : o.finished ≠ none → o' = o

namespace Op.Le

theorem refl (o : Op) : o.Le o := ⟨rfl, rfl, rfl, rfl, rfl, fun _ => rfl⟩

theorem trans {o₁ o₂ o₃ : Op} (h₁ : o₁.Le o₂) (h₂ : o₂.Le o₃) : o₁.Le o₃ where
  coord := h₂.coord.trans h₁.coord
  key := h₂.key.trans h₁.key
  kind := h₂.kind.trans h₁.kind
  ts := h₂.ts.trans h₁.ts
  startedAt := h₂.startedAt.trans h₁.startedAt
  frozen h := by rw [h₂.frozen (by rwa [h₁.frozen h]), h₁.frozen h]

/-- A waiting operation may change anything but its request. -/
theorem of_pending {o o' : Op} (hopen : o.finished = none) (hc : o'.coord = o.coord)
    (hk : o'.key = o.key) (hkind : o'.kind = o.kind) (hts : o'.ts = o.ts)
    (hs : o'.startedAt = o.startedAt) : o.Le o' :=
  ⟨hc, hk, hkind, hts, hs, fun h => absurd hopen h⟩

end Op.Le

/-- Replacing a waiting operation moves it forward and leaves the others. -/
theorem exists_le_set {ops : List Op} {i j : Nat} {o oj o' : Op} (h : ops[i]? = some o)
    (hj : ops[j]? = some oj) (hle : oj.Le o') : ∃ o'', (ops.set j o')[i]? = some o'' ∧ o.Le o'' := by
  by_cases hij : j = i
  · subst hij
    rw [hj] at h
    cases h
    exact ⟨o', List.getElem?_set_self (lt_length_of_getElem? hj), hle⟩
  · exact ⟨o, by rw [List.getElem?_set_ne hij]; exact h, Op.Le.refl o⟩

theorem Step.ops_le {q : QuorumConfig} {w w' : World} (hs : Step q w w') {i : Nat} {o : Op}
    (h : w.ops[i]? = some o) : ∃ o', w'.ops[i]? = some o' ∧ o.Le o' := by
  cases hs with
  | start coord key kind ts =>
    refine ⟨o, ?_, Op.Le.refl o⟩
    simp only [World.start]
    rw [List.getElem?_append_left (lt_length_of_getElem? h)]
    exact h
  | deliverWrite | deliverRead | deliverRepair | drop => exact ⟨o, h, Op.Le.refl o⟩
  | receiveAck pre post j r ok oj hnet hop hopen =>
    exact exists_le_set h hop (.of_pending hopen rfl rfl rfl rfl rfl)
  | receiveReply pre post j r v last oj hnet hop hopen =>
    exact exists_le_set h hop (.of_pending hopen rfl rfl rfl rfl rfl)
  | failFuture j r oj hop hopen => exact exists_le_set h hop (.of_pending hopen rfl rfl rfl rfl rfl)
  | finish j oj hop hopen => exact exists_le_set h hop (.of_pending hopen rfl rfl rfl rfl rfl)

theorem ops_le_of_run {q : QuorumConfig} {w w' : World}
    (hr : Relation.ReflTransGen (Step q) w w') {i : Nat} {o : Op} (h : w.ops[i]? = some o) :
    ∃ o', w'.ops[i]? = some o' ∧ o.Le o' := by
  induction hr with
  | refl => exact ⟨o, h, Op.Le.refl o⟩
  | tail _ hs ih =>
    obtain ⟨o₁, h₁, hle₁⟩ := ih
    obtain ⟨o₂, h₂, hle₂⟩ := hs.ops_le h₁
    exact ⟨o₂, h₂, hle₁.trans hle₂⟩

/-! ## 6. Engine calls, and the values of one key -/

theorem mem_responses {o : Op} {resp : ReadResponse} (h : resp ∈ o.responses) :
    resp.nodeId ∈ o.replicas ∧ ∃ x ∈ o.replies, x.1 = resp.nodeId ∧ resp.value = x.2.1 := by
  simp only [Op.responses, List.mem_filterMap, Option.map_eq_some'] at h
  obtain ⟨r, hr, x, hx, rfl⟩ := h
  exact ⟨hr, x, List.mem_of_find?_eq_some hx, by simpa using List.find?_some hx, rfl⟩

/-- A get returns a value some reply carried. -/
theorem Op.value_mem {q : QuorumConfig} {o : Op} {vv : VersionedValue} (h : o.value q = some vv) :
    ∃ x ∈ o.replies, x.2.1 = some vv := by
  unfold Op.value at h
  split at h
  · split_ifs at h
    obtain ⟨resp, hresp, hv⟩ := mem_replyValues.mp (latestVersion_eq_some h).1
    obtain ⟨-, x, hx, -, hxv⟩ := mem_responses hresp
    exact ⟨x, hx, hxv ▸ hv⟩
  · cases h

theorem filter_ok_responses (o : Op) : o.responses.filter (·.ok) = o.responses := by
  refine List.filter_eq_self.mpr fun resp h => ?_
  simp only [Op.responses, List.mem_filterMap, Option.map_eq_some'] at h
  obtain ⟨r, -, x, -, rfl⟩ := h
  rfl

/-- A get with replicas ends as `finishRead` over its responses: the outcome,
the value and the read-repair targets the protocol records are those of the
end of `ReplicatedGet`, so `finishRead_spec` describes every get. -/
theorem Op.close_get (q : QuorumConfig) {o : Op} (hk : o.kind = .get) (hr : o.replicas ≠ []) :
    o.succeeds q = (finishRead q.R o.responses).1.success ∧
    o.value q = (finishRead q.R o.responses).1.value ∧
    o.staleReplicas q = (finishRead q.R o.responses).2 := by
  have hne : o.replicas.isEmpty = false := by simpa using hr
  by_cases hR : (o.responses.length : Int) < q.R
  · have hs : o.succeeds q = false := by simp [Op.succeeds, hk, hne, hR]
    simp [Op.staleReplicas, Op.value, finishRead, filter_ok_responses, hk, hs, hR]
  · have hs : o.succeeds q = true := by simp [Op.succeeds, hk, hne]; omega
    cases hl : latestVersion o.responses <;>
      simp [Op.staleReplicas, Op.value, finishRead, filter_ok_responses, hk, hs, hR, hl]

theorem Op.WF.result_mem {q : QuorumConfig} {now : Nat} {o : Op} {vv : VersionedValue}
    (hwf : o.WF q now) (h : o.result = some vv) : ∃ x ∈ o.replies, x.2.1 = some vv := by
  cases hf : o.finished with
  | none => rw [(hwf.pending hf).1] at h; cases h
  | some fs => exact Op.value_mem ((hwf.closed fs.1 fs.2 hf).2.2.1 ▸ h)

/-- A step leaves every engine alone, or makes one call on one replica: a
write request of a write operation, or a read repair of a value a get's
reply carried. -/
theorem Step.write_cases {q : QuorumConfig} {w w' : World} (hwf : w.WF q) (hs : Step q w w') :
    (w'.stores = w.stores ∧ w'.lastWrite = w.lastWrite) ∨
    ∃ (r : Bytes) (i : Nat) (o : Op) (op : KeyOp), w.ops[i]? = some o ∧
      w'.stores = (w.write r o.key op).stores ∧
      w'.lastWrite = (w.write r o.key op).lastWrite ∧
      ((o.kind ≠ .get ∧ op = o.keyOp) ∨
        ∃ latest, op = .conditionalPut latest ∧ ∃ x ∈ o.replies, x.2.1 = some latest) := by
  cases hs with
  | deliverWrite pre post i r o hnet hop hk => exact .inr ⟨r, i, o, _, hop, rfl, rfl, .inl ⟨hk, rfl⟩⟩
  | deliverRepair pre post i r o latest hnet hop hres =>
    exact .inr ⟨r, i, o, _, hop, rfl, rfl, .inr ⟨latest, rfl, (hwf.ops i o hop).result_mem hres⟩⟩
  | finish i o hop hopen =>
    have hst : (w.finish q i o).stores = (World.repairLocal q w o).stores := rfl
    have hlw : (w.finish q i o).lastWrite = (World.repairLocal q w o).lastWrite := rfl
    rcases World.repairLocal_cases q w o with h | ⟨latest, hv, h⟩
    · exact .inl ⟨hst.trans (congrArg World.stores h), hlw.trans (congrArg World.lastWrite h)⟩
    · exact .inr ⟨o.coord, i, o, _, hop, hst.trans (congrArg World.stores h),
        hlw.trans (congrArg World.lastWrite h), .inr ⟨latest, rfl, Op.value_mem hv⟩⟩
  | start | deliverRead | drop | receiveAck | receiveReply | failFuture => exact .inl ⟨rfl, rfl⟩

/-- What operation `i` was before a step: `o'` is `o` moved forward; its new
acknowledgements and replies came off the network; if it has returned, it
had already, or it returned in this step. -/
structure Op.Before (w : World) (i : Nat) (o o' : Op) : Prop where
  le : o.Le o'
  acks : ∀ r ∈ o'.acks, r ∈ o.acks ∨ Msg.ack i r true ∈ w.net
  replies : ∀ x ∈ o'.replies, x ∈ o.replies ∨ Msg.reply i x.1 x.2.1 x.2.2 ∈ w.net
  finished : ∀ f s, o'.finished = some (f, s) → o.finished = some (f, s) ∨ f = w.now

theorem Op.Before.refl (w : World) (i : Nat) (o : Op) : Op.Before w i o o :=
  ⟨Op.Le.refl o, fun _ hr => .inl hr, fun _ hx => .inl hx, fun _ _ h => .inl h⟩

/-- An operation replaced by `set` was there before, or is another one. -/
theorem before_set {w : World} {ops : List Op} (hops : ops = w.ops) {i j : Nat} {o oi : Op}
    (o' : Op) (hop : w.ops[i]? = some o) (hb : Op.Before w i o o') (hj : (ops.set i o')[j]? = some oi) :
    ∃ oj, w.ops[j]? = some oj ∧ Op.Before w j oj oi := by
  subst hops
  rcases getElem?_set_eq_some hj with ⟨rfl, rfl⟩ | ⟨-, hj⟩
  exacts [⟨o, hop, hb⟩, ⟨oi, hj, Op.Before.refl w j oi⟩]

/-- Looking back one step, an operation was there before, or the step
started it. -/
theorem Step.ops_back {q : QuorumConfig} {w w' : World} (hs : Step q w w') {i : Nat} {o' : Op}
    (h : w'.ops[i]? = some o') :
    (∃ o, w.ops[i]? = some o ∧ Op.Before w i o o') ∨
      (i = w.ops.length ∧ o'.startedAt = w.now ∧ o'.replies = [] ∧ o'.acks = [] ∧
        o'.finished = none) := by
  cases hs with
  | start coord key kind ts =>
    rcases getElem?_append_singleton h with h | ⟨rfl, rfl⟩
    exacts [.inl ⟨o', h, Op.Before.refl w i o'⟩, .inr ⟨rfl, rfl, rfl, rfl, rfl⟩]
  | deliverWrite | deliverRead | deliverRepair | drop => exact .inl ⟨o', h, Op.Before.refl w i o'⟩
  | receiveAck pre post j r ok o hnet hop hopen =>
    refine .inl (before_set rfl (o.addAck r ok) hop ⟨.of_pending hopen rfl rfl rfl rfl rfl, fun x hx => ?_,
      fun x hx => .inl hx, fun f s hf => absurd hf (by simp [Op.addAck, hopen])⟩ h)
    simp only [Op.addAck] at hx
    split_ifs at hx with hok
    · rcases List.mem_append.mp hx with hx | hx
      · exact .inl hx
      · rw [List.mem_singleton.mp hx, ← hok, hnet]
        exact .inr (List.mem_append_right _ (List.mem_cons_self _ _))
    · exact .inl hx
  | receiveReply pre post j r v last o hnet hop hopen =>
    refine .inl (before_set rfl (o.addReply r v last) hop ⟨.of_pending hopen rfl rfl rfl rfl rfl,
      fun x hx => .inl hx, fun x hx => ?_, fun f s hf => absurd hf (by simp [Op.addReply, hopen])⟩ h)
    rcases List.mem_append.mp hx with hx | hx
    · exact .inl hx
    · rw [List.mem_singleton.mp hx, hnet]
      exact .inr (List.mem_append_right _ (List.mem_cons_self _ _))
  | failFuture j r o hop hopen =>
    exact .inl (before_set rfl (o.addFailure r) hop ⟨.of_pending hopen rfl rfl rfl rfl rfl,
      fun x hx => .inl hx, fun x hx => .inl hx,
      fun f s hf => absurd hf (by simp [Op.addFailure, hopen])⟩ h)
  | finish j o hop hopen =>
    refine .inl (before_set rfl (o.close q w.now) hop ⟨.of_pending hopen rfl rfl rfl rfl rfl,
      fun x hx => .inl hx, fun x hx => .inl hx, fun f s hf => ?_⟩ h)
    simp only [Op.close, Option.some.injEq, Prod.mk.injEq] at hf
    exact .inr hf.1.symm

/-- A reply in flight after a step was in flight before, or the step read
it off the replica. -/
theorem Step.reply_mem {q : QuorumConfig} {w w' : World} (hs : Step q w w') {i : Nat} {r : Bytes}
    {v : Option VersionedValue} {last : Option KeyOp} (hm : Msg.reply i r v last ∈ w'.net) :
    Msg.reply i r v last ∈ w.net ∨
      ∃ o, w.ops[i]? = some o ∧ v = (w.stores r).get o.key ∧ last = w.lastWrite r o.key := by
  cases hs with
  | start coord key kind ts =>
    simp only [World.start, List.mem_append, List.mem_map] at hm
    rcases hm with hm | ⟨r', -, hr'⟩
    · exact .inl hm
    · unfold Op.request at hr'; split at hr' <;> cases hr'
  | deliverWrite pre post j r' o hnet =>
    rcases List.mem_append.mp hm with hm | hm
    · exact .inl (mem_of_mem_consume hnet hm)
    · cases List.mem_singleton.mp hm
  | deliverRead pre post j r' o hnet hop =>
    rcases List.mem_append.mp hm with hm | hm
    · exact .inl (mem_of_mem_consume hnet hm)
    · obtain ⟨rfl, rfl, rfl, rfl⟩ := Msg.reply.inj (List.mem_singleton.mp hm)
      exact .inr ⟨o, hop, rfl, rfl⟩
  | deliverRepair pre post j r' o latest hnet | drop pre m post hnet
  | receiveAck pre post j r' ok o hnet | receiveReply pre post j r' v' last' o hnet =>
    exact .inl (mem_of_mem_consume hnet hm)
  | failFuture => exact .inl hm
  | finish j o =>
    simp only [World.finish, List.mem_append, List.mem_map] at hm
    rcases hm with hm | ⟨r', -, hr'⟩
    exacts [.inl hm, by cases hr']

/-- An acknowledgement in flight after a step was in flight before, or the
step delivered the write it acknowledges. -/
theorem Step.ack_mem {q : QuorumConfig} {w w' : World} (hs : Step q w w') {i : Nat} {r : Bytes}
    {b : Bool} (hm : Msg.ack i r b ∈ w'.net) :
    Msg.ack i r b ∈ w.net ∨
      ∃ o, w.ops[i]? = some o ∧ o.kind ≠ .get ∧ w'.stores = (w.write r o.key o.keyOp).stores := by
  cases hs with
  | start coord key kind ts =>
    simp only [World.start, List.mem_append, List.mem_map] at hm
    rcases hm with hm | ⟨r', -, hr'⟩
    · exact .inl hm
    · unfold Op.request at hr'; split at hr' <;> cases hr'
  | deliverWrite pre post j r' o hnet hop hk =>
    rcases List.mem_append.mp hm with hm | hm
    · exact .inl (mem_of_mem_consume hnet hm)
    · obtain ⟨rfl, rfl, -⟩ := Msg.ack.inj (List.mem_singleton.mp hm)
      exact .inr ⟨o, hop, hk, rfl⟩
  | deliverRead pre post j r' o hnet =>
    rcases List.mem_append.mp hm with hm | hm
    · exact .inl (mem_of_mem_consume hnet hm)
    · cases List.mem_singleton.mp hm
  | deliverRepair pre post j r' o latest hnet | drop pre m post hnet
  | receiveAck pre post j r' ok o hnet | receiveReply pre post j r' v' last' o hnet =>
    exact .inl (mem_of_mem_consume hnet hm)
  | failFuture => exact .inl hm
  | finish j o =>
    simp only [World.finish, List.mem_append, List.mem_map] at hm
    rcases hm with hm | ⟨r', -, hr'⟩
    exacts [.inl hm, by cases hr']

section Values

variable (k : Bytes)

/-- Every reply for an operation on `k`, in flight or received, satisfies
`S` of its value and its ghost last call. -/
structure RepliesSatisfy (S : Option VersionedValue → Option KeyOp → Prop) (w : World) : Prop where
  net : ∀ (i : Nat) (r : Bytes) (v : Option VersionedValue) (last : Option KeyOp) (o : Op),
    Msg.reply i r v last ∈ w.net → w.ops[i]? = some o → o.key = k → S v last
  ops : ∀ (i : Nat) (o : Op), w.ops[i]? = some o → o.key = k → ∀ x ∈ o.replies, S x.2.1 x.2.2

variable {k} {S : Option VersionedValue → Option KeyOp → Prop} {q : QuorumConfig} {w w' : World}

theorem RepliesSatisfy.init (stores : Bytes → StorageEngine) :
    RepliesSatisfy k S (World.init stores) :=
  ⟨fun _ _ _ _ _ hm => absurd hm (List.not_mem_nil _), fun _ _ h => by cases h⟩

/-- Replies satisfy `S` as long as the replicas they read do. -/
theorem RepliesSatisfy.step (hwf : w.WF q) (h : RepliesSatisfy k S w)
    (hst : ∀ n, S ((w.stores n).get k) (w.lastWrite n k)) (hs : Step q w w') :
    RepliesSatisfy k S w' := by
  constructor
  · intro i r v last o' hm hop' hk
    rcases hs.reply_mem hm with hm | ⟨o, hop, rfl, rfl⟩
    · rcases hs.ops_back hop' with ⟨o, hop, hb⟩ | ⟨rfl, -⟩
      · exact h.net i r v last o hm hop (hb.le.key ▸ hk)
      · exact absurd (hwf.msgs _ hm) (lt_irrefl _)
    · rcases hs.ops_back hop' with ⟨o₁, hop₁, hb⟩ | ⟨rfl, -⟩
      · rw [hop] at hop₁
        cases hop₁
        rw [← hb.le.key, hk]
        exact hst r
      · exact absurd (lt_length_of_getElem? hop) (lt_irrefl _)
  · intro i o' hop' hk x hx
    rcases hs.ops_back hop' with ⟨o, hop, hb⟩ | ⟨-, -, hnil, -⟩
    · rcases hb.replies x hx with hx | hm
      exacts [h.ops i o hop (hb.le.key ▸ hk) x hx, h.net i _ _ _ o hm hop (hb.le.key ▸ hk)]
    · rw [hnil] at hx
      cases hx

/-- Every value of `k` a put offers satisfies `Q`. -/
def PutsSatisfy (k : Bytes) (Q : VersionedValue → Prop) (w : World) : Prop :=
  ∀ (i : Nat) (o : Op) v, w.ops[i]? = some o → o.key = k → o.kind = .put v →
    Q ⟨v, o.ts, o.coord⟩

/-- Every value of `k` the system holds satisfies `Q`: in an engine, and in
every reply. A get's result and its repairs are among its replies
(`Op.value_mem`). -/
structure Values (k : Bytes) (Q : VersionedValue → Prop) (w : World) : Prop where
  stores : ∀ n vv, (w.stores n).get k = some vv → Q vv
  replies : RepliesSatisfy k (fun v _ => ∀ vv, v = some vv → Q vv) w

variable {Q : VersionedValue → Prop}

theorem PutsSatisfy.of_run (hr : Relation.ReflTransGen (Step q) w w') (h : PutsSatisfy k Q w') :
    PutsSatisfy k Q w := by
  intro i o v hop hk hkind
  obtain ⟨o', hop', hle⟩ := ops_le_of_run hr hop
  have := h i o' v hop' (hle.key ▸ hk) (hle.kind ▸ hkind)
  rwa [hle.ts, hle.coord] at this

/-- An engine call whose offered value satisfies `Q` keeps every value of
`k` satisfying `Q`. -/
theorem values_write {w : World} (h : ∀ n vv, (w.stores n).get k = some vv → Q vv) (r key : Bytes)
    (op : KeyOp) (hop : ∀ vv, op.offered = some vv → key = k → Q vv) :
    ∀ n vv, ((w.write r key op).stores n).get k = some vv → Q vv := by
  intro n vv hn
  rw [World.get_write] at hn
  split_ifs at hn with hnk
  · rcases KeyOp.step_eq_some hn with hv | hv
    exacts [hop vv hv hnk.2.symm, h r vv hv]
  · exact h n vv hn

theorem Values.step (hwf : w.WF q) (h : Values k Q w) (hput : PutsSatisfy k Q w)
    (hs : Step q w w') : Values k Q w' := by
  refine ⟨?_, h.replies.step hwf (fun n vv hv => h.stores n vv hv) hs⟩
  rcases hs.write_cases hwf with ⟨hst, -⟩ | ⟨r, i, o, op, hop, hst, -, hkind⟩
  · exact hst ▸ h.stores
  · rw [hst]
    refine values_write h.stores r o.key op fun vv hv hk => ?_
    rcases hkind with ⟨-, rfl⟩ | ⟨latest, rfl, x, hx, hxv⟩
    · unfold Op.keyOp at hv
      split at hv
      next v hkv =>
        cases hv
        exact hput i o v hop hk hkv
      next => cases hv
    · cases hv
      exact h.replies.ops i o hop hk x hx _ hxv

end Values

/-! ## 7. Outcomes -/

namespace Op

theorem keyOp_ts (o : Op) : o.keyOp.ts = o.ts := by
  unfold keyOp; split <;> rfl

theorem succeeds_write {q : QuorumConfig} {o : Op} (hk : o.kind ≠ .get) (h : o.succeeds q = true) :
    o.replicas ≠ [] ∧ q.W ≤ o.acks.length := by
  unfold succeeds at h
  split at h
  · exact absurd ‹o.kind = .get› hk
  · simpa [writeSucceeds] using h

theorem succeeds_get {q : QuorumConfig} {o : Op} (hk : o.kind = .get) (h : o.succeeds q = true) :
    o.replicas ≠ [] ∧ q.R ≤ o.responses.length ∧ o.value q = latestVersion o.responses := by
  simp only [succeeds, hk, Bool.and_eq_true, Bool.not_eq_true', List.isEmpty_eq_false,
    decide_eq_true_eq] at h
  refine ⟨by simpa using h.1, h.2, ?_⟩
  simp [value, hk, succeeds, h.1, h.2]

/-- The replicas a get heard from are distinct replicas. -/
theorem responders_sublist (o : Op) : (o.responses.map (·.nodeId)).Sublist o.replicas := by
  unfold responses
  induction o.replicas with
  | nil => exact List.Sublist.slnil
  | cons a l ih =>
    rw [List.filterMap_cons]
    cases o.replies.find? (·.1 == a) with
    | none => exact ih.cons a
    | some x => exact ih.cons₂ a

end Op

/-- Two quorums of the same replicas meet when `R + W > N`: the replicas
of one key are at most `N`, and a write quorum and a read quorum that
missed each other would need `R + W` of them. -/
theorem quorums_meet {L A B : List Bytes} {N R W : Int} (hL : (L.length : Int) ≤ max N 0)
    (hne : L ≠ []) (hA : A.Nodup) (hB : B.Nodup) (hAL : ∀ x ∈ A, x ∈ L) (hBL : ∀ x ∈ B, x ∈ L)
    (hW : W ≤ A.length) (hR : R ≤ B.length) (hq : N < R + W) : ∃ x ∈ A, x ∈ B := by
  by_contra hdis
  push_neg at hdis
  have hd : (A ++ B).Nodup := List.nodup_append.mpr ⟨hA, hB, fun x hx hy => hdis x hx hy⟩
  have hsub := (List.subperm_of_subset hd fun x hx =>
    (List.mem_append.mp hx).elim (hAL x) (hBL x)).length_le
  rw [List.length_append] at hsub
  have hpos : 0 < L.length := List.length_pos.mpr hne
  rcases max_cases N 0 with ⟨h, -⟩ | ⟨h, -⟩ <;> omega

/-! ## 8. Read-after-write for puts -/

section PutVisible

variable (k : Bytes) (p : Nat) (vv : VersionedValue)

/-- Operation `p` is the put of `vv` on `k`, and every other write of `k`
is older than `vv`. -/
structure PutOwns (w : World) : Prop where
  put : ∀ P, w.ops[p]? = some P →
    P.key = k ∧ P.kind = .put vv.value ∧ P.ts = vv.timestamp ∧ P.coord = vv.originNode
  others : ∀ (i : Nat) (o : Op), w.ops[i]? = some o → i ≠ p → o.key = k → o.kind ≠ .get →
    o.ts < vv.timestamp

/-- Every replica that acknowledged the put, or whose acknowledgement is in
flight, holds `vv`. -/
structure AckedHold (w : World) : Prop where
  acks : ∀ P, w.ops[p]? = some P → ∀ r ∈ P.acks, (w.stores r).get k = some vv
  net : ∀ r, Msg.ack p r true ∈ w.net → (w.stores r).get k = some vv

/-- Every reply a get of `k` that started after the put returned has, or
will have, from a replica that acknowledged the put carries `vv`. -/
def LaterReads (w : World) : Prop :=
  ∀ (P : Op) fp s, w.ops[p]? = some P → P.finished = some (fp, s) →
    ∀ (g : Nat) (G : Op), w.ops[g]? = some G → G.key = k → fp < G.startedAt →
      (∀ r v last, Msg.reply g r v last ∈ w.net → r ∈ P.acks → v = some vv) ∧
      (∀ x ∈ G.replies, x.1 ∈ P.acks → x.2.1 = some vv)

variable {k p vv} {q : QuorumConfig} {w w' : World}

theorem PutOwns.of_run (hr : Relation.ReflTransGen (Step q) w w') (h : PutOwns k p vv w') :
    PutOwns k p vv w := by
  constructor
  · intro P hP
    obtain ⟨P', hP', hle⟩ := ops_le_of_run hr hP
    rw [← hle.key, ← hle.kind, ← hle.ts, ← hle.coord]
    exact h.put P' hP'
  · intro i o hop hip hk hkind
    obtain ⟨o', hop', hle⟩ := ops_le_of_run hr hop
    exact hle.ts ▸ h.others i o' hop' hip (hle.key ▸ hk) (hle.kind ▸ hkind)

/-- The put offers `vv`, every other put something older. -/
theorem PutOwns.puts (h : PutOwns k p vv w) : PutsSatisfy k (fun x => Dominated vv (some x)) w := by
  intro i o v hop hk hkind
  by_cases hip : i = p
  · subst hip
    obtain ⟨-, hkind', hts, hc⟩ := h.put o hop
    rw [hkind] at hkind'
    cases hkind'
    exact .inl (by rw [hts, hc])
  · exact .inr (h.others i o hop hip hk (by rw [hkind]; exact OpKind.noConfusion))

theorem PutOwns.keyOp_offered (h : PutOwns k p vv w) {P : Op} (hP : w.ops[p]? = some P) :
    P.keyOp.offered = some vv := by
  obtain ⟨-, hkind, hts, hc⟩ := h.put P hP
  simp only [Op.keyOp, hkind, KeyOp.offered, hts, hc]

/-- The calls a step makes keep `vv` where it is: the put's own write,
older writes, and repairs of values the put dominates. -/
theorem holds_step (hwf : w.WF q) (hv : Values k (fun x => Dominated vv (some x)) w)
    (hc : PutOwns k p vv w) (hs : Step q w w') {n : Bytes} (hn : (w.stores n).get k = some vv) :
    (w'.stores n).get k = some vv := by
  rcases hs.write_cases hwf with ⟨hst, -⟩ | ⟨r, i, o, op, hop, hst, -, hkind⟩
  · rwa [hst]
  · rw [hst, World.get_write]
    split_ifs with hnk
    · obtain ⟨rfl, hk⟩ := hnk
      rw [hn]
      apply step_keeps
      rcases hkind with ⟨hkg, rfl⟩ | ⟨latest, rfl, x, hx, hxv⟩
      · by_cases hip : i = p
        · subst hip; exact .inl (hc.keyOp_offered hop)
        · exact .inr (o.keyOp_ts ▸ hc.others i o hop hip hk.symm hkg)
      · rcases hv.replies.ops i o hop hk.symm x hx latest hxv with rfl | hlt
        exacts [.inl rfl, .inr hlt]
    · exact hn

/-- The put's write leaves its replica holding `vv`, whatever it acknowledges. -/
theorem holds_after_put (hv : Values k (fun x => Dominated vv (some x)) w)
    (hc : PutOwns k p vv w) {P : Op} (hP : w.ops[p]? = some P) (r : Bytes) :
    ((w.write r P.key P.keyOp).stores r).get k = some vv := by
  rw [World.get_write, if_pos ⟨rfl, (hc.put P hP).1.symm⟩]
  apply step_offered (hc.keyOp_offered hP)
  cases hx : (w.stores r).get k with
  | none => trivial
  | some x => exact hv.stores r x hx

theorem AckedHold.step (hwf : w.WF q) (hv : Values k (fun x => Dominated vv (some x)) w)
    (hc : PutOwns k p vv w) (h : AckedHold k p vv w) (hs : Step q w w') : AckedHold k p vv w' := by
  constructor
  · intro P' hP' r hr
    rcases hs.ops_back hP' with ⟨P, hP, hb⟩ | ⟨-, -, -, hnil, -⟩
    · rcases hb.acks r hr with hr | hm
      exacts [holds_step hwf hv hc hs (h.acks P hP r hr), holds_step hwf hv hc hs (h.net r hm)]
    · rw [hnil] at hr; cases hr
  · intro r hm
    rcases hs.ack_mem hm with hm | ⟨o, hop, -, hst⟩
    · exact holds_step hwf hv hc hs (h.net r hm)
    · rw [hst]; exact holds_after_put hv hc hop r

theorem LaterReads.step (hwf : w.WF q) (ha : AckedHold k p vv w) (h : LaterReads k p vv w)
    (hs : Step q w w') : LaterReads k p vv w' := by
  intro P' fp s hP' hfin g G' hG' hk hlater
  obtain ⟨P, hP, hb⟩ : ∃ P, w.ops[p]? = some P ∧ Op.Before w p P P' := by
    rcases hs.ops_back hP' with h' | ⟨-, -, -, -, hnone⟩
    exacts [h', absurd (hnone ▸ hfin) (by simp)]
  rcases hs.ops_back hG' with ⟨G, hG, hbG⟩ | ⟨rfl, -, hnil, -, -⟩
  · have hGk : G.key = k := hbG.le.key ▸ hk
    rcases hb.finished fp s hfin with hPfin | rfl
    · -- the put had returned before this step
      obtain rfl : P' = P := hb.le.frozen (by simp [hPfin])
      obtain ⟨hnet, hrep⟩ := h P' fp s hP hPfin g G hG hGk (hbG.le.startedAt ▸ hlater)
      refine ⟨fun r v last hm hr => ?_, fun x hx hr => ?_⟩
      · rcases hs.reply_mem hm with hm | ⟨o, ho, rfl, -⟩
        · exact hnet r v last hm hr
        · rw [hG] at ho
          cases ho
          rw [hGk]
          exact ha.acks P' hP r hr
      · rcases hbG.replies x hx with hx | hm
        exacts [hrep x hx hr, hnet _ _ _ hm hr]
    · -- the put returns in this step, after every get started so far
      have := (hwf.ops g G hG).startedAt_lt
      rw [hbG.le.startedAt] at hlater
      omega
  · -- a get started in this step has nothing yet
    refine ⟨fun r v last hm _ => ?_, fun x hx => by rw [hnil] at hx; cases hx⟩
    rcases hs.reply_mem hm with hm | ⟨o, ho, -, -⟩
    exacts [absurd (hwf.msgs _ hm) (lt_irrefl _), absurd (lt_length_of_getElem? ho) (lt_irrefl _)]

/-- Run lemma: along a run in which `p` is the put of `vv` and every other
write of `k` is older, values of `k` are dominated by `vv`, the replicas
that acknowledged `vv` hold it, and later gets read it from them. -/
theorem putInv_of_reachable {stores : Bytes → StorageEngine} (hw : Reachable q stores w)
    (hinit : ∀ n x, (stores n).get k = some x → Dominated vv (some x)) (hc : PutOwns k p vv w) :
    Values k (fun x => Dominated vv (some x)) w ∧ AckedHold k p vv w ∧ LaterReads k p vv w := by
  induction hw with
  | refl =>
    exact ⟨⟨hinit, .init stores⟩,
      ⟨(fun _ h => by cases h), fun _ hm => absurd hm (List.not_mem_nil _)⟩,
      fun _ _ _ h => by cases h⟩
  | tail hr hs ih =>
    have hc₀ := hc.of_run (.single hs)
    obtain ⟨hv, ha, hl⟩ := ih hc₀
    have hwf := World.WF.of_reachable hr
    exact ⟨hv.step hwf hc₀.puts hs, ha.step hwf hv hc₀ hs, hl.step hwf ha hs⟩

end PutVisible

/-- Read-after-write for puts. With `R + W > N`: if a put of `v` on `k` by
`c` at a positive timestamp `t` returned success, and every other write of
`k`, and everything the engines held for `k` at the start, is older than
`t`, then every get of `k` that started after the put returned and
succeeded returned `(v, t, c)`. -/
theorem put_visible_to_later_gets (q : QuorumConfig) (stores : Bytes → StorageEngine) (w : World)
    (k v c : Bytes) (t : Timestamp) (p g fp fg : Nat) (P G : Op)
    (hq : q.N < q.R + q.W) (hw : Reachable q stores w)
    (hinit : ∀ n x, (stores n).get k = some x → x.timestamp < t)
    (hP : w.ops[p]? = some P) (hPk : P.key = k) (hPkind : P.kind = .put v) (hPts : P.ts = t)
    (hPc : P.coord = c) (ht : 0 < t) (hPok : P.finished = some (fp, true))
    (hother : ∀ (i : Nat) (o : Op), w.ops[i]? = some o → i ≠ p → o.key = k → o.kind ≠ .get →
      o.ts < t)
    (hG : w.ops[g]? = some G) (hGk : G.key = k) (hGkind : G.kind = .get)
    (hGok : G.finished = some (fg, true)) (hlater : fp < G.startedAt) :
    G.result = some ⟨v, t, c⟩ := by
  have hc : PutOwns k p ⟨v, t, c⟩ w :=
    ⟨fun P' hP' => by rw [hP] at hP'; cases hP'; exact ⟨hPk, hPkind, hPts, hPc⟩, hother⟩
  obtain ⟨hv, -, hl⟩ := putInv_of_reachable hw (fun n x hx => .inr (hinit n x hx)) hc
  have hwf := World.WF.of_reachable hw
  have hPwf := hwf.ops p P hP
  have hGwf := hwf.ops g G hG
  obtain ⟨-, hPs, -, -⟩ := hPwf.closed fp true hPok
  obtain ⟨-, hGs, hGres, -⟩ := hGwf.closed fg true hGok
  obtain ⟨hPne, hW⟩ := Op.succeeds_write (by rw [hPkind]; exact OpKind.noConfusion) hPs.symm
  obtain ⟨-, hR, hval⟩ := Op.succeeds_get hGkind hGs.symm
  -- the put's acknowledgements and the get's responders are quorums of the same replicas
  have hL : P.replicas = replicasFor q.ring q.N k := hPk ▸ hPwf.replicas
  have hGL : G.replicas = replicasFor q.ring q.N k := hGk ▸ hGwf.replicas
  have hsub := G.responders_sublist
  obtain ⟨r, hrP, hrG⟩ := quorums_meet (length_replicasFor_le q.ring q.N k) (hL ▸ hPne)
    (hPwf.acks_sublist.nodup hPwf.resolved_nodup) (hsub.nodup (hGL ▸ nodup_replicasFor _ _ _))
    (fun x hx => hL ▸ hPwf.resolved_sub x (hPwf.acks_sublist.subset hx))
    (fun x hx => hGL ▸ hsub.subset hx) hW (by rwa [List.length_map]) hq
  -- the replica in both answered the get with the put's value
  obtain ⟨resp, hresp, rfl⟩ := List.mem_map.mp hrG
  obtain ⟨-, x, hx, hx1, hxv⟩ := mem_responses hresp
  have hmem : (⟨v, t, c⟩ : VersionedValue) ∈ replyValues G.responses :=
    mem_replyValues.mpr ⟨resp, hresp, hxv.trans ((hl P fp true hP hPok g G hG hGk hlater).2 x hx
      (hx1 ▸ hrP))⟩
  -- and every value at least as new is the put's
  rw [hGres, hval]
  refine latestVersion_of_dominant hmem (ts_lt_iff.mp ht) fun y hy hle => ?_
  obtain ⟨resp', hresp', hy'⟩ := mem_replyValues.mp hy
  obtain ⟨-, x', hx', -, hx'v⟩ := mem_responses hresp'
  rcases hv.replies.ops g G hG hGk x' hx' y (hx'v ▸ hy') with rfl | hlt
  · rfl
  · exact absurd hle (Nat.not_le.mpr (ts_lt_iff.mp hlt))

/-- One node, `n1`, owning every key; `N = R = W = 1`. -/
def soloConfig : QuorumConfig := ⟨(ConsistentHashRing.new 1).addNode (Bytes.ofString "n1"), 1, 1, 1⟩

/-- Every engine empty. -/
def emptyStores : Bytes → StorageEngine := fun _ => StorageEngine.ofFile []

/-- `n1` puts `v` on `k` at 100, at time 0. -/
def soloPut : Op :=
  ⟨Bytes.ofString "n1", Bytes.ofString "k", .put (Bytes.ofString "v"), 100,
    replicasFor soloConfig.ring 1 (Bytes.ofString "k"), 0, [], [], [], none, none, []⟩

/-- `n1` gets `k`, at time 4. -/
def soloGet : Op :=
  ⟨Bytes.ofString "n1", Bytes.ofString "k", .get, 0,
    replicasFor soloConfig.ring 1 (Bytes.ofString "k"), 4, [], [], [], none, none, []⟩

/-- The value the put writes. -/
def soloValue : VersionedValue := ⟨Bytes.ofString "v", 100, Bytes.ofString "n1"⟩

/-- The get with its one reply. -/
def soloGetAnswered : Op :=
  soloGet.addReply (Bytes.ofString "n1") (some soloValue)
    (some (.put (Bytes.ofString "v") 100 (Bytes.ofString "n1")))

/-- The put runs to its end: written at `n1`, acknowledged, returned. -/
def soloPutDone : World :=
  ((((World.init emptyStores).start soloConfig (Bytes.ofString "n1") (Bytes.ofString "k")
    (.put (Bytes.ofString "v")) 100).deliverWrite [] [] 0 (Bytes.ofString "n1") soloPut).receive
    [] [] 0 (soloPut.addAck (Bytes.ofString "n1") true)).finish soloConfig 0
    (soloPut.addAck (Bytes.ofString "n1") true)

/-- Then the get: read at `n1`, answered, returned. -/
def soloGetDone : World :=
  (((soloPutDone.start soloConfig (Bytes.ofString "n1") (Bytes.ofString "k") .get 0).deliverRead
    [] [] 1 (Bytes.ofString "n1") soloGet).receive [] [] 1 soloGetAnswered).finish soloConfig 1
    soloGetAnswered

theorem soloGetDone_reachable : Reachable soloConfig emptyStores soloGetDone :=
  .tail (.tail (.tail (.tail (.tail (.tail (.tail (.single
    (Step.start _ _ _ _ _))
    (Step.deliverWrite _ [] [] 0 _ soloPut (by decide) (by decide) (by decide)))
    (Step.receiveAck _ [] [] 0 _ true soloPut (by decide) (by decide) rfl (by decide) (by decide)))
    (Step.finish _ 0 _ (by decide) rfl (by decide)))
    (Step.start _ _ _ _ _))
    (Step.deliverRead _ [] [] 1 _ soloGet (by decide) (by decide)))
    (Step.receiveReply _ [] [] 1 _ _ _ soloGet (by decide) (by decide) rfl (by decide) (by decide)))
    (Step.finish _ 1 _ (by decide) rfl (by decide))

theorem soloGetDone_ops : soloGetDone.ops =
    [(soloPut.addAck (Bytes.ofString "n1") true).close soloConfig 3,
      soloGetAnswered.close soloConfig 7] := by
  decide

/-- On that run the get returns the put's value. -/
theorem put_visible_solo : (soloGetAnswered.close soloConfig 7).result = some soloValue :=
  put_visible_to_later_gets soloConfig emptyStores soloGetDone (Bytes.ofString "k")
    (Bytes.ofString "v") (Bytes.ofString "n1") 100 0 1 3 7
    ((soloPut.addAck (Bytes.ofString "n1") true).close soloConfig 3)
    (soloGetAnswered.close soloConfig 7) (by decide) soloGetDone_reachable
    (fun n x hx => by simp [emptyStores] at hx) (by rw [soloGetDone_ops]; rfl) rfl rfl rfl rfl
    (by decide) (by decide)
    (fun i o hop hi _ hkind => by
      rw [soloGetDone_ops] at hop
      rcases i with _ | _ | i
      · exact absurd rfl hi
      · cases hop; exact absurd rfl hkind
      · cases hop)
    (by rw [soloGetDone_ops]; rfl) rfl rfl (by decide) (by decide)

/-! ## 9. Reads after a delete -/

section Deletes

variable (k : Bytes) (td : Timestamp)

/-- A replica whose last call on `k` was a delete at `td` or later has no
entry for `k`. -/
def DeletedEmpty (v : Option VersionedValue) (last : Option KeyOp) : Prop :=
  ∀ t, last = some (.delete t) → td ≤ t → v = none

variable {k td} {q : QuorumConfig} {w w' : World}

/-- A delete at `td` or later empties an entry older than `td`; any other
call is not such a delete. -/
theorem deletedEmpty_write (hv : ∀ n x, (w.stores n).get k = some x → x.timestamp < td)
    (h : ∀ n, DeletedEmpty td ((w.stores n).get k) (w.lastWrite n k)) (r key : Bytes)
    (op : KeyOp) (n : Bytes) :
    DeletedEmpty td (((w.write r key op).stores n).get k) ((w.write r key op).lastWrite n k) := by
  intro t hlast hle
  rw [World.lastWrite_write] at hlast
  rw [World.get_write]
  split_ifs at hlast ⊢ with hnk
  · cases hlast
    apply step_delete_olderThan
    cases hx : (w.stores r).get k with
    | none => trivial
    | some x =>
      have := hv r x hx
      simp only [OlderThan, ts_lt_iff, ts_le_iff] at this hle ⊢
      omega
  · exact h n t hlast hle

theorem DeletedEmpty.step (hwf : w.WF q) (hv : ∀ n x, (w.stores n).get k = some x → x.timestamp < td)
    (h : ∀ n, DeletedEmpty td ((w.stores n).get k) (w.lastWrite n k)) (hs : Step q w w') :
    ∀ n, DeletedEmpty td ((w'.stores n).get k) (w'.lastWrite n k) := by
  rcases hs.write_cases hwf with ⟨hst, hlw⟩ | ⟨r, i, o, op, -, hst, hlw, -⟩
  · rw [hst, hlw]; exact h
  · rw [hst, hlw]; exact deletedEmpty_write hv h r o.key op

/-- Run lemma: if every put of `k`, and everything the engines held at the
start, is older than `td`, then values of `k` are older than `td`, and
every reply for `k` from a replica whose last call was a delete at `td`
or later carries no value. -/
theorem deleteInv_of_reachable {stores : Bytes → StorageEngine} (hw : Reachable q stores w)
    (hinit : ∀ n x, (stores n).get k = some x → x.timestamp < td)
    (hput : PutsSatisfy k (fun x => x.timestamp < td) w) :
    Values k (fun x => x.timestamp < td) w ∧
      (∀ n, DeletedEmpty td ((w.stores n).get k) (w.lastWrite n k)) ∧
      RepliesSatisfy k (DeletedEmpty td) w := by
  induction hw with
  | refl =>
    exact ⟨⟨hinit, .init stores⟩, (fun _ _ h => by cases h), .init stores⟩
  | tail hr hs ih =>
    have hput₀ := hput.of_run (.single hs)
    obtain ⟨hv, hd, hrep⟩ := ih hput₀
    have hwf := World.WF.of_reachable hr
    exact ⟨hv.step hwf hput₀ hs, DeletedEmpty.step hwf hv.stores hd hs, hrep.step hwf hd hs⟩

end Deletes

/-- Reads after a delete, as the code has them. If every put of `k`, and
everything the engines held for `k` at the start, is older than `td`, a get
of `k` returns a value only if some replica answered it with that value
whose last call on `k` was not a delete at `td` or later; and a get that
returns no value repairs nothing. -/
theorem get_value_from_undeleted_replica (q : QuorumConfig) (stores : Bytes → StorageEngine)
    (w : World) (k : Bytes) (td : Timestamp) (g : Nat) (G : Op) (hw : Reachable q stores w)
    (hinit : ∀ n x, (stores n).get k = some x → x.timestamp < td)
    (hputs : ∀ (i : Nat) (o : Op) v, w.ops[i]? = some o → o.key = k → o.kind = .put v → o.ts < td)
    (hG : w.ops[g]? = some G) (hGk : G.key = k) :
    (G.result = none → G.repairs = []) ∧
      ∀ vv, G.result = some vv → ∃ x ∈ G.replies, x.2.1 = some vv ∧
        ∀ t, x.2.2 = some (.delete t) → t < td := by
  obtain ⟨-, -, hrep⟩ := deleteInv_of_reachable hw hinit (fun i o v hop hk hkind => hputs i o v hop hk hkind)
  have hGwf := (World.WF.of_reachable hw).ops g G hG
  refine ⟨fun hnone => ?_, fun vv hvv => ?_⟩
  · cases hf : G.finished with
    | none => exact (hGwf.pending hf).2
    | some fs =>
      obtain ⟨-, -, hres, hrepairs⟩ := hGwf.closed fs.1 fs.2 hf
      rw [hrepairs, Op.staleReplicas, ← hres, hnone]
  · obtain ⟨x, hx, hxv⟩ := hGwf.result_mem hvv
    refine ⟨x, hx, hxv, fun t ht => ?_⟩
    by_contra hle
    have := hrep.ops g G hG hGk x hx t ht (by simpa only [ts_le_iff, ts_lt_iff, not_lt] using hle)
    rw [hxv] at this
    cases this

/-- Three nodes, one virtual node each; `N = 3`, `R = W = 2`. -/
def trioConfig : QuorumConfig :=
  ⟨(((ConsistentHashRing.new 1).addNode (Bytes.ofString "n1")).addNode
    (Bytes.ofString "n2")).addNode (Bytes.ofString "n3"), 3, 2, 2⟩

/-- An operation of `n1` on `k` as `start` records it; the replicas of `k`
are `n2`, `n3`, `n1` in that order. -/
def trioOp (kind : OpKind) (ts : Timestamp) (startedAt : Nat) : Op :=
  ⟨Bytes.ofString "n1", Bytes.ofString "k", kind, ts,
    replicasFor trioConfig.ring 3 (Bytes.ofString "k"), startedAt, [], [], [], none, none, []⟩

/-- The put of `v` at 100 reaches all three replicas, is acknowledged by
all three and returns success. -/
def trioPutDone : World :=
  let P := trioOp (.put (Bytes.ofString "v")) 100 0
  let P₁ := P.addAck (Bytes.ofString "n2") true
  let P₂ := P₁.addAck (Bytes.ofString "n3") true
  let P₃ := P₂.addAck (Bytes.ofString "n1") true
  ((((((((World.init emptyStores).start trioConfig (Bytes.ofString "n1") (Bytes.ofString "k")
    (.put (Bytes.ofString "v")) 100).deliverWrite
      [] [.write 0 (Bytes.ofString "n3"), .write 0 (Bytes.ofString "n1")] 0 (Bytes.ofString "n2") P
    ).deliverWrite
      [] [.write 0 (Bytes.ofString "n1"), .ack 0 (Bytes.ofString "n2") true] 0 (Bytes.ofString "n3")
      P).deliverWrite
      [] [.ack 0 (Bytes.ofString "n2") true, .ack 0 (Bytes.ofString "n3") true] 0
      (Bytes.ofString "n1") P).receive
      [] [.ack 0 (Bytes.ofString "n3") true, .ack 0 (Bytes.ofString "n1") true] 0 P₁).receive
      [] [.ack 0 (Bytes.ofString "n1") true] 0 P₂).receive [] [] 0 P₃).finish trioConfig 0 P₃

/-- The delete at 200 reaches `n2` and `n1`; its request to `n3` is lost.
Two acknowledgements: it returns success. -/
def trioDeleteDone : World :=
  let D := trioOp .delete 200 8
  let D₁ := D.addAck (Bytes.ofString "n2") true
  let D₂ := D₁.addAck (Bytes.ofString "n1") true
  let D₃ := D₂.addFailure (Bytes.ofString "n3")
  ((((((trioPutDone.start trioConfig (Bytes.ofString "n1") (Bytes.ofString "k") .delete 200
    ).deliverWrite
      [] [.write 1 (Bytes.ofString "n3"), .write 1 (Bytes.ofString "n1")] 1 (Bytes.ofString "n2") D
    ).drop [] [.write 1 (Bytes.ofString "n1"), .ack 1 (Bytes.ofString "n2") true]).deliverWrite
      [] [.ack 1 (Bytes.ofString "n2") true] 1 (Bytes.ofString "n1") D).receive
      [] [.ack 1 (Bytes.ofString "n1") true] 1 D₁).receive [] [] 1 D₂).resolve 1 D₃
    |>.finish trioConfig 1 D₃

/-- `n3` answers with the value it never saw deleted; its last call on `k`
was the put. -/
def trioStale : Option VersionedValue := some ⟨Bytes.ofString "v", 100, Bytes.ofString "n1"⟩

def trioStaleCall : Option KeyOp := some (.put (Bytes.ofString "v") 100 (Bytes.ofString "n1"))

/-- The get of `k` by `n1` with its futures in: replies from `n3` and `n1`,
and a failure for `n2`. -/
def trioGetAnswered : Op :=
  (((trioOp .get 0 16).addReply (Bytes.ofString "n3") trioStale trioStaleCall).addReply
    (Bytes.ofString "n1") none (some (.delete 200))).addFailure (Bytes.ofString "n2")

/-- The get that follows hears from `n3`, which missed the delete, and
from `n1`; its read of `n2` is lost. -/
def trioGetDone : World :=
  let G := trioOp .get 0 16
  let G₁ := G.addReply (Bytes.ofString "n3") trioStale trioStaleCall
  let G₂ := G₁.addReply (Bytes.ofString "n1") none (some (.delete 200))
  ((((((trioDeleteDone.start trioConfig (Bytes.ofString "n1") (Bytes.ofString "k") .get 0
    ).deliverRead [.read 2 (Bytes.ofString "n2")] [.read 2 (Bytes.ofString "n1")] 2
      (Bytes.ofString "n3") G).deliverRead
      [.read 2 (Bytes.ofString "n2")] [.reply 2 (Bytes.ofString "n3") trioStale trioStaleCall] 2
      (Bytes.ofString "n1") G).drop
      [] [.reply 2 (Bytes.ofString "n3") trioStale trioStaleCall,
        .reply 2 (Bytes.ofString "n1") none (some (.delete 200))]).receive
      [] [.reply 2 (Bytes.ofString "n1") none (some (.delete 200))] 2 G₁).receive [] [] 2 G₂
    ).resolve 2 trioGetAnswered |>.finish trioConfig 2 trioGetAnswered

theorem trioGetDone_reachable : Reachable trioConfig emptyStores trioGetDone :=
  have hput : Reachable trioConfig emptyStores trioPutDone :=
    .tail (.tail (.tail (.tail (.tail (.tail (.tail (.single
      (Step.start _ _ _ _ _))
      (Step.deliverWrite _ _ _ _ _ _ (by decide) (by decide) (by decide)))
      (Step.deliverWrite _ _ _ _ _ _ (by decide) (by decide) (by decide)))
      (Step.deliverWrite _ _ _ _ _ _ (by decide) (by decide) (by decide)))
      (Step.receiveAck _ _ _ _ _ _ _ (by decide) (by decide) rfl (by decide) (by decide)))
      (Step.receiveAck _ _ _ _ _ _ _ (by decide) (by decide) rfl (by decide) (by decide)))
      (Step.receiveAck _ _ _ _ _ _ _ (by decide) (by decide) rfl (by decide) (by decide)))
      (Step.finish _ _ _ (by decide) rfl (by decide))
  have hdel : Reachable trioConfig emptyStores trioDeleteDone :=
    .tail (.tail (.tail (.tail (.tail (.tail (.tail (.tail hput
      (Step.start _ _ _ _ _))
      (Step.deliverWrite _ _ _ _ _ _ (by decide) (by decide) (by decide)))
      (Step.drop _ _ (.write 1 (Bytes.ofString "n3")) _ (by decide)))
      (Step.deliverWrite _ _ _ _ _ _ (by decide) (by decide) (by decide)))
      (Step.receiveAck _ _ _ _ _ _ _ (by decide) (by decide) rfl (by decide) (by decide)))
      (Step.receiveAck _ _ _ _ _ _ _ (by decide) (by decide) rfl (by decide) (by decide)))
      (Step.failFuture _ _ _ _ (by decide) rfl (by decide) (by decide)))
      (Step.finish _ _ _ (by decide) rfl (by decide))
  .tail (.tail (.tail (.tail (.tail (.tail (.tail (.tail hdel
    (Step.start _ _ _ _ _))
    (Step.deliverRead _ _ _ _ _ _ (by decide) (by decide)))
    (Step.deliverRead _ _ _ _ _ _ (by decide) (by decide)))
    (Step.drop _ _ (.read 2 (Bytes.ofString "n2")) _ (by decide)))
    (Step.receiveReply _ _ _ _ _ _ _ _ (by decide) (by decide) rfl (by decide) (by decide)))
    (Step.receiveReply _ _ _ _ _ _ _ _ (by decide) (by decide) rfl (by decide) (by decide)))
    (Step.failFuture _ _ _ _ (by decide) rfl (by decide) (by decide)))
    (Step.finish _ _ _ (by decide) rfl (by decide))

theorem trioGetDone_kinds :
    trioGetDone.ops.map (·.kind) = [.put (Bytes.ofString "v"), .delete, .get] := by
  decide

theorem trioGetDone_timestamps : trioGetDone.ops.map (·.ts) = [100, 200, 0] := by
  decide

/-- A delete that one replica missed is undone. Three replicas, `R = W = 2`:
a put of `v` at 100 reaches all three; a delete at 200 reaches two and
returns success; a get that starts after it returned hears from the replica
that missed the delete and from one that applied it. Every put carries a
timestamp below 200, yet the get succeeds with `v`, and its read repair
writes `v` back at `n1`, which had deleted it. -/
theorem delete_undone_by_stale_replica :
    Reachable trioConfig emptyStores trioGetDone ∧
    trioGetDone.ops.map (·.kind) = [.put (Bytes.ofString "v"), .delete, .get] ∧
    trioGetDone.ops.map (·.ts) = [100, 200, 0] ∧
    trioGetDone.ops.map (·.startedAt) = [0, 8, 16] ∧
    trioGetDone.ops.map (·.finished) = [some (7, true), some (15, true), some (23, true)] ∧
    trioGetDone.ops.map (·.result) =
      [none, none, some ⟨Bytes.ofString "v", 100, Bytes.ofString "n1"⟩] ∧
    (trioGetDone.stores (Bytes.ofString "n1")).get (Bytes.ofString "k") =
      some ⟨Bytes.ofString "v", 100, Bytes.ofString "n1"⟩ :=
  ⟨trioGetDone_reachable, trioGetDone_kinds, trioGetDone_timestamps, by decide, by decide,
    by decide, by decide⟩

/-- On that run the get's value came from `n3`, whose last call on `k` was
the put, not the delete. -/
theorem undeleted_replica_trio :
    ((trioGetAnswered.close trioConfig 23).result = none →
        (trioGetAnswered.close trioConfig 23).repairs = []) ∧
      ∀ vv, (trioGetAnswered.close trioConfig 23).result = some vv →
        ∃ x ∈ (trioGetAnswered.close trioConfig 23).replies, x.2.1 = some vv ∧
          ∀ t, x.2.2 = some (.delete t) → t < 200 :=
  get_value_from_undeleted_replica trioConfig emptyStores trioGetDone (Bytes.ofString "k") 200 2
    (trioGetAnswered.close trioConfig 23) trioGetDone_reachable
    (fun n x hx => by simp [emptyStores] at hx)
    (fun i o v hop _ hkind => by
      have hk : (trioGetDone.ops.map (·.kind))[i]? = some (OpKind.put v) := by
        rw [List.getElem?_map, hop, Option.map_some', hkind]
      have hts : (trioGetDone.ops.map (·.ts))[i]? = some o.ts := by
        rw [List.getElem?_map, hop, Option.map_some']
      rw [trioGetDone_kinds] at hk
      rw [trioGetDone_timestamps] at hts
      rcases i with _ | _ | _ | i
      · rw [← Option.some.inj hts]; decide
      all_goals cases hk)
    (by decide) rfl

end KvStore.Cluster.Quorum
