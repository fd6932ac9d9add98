/-
KvStore.Cluster.Replication — what `ReplicationManager`
(`cluster/replication.cpp`) computes on the coordinator: the replica list
the ring gives, the two ways of writing to one replica, the outcome of a
quorum write, and the latest-version selection and read-repair targets of
`ReplicatedGet`. `KvStore.Cluster.Quorum` runs these on many nodes at once.

## The two write paths

`ReplicatedPut` writes to each replica in one of two ways. When the replica
is the coordinator itself it calls `storage_.Put` and counts the call's
result as the acknowledgement; otherwise it sends `INTERNAL_PUT` and counts
an `OK` status byte. The remote side (`HandleInternalPut`) calls
`ConditionalPut` and answers `OK` whatever that returned. Both leave the
replica in the same state (`remotePut_eq`), but a stale write is
acknowledged remotely and not locally, and likewise a delete of an absent
or newer key (`replica_ack_depends_on_path`). The remote path here is the
whole exchange: `SendMessage`, the replica's `RecvMessage` and
`HandleRequest`, and the response framed back.

## The read path

The remote branch of `ReplicatedGet` sends `INTERNAL_GET` and reads the
status, value, timestamp and origin off the response (`remoteGet`).
`finishRead` is the rest of `ReplicatedGet` once the
futures are in: the quorum count, the latest-version loop from a timestamp
of `0`, and the read-repair targets (`finishRead_spec`). The loop's start
value makes a value stamped `0` invisible (`zero_stamp_read_as_missing`).
-/
import KvStore.Server.Coordinator

namespace KvStore.Cluster

open Protocol Protocol.ByteBuffer Storage Server

/-! ## 1. Replicas -/

/-- `ring_.GetNodes(key, N_)`, the empty-ring exception read as no replica. -/
def replicasFor (ring : ConsistentHashRing) (N : Int) (key : Bytes) : List Bytes :=
  match ring.getNodes key N with
  | .ok nodes => nodes
  | .error _ => []

theorem collectNodes_nodup (count : Int) :
    ∀ (m : RingMap) (result : List Bytes), result.Nodup →
      (ConsistentHashRing.collectNodes count m result).Nodup
  | [], _, h => h
  | e :: rest, result, h => by
    unfold ConsistentHashRing.collectNodes
    split_ifs with hc hm
    · exact collectNodes_nodup count rest result h
    · exact collectNodes_nodup count rest _ (List.nodup_append.mpr
        ⟨h, List.nodup_singleton _, by simpa [List.disjoint_singleton] using hm⟩)
    · exact h

theorem collectNodes_length_le (count : Int) :
    ∀ (m : RingMap) (result : List Bytes), (result.length : Int) ≤ max count 0 →
      ((ConsistentHashRing.collectNodes count m result).length : Int) ≤ max count 0
  | [], _, h => h
  | e :: rest, result, h => by
    unfold ConsistentHashRing.collectNodes
    split_ifs with hc hm
    · exact collectNodes_length_le count rest result h
    · refine collectNodes_length_le count rest _ ?_
      simp only [List.length_append, List.length_singleton, Nat.cast_add, Nat.cast_one]
      omega
    · exact h

/-- The replicas are distinct. -/
theorem nodup_replicasFor (ring : ConsistentHashRing) (N : Int) (key : Bytes) :
    (replicasFor ring N key).Nodup := by
  unfold replicasFor ConsistentHashRing.getNodes
  split_ifs <;> first
    | exact List.nodup_nil
    | exact collectNodes_nodup _ _ _ List.nodup_nil

/-- There are at most `N` replicas, and none when `N ≤ 0`. -/
theorem length_replicasFor_le (ring : ConsistentHashRing) (N : Int) (key : Bytes) :
    ((replicasFor ring N key).length : Int) ≤ max N 0 := by
  unfold replicasFor ConsistentHashRing.getNodes
  split_ifs with h₁
  · simp
  · dsimp only
    have key := collectNodes_length_le
      (if N > (ring.physicalNodes.card : Int) then ring.physicalNodes.card else N)
      (ConsistentHashRing.rotateAt ring.ring (ConsistentHashRing.upperBound ring.ring (hash key)))
      [] (by simp)
    split_ifs at key ⊢ <;> omega

/-! ## 2. One replica's write -/

/-- The acknowledgement a remote branch reads off a response:
`static_cast<StatusCode>(resp->ReadUint8()) == StatusCode::OK`; a read that
throws fails the future, which counts as no acknowledgement. -/
def statusAck (resp : ByteBuffer) : Bool :=
  match readUint8 resp with
  | .ok status _ => status == StatusCode.ok.code
  | .error _ _ => false

/-- `KVClient::SendRequest` against a replica: the request framed, received
and handled there, the response framed back. `none` where either
`RecvMessage` rejects its frame. -/
def sendRequest (repl : Replication) (replica : Node) (request : ByteBuffer) :
    Option ByteBuffer × Node :=
  match recvMessage (sendMessage request) with
  | none => (none, replica)
  | some (received, _) =>
    let (resp, node) := replica.handleRequest repl received
    ((recvMessage (sendMessage resp)).map (·.1), node)

/-- The local branch of `ReplicatedPut`: `storage_.Put(key, value, ts,
self_id_)`, acknowledged by its result. -/
def localPut (replica : StorageEngine) (selfId key value : Bytes) (ts : Timestamp) :
    Bool × StorageEngine :=
  replica.put key value ts selfId

/-- The remote branch of `ReplicatedPut`: `InternalPut(key, value, ts, sid)`,
acknowledged by an `OK` status. -/
def remotePut (repl : Replication) (replica : Node) (sid key value : Bytes) (ts : Timestamp) :
    Bool × Node :=
  let (resp, node) := sendRequest repl replica (KVClient.internalPut key value ts sid)
  ((resp.map statusAck).getD false, node)

/-- The local branch of `ReplicatedDelete`: `storage_.Delete(key, ts)`. -/
def localDelete (replica : StorageEngine) (key : Bytes) (ts : Timestamp) : Bool × StorageEngine :=
  replica.delete key ts

/-- The remote branch of `ReplicatedDelete`: `InternalDelete(key, ts)`. -/
def remoteDelete (repl : Replication) (replica : Node) (key : Bytes) (ts : Timestamp) :
    Bool × Node :=
  let (resp, node) := sendRequest repl replica (KVClient.internalDelete key ts)
  ((resp.map statusAck).getD false, node)

theorem size_makeOkResponse : makeOkResponse.size ≤ Config.maxMessageSize := by decide

theorem internalPut_size (key value : Bytes) (ts : Timestamp) (origin : Bytes) :
    (KVClient.internalPut key value ts origin).size =
      21 + key.length + value.length + origin.length := by
  simp only [size, KVClient.internalPut_data, encodeString, List.length_cons, List.length_append,
    length_toBytesBE]
  omega

theorem internalDelete_size (key : Bytes) (ts : Timestamp) :
    (KVClient.internalDelete key ts).size = 13 + key.length := by
  simp only [size, KVClient.internalDelete_data, encodeString, List.length_cons, List.length_append,
    length_toBytesBE]
  omega

theorem internalGet_size (key : Bytes) : (KVClient.internalGet key).size = 5 + key.length := by
  simp only [size, KVClient.internalGet_data, encodeString, List.length_cons, List.length_append,
    length_toBytesBE]
  omega

theorem put_size (key value : Bytes) :
    (KVClient.put key value).size = 9 + key.length + value.length := by
  simp only [size, KVClient.put_data, encodeString, List.length_cons, List.length_append,
    length_toBytesBE]
  omega

theorem makeValueResponse_size (vv : VersionedValue) :
    (makeValueResponse vv).size = 17 + vv.value.length + vv.originNode.length := by
  simp only [size, makeValueResponse_data, encodeString, List.length_cons, List.length_append,
    length_toBytesBE]
  omega

/-- A request that fits a frame reaches the replica as the buffer sent;
the response then comes back through the replica's `SendMessage` and the
coordinator's `RecvMessage`. -/
theorem sendRequest_eq (repl : Replication) (replica : Node) (request : ByteBuffer)
    (h : request.size ≤ Config.maxMessageSize) :
    sendRequest repl replica request =
      ((recvMessage (sendMessage (replica.handleRequest repl (ofData request.data)).1)).map (·.1),
        (replica.handleRequest repl (ofData request.data)).2) := by
  have hs := recvMessage_sendMessage request [] h
  rw [List.append_nil] at hs
  simp only [sendRequest, hs]

/-- A request that fits a frame and is answered `OK` is acknowledged. -/
theorem sendRequest_of_fits (repl : Replication) (replica : Node) (request : ByteBuffer)
    (h : request.size ≤ Config.maxMessageSize)
    (hr : (replica.handleRequest repl (ofData request.data)).1 = makeOkResponse) :
    sendRequest repl replica request =
      (some (ofData makeOkResponse.data), (replica.handleRequest repl (ofData request.data)).2) := by
  have ho := recvMessage_sendMessage makeOkResponse [] size_makeOkResponse
  rw [List.append_nil] at ho
  rw [sendRequest_eq repl replica request h, hr, ho, Option.map_some']

/-- An `INTERNAL_PUT` that fits a frame leaves the replica as the local
`Put` would, and is acknowledged. -/
theorem remotePut_eq (repl : Replication) (replica : Node) (sid key value : Bytes) (ts : Timestamp)
    (h : (KVClient.internalPut key value ts sid).size ≤ Config.maxMessageSize) :
    remotePut repl replica sid key value ts =
      (true, { replica with storage := (localPut replica.storage sid key value ts).2 }) := by
  have hsize := internalPut_size key value ts sid
  have hmax : Config.maxMessageSize < 2 ^ 32 := by decide
  have hk := handleRequest_internalPut repl replica key value sid ts (by omega) (by omega) (by omega)
  unfold remotePut
  rw [sendRequest_of_fits repl replica _ h (by rw [hk]), hk]
  rfl

/-- An `INTERNAL_DELETE` that fits a frame leaves the replica as the local
`Delete` would, and is acknowledged. -/
theorem remoteDelete_eq (repl : Replication) (replica : Node) (key : Bytes) (ts : Timestamp)
    (h : (KVClient.internalDelete key ts).size ≤ Config.maxMessageSize) :
    remoteDelete repl replica key ts =
      (true, { replica with storage := (localDelete replica.storage key ts).2 }) := by
  have hsize := internalDelete_size key ts
  have hmax : Config.maxMessageSize < 2 ^ 32 := by decide
  have hk := handleRequest_internalDelete repl replica key ts (by omega)
  unfold remoteDelete
  rw [sendRequest_of_fits repl replica _ h (by rw [hk]), hk]
  rfl

/-- A replica that holds `k` at timestamp 200, written by `n1`. -/
def staleReplica : Node :=
  ⟨Bytes.ofString "n2",
    ((StorageEngine.ofFile []).put (Bytes.ofString "k") (Bytes.ofString "v") 200
      (Bytes.ofString "n1")).2,
    WiredNode.start ⟨Bytes.ofString "n2", Bytes.ofString "0.0.0.0", 7002, true, 0⟩ 0⟩

/-- The two paths disagree on the acknowledgement. On the replica above, a
put of `k` at timestamp 100 and a delete of the absent key `x` leave the
replica in the same state on both paths, but the local path reports no
acknowledgement and the remote path reports one. -/
theorem replica_ack_depends_on_path (repl : Replication) :
    (localPut staleReplica.storage (Bytes.ofString "n1") (Bytes.ofString "k")
        (Bytes.ofString "w") 100).1 = false ∧
    remotePut repl staleReplica (Bytes.ofString "n1") (Bytes.ofString "k")
        (Bytes.ofString "w") 100 =
      (true, { staleReplica with storage := (localPut staleReplica.storage (Bytes.ofString "n1")
        (Bytes.ofString "k") (Bytes.ofString "w") 100).2 }) ∧
    (localDelete staleReplica.storage (Bytes.ofString "x") 300).1 = false ∧
    remoteDelete repl staleReplica (Bytes.ofString "x") 300 =
      (true, { staleReplica with
        storage := (localDelete staleReplica.storage (Bytes.ofString "x") 300).2 }) :=
  ⟨by decide, remotePut_eq _ _ _ _ _ _ (by decide), by decide,
    remoteDelete_eq _ _ _ _ (by decide)⟩

/-! ## 3. Outcomes -/

/-- The end of `ReplicatedPut` / `ReplicatedDelete`: success iff at least
`W` acknowledgements. -/
def writeSucceeds (W : Int) (acks : Nat) : Bool := decide ((acks : Int) ≥ W)

/-- `ReadResponse`: whether the replica answered, and its value. -/
structure ReadResponse where
  ok : Bool
  value : Option VersionedValue
  nodeId : Bytes
  deriving DecidableEq, Repr

/-- The latest-version loop of `ReplicatedGet`: from a timestamp of `0`,
take each value whose timestamp is strictly larger. -/
def latestStep (acc : VersionedValue × Bool) (resp : ReadResponse) : VersionedValue × Bool :=
  match resp.value with
  | some vv => if vv.timestamp > acc.1.timestamp then (vv, true) else acc
  | none => acc

/-- The value `ReplicatedGet` returns, if any. -/
def latestVersion (responses : List ReadResponse) : Option VersionedValue :=
  let (latest, found) := responses.foldl latestStep (⟨[], 0, []⟩, false)
  if found then some latest else none

/-- The replicas read repair writes to: no value, or an older one. -/
def repairTargets (responses : List ReadResponse) (latest : VersionedValue) : List Bytes :=
  (responses.filter fun r => match r.value with
    | none => true
    | some vv => decide (vv.timestamp < latest.timestamp)).map (·.nodeId)

/-- The values the replies carry. -/
def replyValues (responses : List ReadResponse) : List VersionedValue :=
  responses.filterMap (·.value)

theorem latestStep_cases (acc : VersionedValue × Bool) (r : ReadResponse) :
    latestStep acc r = acc ∨
      ∃ vv, r.value = some vv ∧ latestStep acc r = (vv, true) ∧ acc.1.timestamp < vv.timestamp := by
  unfold latestStep
  split
  next vv hv =>
    split_ifs with hgt
    exacts [.inr ⟨vv, hv, rfl, hgt⟩, .inl rfl]
  · exact .inl rfl

/-- One turn never lowers the timestamp and ends no older than the reply. -/
theorem latestStep_ge (acc : VersionedValue × Bool) (r : ReadResponse) :
    acc.1.timestamp ≤ (latestStep acc r).1.timestamp ∧
      ∀ vv, r.value = some vv → vv.timestamp ≤ (latestStep acc r).1.timestamp := by
  unfold latestStep
  split
  next vv hv =>
    split_ifs with hgt
    · exact ⟨ts_le_iff.mpr (Nat.le_of_lt (ts_lt_iff.mp hgt)),
        fun w hw => by rw [hv] at hw; cases hw; exact UInt64.le_refl _⟩
    · exact ⟨UInt64.le_refl _, fun w hw => by rw [hv] at hw; cases hw; exact UInt64.not_lt.mp hgt⟩
  next hv => exact ⟨UInt64.le_refl _, fun w hw => by rw [hv] at hw; cases hw⟩

theorem mem_replyValues {rs : List ReadResponse} {vv : VersionedValue} :
    vv ∈ replyValues rs ↔ ∃ r ∈ rs, r.value = some vv :=
  List.mem_filterMap

/-- The loop ends on a timestamp no smaller than where it started and than
any reply's. -/
theorem latest_fold_ge (rs : List ReadResponse) : ∀ acc : VersionedValue × Bool,
    acc.1.timestamp ≤ (rs.foldl latestStep acc).1.timestamp ∧
      ∀ vv ∈ replyValues rs, vv.timestamp ≤ (rs.foldl latestStep acc).1.timestamp := by
  induction rs with
  | nil => exact fun acc => ⟨UInt64.le_refl _, by simp [replyValues]⟩
  | cons r rs ih =>
    intro acc
    rw [List.foldl_cons]
    obtain ⟨h₁, h₂⟩ := ih (latestStep acc r)
    obtain ⟨s₁, s₂⟩ := latestStep_ge acc r
    refine ⟨UInt64.le_trans s₁ h₁, fun vv hv => ?_⟩
    obtain ⟨r', hr', hv'⟩ := mem_replyValues.mp hv
    rcases List.mem_cons.mp hr' with rfl | hr'
    · exact UInt64.le_trans (s₂ vv hv') h₁
    · exact h₂ vv (mem_replyValues.mpr ⟨r', hr', hv'⟩)

/-- The loop either changes nothing or ends on a reply's value, found, with
a larger timestamp than it started from. -/
theorem latest_fold_cases (rs : List ReadResponse) : ∀ acc : VersionedValue × Bool,
    rs.foldl latestStep acc = acc ∨
      ((rs.foldl latestStep acc).1 ∈ replyValues rs ∧ (rs.foldl latestStep acc).2 = true ∧
        acc.1.timestamp < (rs.foldl latestStep acc).1.timestamp) := by
  induction rs with
  | nil => exact fun acc => .inl rfl
  | cons r rs ih =>
    intro acc
    rw [List.foldl_cons]
    rcases ih (latestStep acc r) with hf | ⟨hm, hfd, hlt'⟩
    · rw [hf]
      rcases latestStep_cases acc r with he | ⟨vv, hv, he, hlt⟩
      · exact .inl he
      · rw [he]
        exact .inr ⟨mem_replyValues.mpr ⟨r, List.mem_cons_self _ _, hv⟩, rfl, hlt⟩
    · obtain ⟨r', hr', hv'⟩ := mem_replyValues.mp hm
      have hle := (latestStep_ge acc r).1
      simp only [ts_le_iff, ts_lt_iff] at hle hlt'
      exact .inr ⟨mem_replyValues.mpr ⟨r', List.mem_cons_of_mem _ hr', hv'⟩, hfd,
        ts_lt_iff.mpr (by omega)⟩

/-- What `ReplicatedGet` returns is a reply's value, positive, and no older
than any reply. -/
theorem latestVersion_eq_some {rs : List ReadResponse} {vv : VersionedValue}
    (h : latestVersion rs = some vv) :
    vv ∈ replyValues rs ∧ 0 < vv.timestamp.toNat ∧
      ∀ w ∈ replyValues rs, w.timestamp.toNat ≤ vv.timestamp.toNat := by
  unfold latestVersion at h
  rcases latest_fold_cases rs (⟨[], 0, []⟩, false) with he | ⟨hm, -, hlt⟩
  · simp [he] at h
  · have hge := (latest_fold_ge rs (⟨[], 0, []⟩, false)).2
    split at h
    next latest found hfold =>
      simp only [hfold] at hm hlt hge
      split_ifs at h
      cases h
      exact ⟨hm, hlt, fun w hw => hge w hw⟩

/-- `ReplicatedGet` finds nothing iff no reply carries a positive timestamp. -/
theorem latestVersion_eq_none_iff (rs : List ReadResponse) :
    latestVersion rs = none ↔ ∀ vv ∈ replyValues rs, vv.timestamp.toNat = 0 := by
  constructor
  · intro h vv hv
    unfold latestVersion at h
    have hge := (latest_fold_ge rs (⟨[], 0, []⟩, false)).2 vv hv
    rcases latest_fold_cases rs (⟨[], 0, []⟩, false) with he | ⟨-, hfd, -⟩
    · rw [he] at hge; exact Nat.le_zero.mp hge
    · split at h
      next latest found hfold =>
        rw [hfold] at hfd
        dsimp only at hfd
        simp [hfd] at h
  · intro h
    cases hl : latestVersion rs with
    | none => rfl
    | some vv =>
      obtain ⟨hm, hpos, -⟩ := latestVersion_eq_some hl
      exact absurd (h vv hm) (by omega)

/-- A positive value that every reply at least as new agrees with is what
`ReplicatedGet` returns. -/
theorem latestVersion_of_dominant {rs : List ReadResponse} {vv : VersionedValue}
    (hm : vv ∈ replyValues rs) (hpos : 0 < vv.timestamp.toNat)
    (hdom : ∀ w ∈ replyValues rs, vv.timestamp.toNat ≤ w.timestamp.toNat → w = vv) :
    latestVersion rs = some vv := by
  cases hl : latestVersion rs with
  | none => exact absurd ((latestVersion_eq_none_iff rs).mp hl vv hm) (by omega)
  | some w =>
    obtain ⟨hw, -, hge⟩ := latestVersion_eq_some hl
    rw [hdom w hw (hge vv hm)]


/-! ## 4. One replica's read -/

/-- The reads the remote branch of `ReplicatedGet` makes on the response to
`InternalGet`: the status byte, then, for `OK`, the value, the timestamp and
the origin. -/
def readGetReply : Reader (Option VersionedValue) := do
  let status ← readUint8
  if status == StatusCode.ok.code then
    let value ← readString
    let timestamp ← readUint64
    let originNode ← readString
    return some ⟨value, timestamp, originNode⟩
  else
    return none

/-- The remote branch of `ReplicatedGet`: `InternalGet(key)` and the reads
above. No response leaves the reply not ok; a read that throws fails the
future, which the collect loop drops, and is written the same way, since
only ok replies are counted. -/
def remoteGet (repl : Replication) (replica : Node) (nid key : Bytes) : ReadResponse × Node :=
  let (resp, node) := sendRequest repl replica (KVClient.internalGet key)
  match resp.map readGetReply with
  | some (.ok value _) => (⟨true, value, nid⟩, node)
  | _ => (⟨false, none, nid⟩, node)

/-- The reads recover the versioned value `MakeValueResponse` wrote. -/
theorem readGetReply_makeValueResponse (vv : VersionedValue) (hv : vv.value.length < 2 ^ 32)
    (ho : vv.originNode.length < 2 ^ 32) :
    ReadsAt readGetReply (ofData (makeValueResponse vv).data) vv [] := by
  have hu : (ofData (makeValueResponse vv).data).unread = StatusCode.ok.code ::
      (encodeString vv.value ++ (toBytesBE 8 vv.timestamp.toNat ++ (encodeString vv.originNode ++ []))) := by
    rw [unread_ofData, makeValueResponse_data, List.append_nil]
  exact (readUint8_at hu).bind fun _ h₁ => (readString_at hv h₁).bind fun _ h₂ =>
    (readUint64_at h₂).bind fun _ h₃ => (readString_at ho h₃).bind fun b' h₄ => ⟨b', rfl, h₄⟩

/-- A value whose response exceeds the frame cap is not read back: the
coordinator's `RecvMessage` rejects the response, and the reply is not ok. -/
theorem remoteGet_of_too_big (repl : Replication) (replica : Node) (nid key : Bytes)
    {vv : VersionedValue} (hg : replica.storage.get key = some vv)
    (hk : (KVClient.internalGet key).size ≤ Config.maxMessageSize)
    (hbig : Config.maxMessageSize < (makeValueResponse vv).size)
    (hlt : (makeValueResponse vv).size < 2 ^ 32) :
    remoteGet repl replica nid key = (⟨false, none, nid⟩, replica) := by
  have hmax : Config.maxMessageSize < 2 ^ 32 := by decide
  have hh := handleRequest_internalGet repl replica key (by rw [internalGet_size] at hk; omega)
  have hr := recvMessage_of_too_big (makeValueResponse vv) [] hbig hlt
  rw [List.append_nil] at hr
  unfold remoteGet
  rw [sendRequest_eq repl replica _ hk, hh, hg]
  simp only [hr, Option.map_none']

/-- An `INTERNAL_PUT` over the frame cap is rejected by the replica's
`RecvMessage`: the replica is unchanged and the write is not acknowledged. -/
theorem remotePut_of_too_big (repl : Replication) (replica : Node) (sid key value : Bytes)
    (ts : Timestamp) (hbig : Config.maxMessageSize < (KVClient.internalPut key value ts sid).size)
    (hlt : (KVClient.internalPut key value ts sid).size < 2 ^ 32) :
    remotePut repl replica sid key value ts = (false, replica) := by
  have hr := recvMessage_of_too_big (KVClient.internalPut key value ts sid) [] hbig hlt
  rw [List.append_nil] at hr
  unfold remotePut sendRequest
  rw [hr]
  rfl

/-! ## 5. The end of `ReplicatedGet` -/

/-- The error of a read short of its quorum:
`"Read quorum not reached: " + to_string(responses) + "/" + to_string(R_)`. -/
def readQuorumError (responses : Nat) (R : Int) : Bytes :=
  Bytes.ofString ("Read quorum not reached: " ++ toString responses ++ "/" ++ toString R)

/-- `ReplicatedGet` once its futures are in: the answered ones counted
against `R`, then the latest-version loop, and the replicas read repair
writes to. -/
def finishRead (R : Int) (futures : List ReadResponse) : ReadResult × List Bytes :=
  let responses := futures.filter (·.ok)
  if (responses.length : Int) < R then
    (⟨false, none, responses.length, readQuorumError responses.length R⟩, [])
  else
    match latestVersion responses with
    | none => (⟨true, none, responses.length, []⟩, [])
    | some latest => (⟨true, some latest, responses.length, []⟩, repairTargets responses latest)

/-- What `ReplicatedGet` returns, for every list of replies: success iff at
least `R` answered; then the value, if any, is an answered value of positive
timestamp no older than any answered value, there is none iff every
answered value is stamped `0`, and read repair goes to the answered
replicas with no value or an older one. -/
theorem finishRead_spec (R : Int) (futures : List ReadResponse) :
    ((finishRead R futures).1.success = true ↔ R ≤ ((futures.filter (·.ok)).length : Int)) ∧
    ((finishRead R futures).1.success = true →
      ((finishRead R futures).1.value = none ↔
          ∀ vv ∈ replyValues (futures.filter (·.ok)), vv.timestamp.toNat = 0) ∧
      ∀ vv, (finishRead R futures).1.value = some vv →
        vv ∈ replyValues (futures.filter (·.ok)) ∧ 0 < vv.timestamp.toNat ∧
        (∀ w ∈ replyValues (futures.filter (·.ok)), w.timestamp.toNat ≤ vv.timestamp.toNat) ∧
        (finishRead R futures).2 = repairTargets (futures.filter (·.ok)) vv) := by
  unfold finishRead
  by_cases hR : ((futures.filter (·.ok)).length : Int) < R
  · simp only [hR, if_true]
    exact ⟨⟨fun h => by simp at h, fun h => by omega⟩, fun h => by simp at h⟩
  simp only [hR, if_false]
  have hs : R ≤ ((futures.filter (·.ok)).length : Int) := by omega
  cases hl : latestVersion (futures.filter (·.ok)) with
  | none =>
    exact ⟨iff_of_true rfl hs,
      fun _ => ⟨iff_of_true rfl ((latestVersion_eq_none_iff _).mp hl), fun vv h => by cases h⟩⟩
  | some latest =>
    refine ⟨iff_of_true rfl hs, fun _ => ⟨⟨fun h => (by cases h), fun h => ?_⟩, fun vv h => ?_⟩⟩
    · rw [(latestVersion_eq_none_iff _).mpr h] at hl; cases hl
    · cases h
      exact ⟨(latestVersion_eq_some hl).1, (latestVersion_eq_some hl).2.1,
        (latestVersion_eq_some hl).2.2, rfl⟩

/-- A replica's engine after an `INTERNAL_PUT` of `k` stamped `0`, which
`ConditionalPut` takes on an absent key. -/
def zeroStampEngine : StorageEngine :=
  ((StorageEngine.ofFile []).conditionalPut (Bytes.ofString "k")
    ⟨Bytes.ofString "v", 0, Bytes.ofString "n1"⟩).2

/-- `ReplicatedGet` reads a value stamped `0` as no value. With `R = 1`, the
coordinator `n1` holding `k = ("v", 0, "n1")` and `n2` holding nothing both
answer; the read succeeds with no value and repairs nothing, although one
answer carries a value, which `HandleInternalGet` on `n1` would return. -/
theorem zero_stamp_read_as_missing :
    zeroStampEngine.get (Bytes.ofString "k") =
      some ⟨Bytes.ofString "v", 0, Bytes.ofString "n1"⟩ ∧
    (finishRead 1 [⟨true, zeroStampEngine.get (Bytes.ofString "k"), Bytes.ofString "n1"⟩,
      ⟨true, none, Bytes.ofString "n2"⟩]).1.success = true ∧
    (finishRead 1 [⟨true, zeroStampEngine.get (Bytes.ofString "k"), Bytes.ofString "n1"⟩,
      ⟨true, none, Bytes.ofString "n2"⟩]).1.value = none ∧
    (finishRead 1 [⟨true, zeroStampEngine.get (Bytes.ofString "k"), Bytes.ofString "n1"⟩,
      ⟨true, none, Bytes.ofString "n2"⟩]).2 = [] := by
  decide

end KvStore.Cluster
