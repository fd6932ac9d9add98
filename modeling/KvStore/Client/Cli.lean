/-
KvStore.Client.Cli — what `kv_cli` (`tools/cli_client.cpp`) reports for
the coordinator's responses: the reads its `HandlePut`, `HandleGet`,
`HandleDelete` and `HandleInfo` make on a response buffer, with what each
prints written as data (`Report`).

  §1 Reports   — the four readers. `HandlePut` and `HandleDelete` differ
                 only in the line they print for `OK`, so both are
                 `readStatusReport` of that line.
  §2 Info      — the bytes `HandleClusterInfo` writes
                 (`clusterInfo_data`) and `cli_info_round_trip`: the
                 CLI's `info` shows every member's id, host, port and
                 alive flag in the member map's order, and the store
                 size, and the request changes nothing.
  §3 Outcomes  — `cli_reports_outcomes`: for every `put`, `get` and
                 `delete` the CLI prints exactly what the replicated call
                 returned: `OK`, the value with its timestamp and origin,
                 `(not found)`, or the call's error text.

Translation notes. A read that throws is an error of the reader monad;
the CLI does not catch it, so the process ends there, after printing the
members `HandleInfo` had already read. The side conditions are the
codec's: every string the server writes is shorter than `2 ^ 32` bytes,
and so is the member count. The store size is written as
`static_cast<uint64_t>`, which the report keeps as `UInt64.ofNat`.
-/
import KvStore.Cluster.Gossip

namespace KvStore.Client

open Protocol Protocol.ByteBuffer Storage Server Cluster

/-! ## §1 Reports -/

/-- What `kv_cli` prints for one command. -/
inductive Report where
  /-- `OK`, or `OK (deleted)`: the line given. -/
  | ok (line : String)
  /-- `VALUE: …` with the timestamp and the origin. -/
  | value (vv : VersionedValue)
  /-- `(not found)`. -/
  | notFound
  /-- `ERROR: ` and the server's message. -/
  | error (msg : Bytes)
  /-- The member lines, then `Local store size: … keys`. -/
  | members (list : List (Bytes × Bytes × UInt16 × Bool)) (storeSize : UInt64)
  /-- `ERROR: Failed to get cluster info`. -/
  | infoFailed
  deriving DecidableEq, Repr

/-- `HandlePut` / `HandleDelete` on the response: the status byte, then
`line` for `OK` or the error string otherwise. -/
def readStatusReport (line : String) : Reader Report := do
  let status ← readUint8
  if status == StatusCode.ok.code then return .ok line
  else return .error (← readString)

/-- `HandlePut`'s reads. -/
def handlePutReport : Reader Report := readStatusReport "OK"

/-- `HandleDelete`'s reads. -/
def handleDeleteReport : Reader Report := readStatusReport "OK (deleted)"

/-- `HandleGet`'s reads: value, timestamp and origin for `OK`, nothing more
for `NOT_FOUND`, the error string otherwise. -/
def handleGetReport : Reader Report := do
  let status ← readUint8
  if status == StatusCode.ok.code then
    let value ← readString
    let timestamp ← readUint64
    let origin ← readString
    return .value ⟨value, timestamp, origin⟩
  else if status == StatusCode.notFound.code then return .notFound
  else return .error (← readString)

/-- One member line of `HandleInfo`: id, host, port, alive. -/
def readMemberLine : Reader (Bytes × Bytes × UInt16 × Bool) := do
  let id ← readString
  let host ← readString
  let port ← readUint16
  let alive ← readBool
  return (id, host, port, alive)

/-- The member loop of `HandleInfo`, `count` times. -/
def readMemberLines : Nat → Reader (List (Bytes × Bytes × UInt16 × Bool))
  | 0 => pure []
  | n + 1 => do
    let m ← readMemberLine
    let ms ← readMemberLines n
    return m :: ms

/-- `HandleInfo`'s reads: the status, the count, the members, the store
size. -/
def handleInfoReport : Reader Report := do
  let status ← readUint8
  if status != StatusCode.ok.code then return .infoFailed
  let count ← readUint32
  let members ← readMemberLines count.toNat
  let storeSize ← readUint64
  return .members members storeSize

/-! ## §2 Info -/

/-- The bytes `HandleClusterInfo` writes for one member. -/
def encodeMemberInfo (m : NodeInfo) : Bytes :=
  encodeString m.nodeId ++ (encodeString m.host ++ (toBytesBE 2 m.port.toNat ++
    [if m.isAlive then 1 else 0]))

/-- A member line as the CLI shows it. -/
def memberLine (m : NodeInfo) : Bytes × Bytes × UInt16 × Bool := (m.nodeId, m.host, m.port, m.isAlive)

theorem writeMemberInfo_eq (b : ByteBuffer) (m : NodeInfo) :
    writeMemberInfo b m = b.append (encodeMemberInfo m) :=
  ByteBuffer.ext (by simp [writeMemberInfo, writeString_eq, writeUint16, writeBool, writeUint8,
    encodeMemberInfo]) rfl

theorem foldl_writeMemberInfo (l : List NodeInfo) :
    ∀ b : ByteBuffer, l.foldl writeMemberInfo b = b.append (l.map encodeMemberInfo).flatten := by
  induction l with
  | nil => exact fun b => ByteBuffer.ext (by simp) rfl
  | cons m l ih =>
    intro b
    rw [List.foldl_cons, ih, writeMemberInfo_eq, append_append]
    rfl

/-- The request of `GetClusterInfo` is answered by `HandleClusterInfo`
and changes nothing. -/
theorem handleRequest_clusterInfo (repl : Replication) (node : Node) :
    node.handleRequest repl (ofData KVClient.getClusterInfo.data) =
      (((node.cluster.members.entries.map (·.2)).foldl writeMemberInfo
        ((empty.writeUint8 StatusCode.ok.code).writeUint32
          (UInt32.ofNat (node.cluster.members.entries.map (·.2)).length))).writeUint64
        (UInt64.ofNat node.storage.size), node) :=
  handleRequest_of_dispatch repl node (show (ofData KVClient.getClusterInfo.data).unread =
    OpType.clusterInfo.code :: [] from rfl) fun b _ => ⟨b, rfl⟩

/-- `HandleClusterInfo`'s bytes: `OK`, the count, each member, the store
size. -/
theorem clusterInfo_data (members : List NodeInfo) (storeSize : Nat) :
    ((members.foldl writeMemberInfo ((empty.writeUint8 StatusCode.ok.code).writeUint32
        (UInt32.ofNat members.length))).writeUint64 (UInt64.ofNat storeSize)).data =
      StatusCode.ok.code :: (toBytesBE 4 (UInt32.ofNat members.length).toNat ++
        ((members.map encodeMemberInfo).flatten ++ toBytesBE 8 (UInt64.ofNat storeSize).toNat)) := by
  rw [foldl_writeMemberInfo]
  simp [writeUint64, writeUint32, writeUint8, empty]

theorem readMemberLine_at {b : ByteBuffer} {m : NodeInfo} (hid : m.nodeId.length < 2 ^ 32)
    (hh : m.host.length < 2 ^ 32) (rest : Bytes) (h : b.unread = encodeMemberInfo m ++ rest) :
    ReadsAt readMemberLine b (memberLine m) rest := by
  simp only [encodeMemberInfo, List.append_assoc, List.singleton_append] at h
  exact (readString_at hid h).bind fun _ h₁ => (readString_at hh h₁).bind fun _ h₂ =>
    (readUint16_at h₂).bind fun _ h₃ => (readBool_at h₃).bind fun b' h₄ => ⟨b', rfl, h₄⟩

theorem readMemberLines_at (l : List NodeInfo)
    (hfit : ∀ m ∈ l, m.nodeId.length < 2 ^ 32 ∧ m.host.length < 2 ^ 32) :
    ∀ (b : ByteBuffer) (rest : Bytes), b.unread = (l.map encodeMemberInfo).flatten ++ rest →
      ReadsAt (readMemberLines l.length) b (l.map memberLine) rest := by
  induction l with
  | nil => exact fun b rest h => ⟨b, rfl, by simpa using h⟩
  | cons m ms ih =>
    intro b rest h
    rw [List.map_cons, List.flatten_cons, List.append_assoc] at h
    have hm := hfit m (List.mem_cons_self _ _)
    exact (readMemberLine_at hm.1 hm.2 _ h).bind fun b' h' =>
      (ih (fun x hx => hfit x (List.mem_cons_of_mem _ hx)) b' rest h').bind fun b'' h'' =>
        ⟨b'', rfl, h''⟩

/-- The CLI's `info` on any node whose member ids and hosts fit their
length fields, and whose member count fits its `uint32_t`: the request
changes nothing, and the CLI shows every member's id, host, port and alive
flag, in the member map's order, then the local store size. -/
theorem cli_info_round_trip (repl : Replication) (node : Node)
    (hfit : ∀ m ∈ node.cluster.members.entries.map (·.2),
      m.nodeId.length < 2 ^ 32 ∧ m.host.length < 2 ^ 32)
    (hcount : node.cluster.members.entries.length < 2 ^ 32) :
    (node.handleRequest repl (ofData KVClient.getClusterInfo.data)).2 = node ∧
    ReadsAt handleInfoReport (ofData (node.handleRequest repl (ofData KVClient.getClusterInfo.data)).1.data)
      (.members ((node.cluster.members.entries.map (·.2)).map memberLine)
        (UInt64.ofNat node.storage.size)) [] := by
  rw [handleRequest_clusterInfo]
  refine ⟨rfl, ?_⟩
  have hn : (UInt32.ofNat node.cluster.members.entries.length).toNat =
      (node.cluster.members.entries.map (·.2)).length := by
    rw [List.length_map]; exact UInt32.toNat_ofNat_of_lt hcount
  have hu : (ofData (node.handleRequest repl (ofData KVClient.getClusterInfo.data)).1.data).unread =
      StatusCode.ok.code :: (toBytesBE 4 (UInt32.ofNat node.cluster.members.entries.length).toNat ++
        (((node.cluster.members.entries.map (·.2)).map encodeMemberInfo).flatten ++
          toBytesBE 8 (UInt64.ofNat node.storage.size).toNat)) := by
    rw [unread_ofData, handleRequest_clusterInfo, clusterInfo_data, List.length_map]
  refine (readUint8_at hu).bind fun _ h₁ => ?_
  refine (readUint32_at h₁).bind fun _ h₂ => ?_
  rw [hn]
  refine (readMemberLines_at _ hfit _ _ h₂).bind fun b₃ h₃ => ?_
  have h₃' : b₃.unread = toBytesBE 8 (UInt64.ofNat node.storage.size).toNat ++ [] := by
    rw [h₃, List.append_nil]
  exact (readUint64_at h₃').bind fun b' h₄ => ⟨b', rfl, h₄⟩

/-- `info` on `n2` after `n1`'s gossip push lists both nodes, `n1` first. -/
theorem cli_info_after_gossip :
    (Gossip.duoPushed 1).cluster.members.entries.map (·.2) = [Gossip.duoConfig 0, Gossip.duoConfig 1] ∧
    (∀ m ∈ (Gossip.duoPushed 1).cluster.members.entries.map (·.2),
      m.nodeId.length < 2 ^ 32 ∧ m.host.length < 2 ^ 32) ∧
    (Gossip.duoPushed 1).cluster.members.entries.length < 2 ^ 32 ∧
    ((Gossip.duoPushed 1).handleRequest okReplication (ofData KVClient.getClusterInfo.data)).2 =
      Gossip.duoPushed 1 ∧
    ReadsAt handleInfoReport
      (ofData ((Gossip.duoPushed 1).handleRequest okReplication (ofData KVClient.getClusterInfo.data)).1.data)
      (.members (((Gossip.duoPushed 1).cluster.members.entries.map (·.2)).map memberLine)
        (UInt64.ofNat (Gossip.duoPushed 1).storage.size)) [] :=
  have hfit : ∀ m ∈ (Gossip.duoPushed 1).cluster.members.entries.map (·.2),
      m.nodeId.length < 2 ^ 32 ∧ m.host.length < 2 ^ 32 := by decide
  have hcount : (Gossip.duoPushed 1).cluster.members.entries.length < 2 ^ 32 := by decide
  ⟨by decide, hfit, hcount, cli_info_round_trip okReplication (Gossip.duoPushed 1) hfit hcount⟩

/-! ## §3 Outcomes -/

theorem makeErrorResponse_data (msg : Bytes) :
    (makeErrorResponse msg).data = StatusCode.error.code :: encodeString msg := by
  simp [makeErrorResponse, writeString_eq, writeUint8, empty]

theorem readStatusReport_ok (line : String) :
    ReadsAt (readStatusReport line) (ofData makeOkResponse.data) (.ok line) [] :=
  ⟨_, rfl, rfl⟩

theorem readStatusReport_error (line : String) {msg : Bytes} (h : msg.length < 2 ^ 32) :
    ReadsAt (readStatusReport line) (ofData (makeErrorResponse msg).data) (.error msg) [] := by
  have hu : (ofData (makeErrorResponse msg).data).unread = StatusCode.error.code :: (encodeString msg ++ []) := by
    rw [unread_ofData, makeErrorResponse_data, List.append_nil]
  exact (readUint8_at hu).bind fun _ h₁ => readsAt_map Report.error (readString_at h h₁)

theorem handleGetReport_value {vv : VersionedValue} (hv : vv.value.length < 2 ^ 32)
    (ho : vv.originNode.length < 2 ^ 32) :
    ReadsAt handleGetReport (ofData (makeValueResponse vv).data) (.value vv) [] := by
  have hu : (ofData (makeValueResponse vv).data).unread = StatusCode.ok.code ::
      (encodeString vv.value ++ (toBytesBE 8 vv.timestamp.toNat ++ (encodeString vv.originNode ++ []))) := by
    rw [unread_ofData, makeValueResponse_data, List.append_nil]
  exact (readUint8_at hu).bind fun _ h₁ => (readString_at hv h₁).bind fun _ h₂ =>
    (readUint64_at h₂).bind fun _ h₃ => (readString_at ho h₃).bind fun b' h₄ => ⟨b', rfl, h₄⟩

theorem handleGetReport_notFound :
    ReadsAt handleGetReport (ofData makeNotFoundResponse.data) .notFound [] :=
  ⟨_, rfl, rfl⟩

theorem handleGetReport_error {msg : Bytes} (h : msg.length < 2 ^ 32) :
    ReadsAt handleGetReport (ofData (makeErrorResponse msg).data) (.error msg) [] := by
  have hu : (ofData (makeErrorResponse msg).data).unread = StatusCode.error.code :: (encodeString msg ++ []) := by
    rw [unread_ofData, makeErrorResponse_data, List.append_nil]
  exact (readUint8_at hu).bind fun _ h₁ => readsAt_map Report.error (readString_at h h₁)

/-- The CLI prints what the replicated call returned: for every `put`,
`get` and `delete` whose key and value fit their length fields, the
response the coordinator sends is read back by `kv_cli` as `OK` exactly
when the call succeeded and as the call's error text otherwise, and a
successful `get` as the value with its timestamp and origin, or as
`(not found)`. -/
theorem cli_reports_outcomes (repl : Replication) (node : Node) (key value : Bytes)
    (hk : key.length < 2 ^ 32) (hv : value.length < 2 ^ 32)
    (hput : (repl.replicatedPut key value node).1.error.length < 2 ^ 32)
    (hget : (repl.replicatedGet key node).1.error.length < 2 ^ 32)
    (hval : ∀ vv, (repl.replicatedGet key node).1.value = some vv →
      vv.value.length < 2 ^ 32 ∧ vv.originNode.length < 2 ^ 32)
    (hdel : (repl.replicatedDelete key node).1.error.length < 2 ^ 32) :
    ReadsAt handlePutReport (ofData (node.handleRequest repl (ofData (KVClient.put key value).data)).1.data)
      (if (repl.replicatedPut key value node).1.success then .ok "OK"
        else .error (repl.replicatedPut key value node).1.error) [] ∧
    ReadsAt handleGetReport (ofData (node.handleRequest repl (ofData (KVClient.get key).data)).1.data)
      (if !(repl.replicatedGet key node).1.success then .error (repl.replicatedGet key node).1.error
        else match (repl.replicatedGet key node).1.value with
          | none => .notFound
          | some vv => .value vv) [] ∧
    ReadsAt handleDeleteReport (ofData (node.handleRequest repl (ofData (KVClient.delete key).data)).1.data)
      (if (repl.replicatedDelete key node).1.success then .ok "OK (deleted)"
        else .error (repl.replicatedDelete key node).1.error) [] := by
  rw [handleRequest_put repl node key value hk hv, handleRequest_get repl node key hk,
    handleRequest_delete repl node key hk]
  refine ⟨?_, ?_, ?_⟩
  · split_ifs
    exacts [readStatusReport_ok _, readStatusReport_error _ hput]
  · split_ifs
    · exact handleGetReport_error hget
    · cases hvv : (repl.replicatedGet key node).1.value with
      | none => exact handleGetReport_notFound
      | some vv => exact handleGetReport_value (hval vv hvv).1 (hval vv hvv).2
  · split_ifs
    exacts [readStatusReport_ok _, readStatusReport_error _ hdel]

theorem cli_reports_outcomes_ok :
    (Bytes.ofString "k").length < 2 ^ 32 ∧ (Bytes.ofString "v").length < 2 ^ 32 ∧
    ReadsAt handlePutReport (ofData (staleReplica.handleRequest okReplication
        (ofData (KVClient.put (Bytes.ofString "k") (Bytes.ofString "v")).data)).1.data)
      (if (okReplication.replicatedPut (Bytes.ofString "k") (Bytes.ofString "v") staleReplica).1.success
        then .ok "OK"
        else .error (okReplication.replicatedPut (Bytes.ofString "k") (Bytes.ofString "v")
          staleReplica).1.error) [] :=
  have hk : (Bytes.ofString "k").length < 2 ^ 32 := by decide
  have hv : (Bytes.ofString "v").length < 2 ^ 32 := by decide
  ⟨hk, hv, (cli_reports_outcomes okReplication staleReplica _ _ hk hv (by decide) (by decide)
    (fun _ h => by cases h) (by decide)).1⟩

end KvStore.Client
