/-
KvStore.Server.Coordinator — `Coordinator::HandleRequest` of
`server/coordinator.cpp`: the opcode dispatch, the internal handlers on the
local storage, the gossip and cluster-info handlers, and the client
handlers, which hand the key to the replication engine.

A request is handled in `EStateM String Exchange`, the node and the request
buffer together. A `ByteBuffer` read that throws is an `EStateM` error, and
the `catch` of `HandleRequest` turns it into `"Internal error: " + what`,
keeping whatever the handler had already changed: the source rolls nothing
back. Every handler but `HandleGossip` reads its whole request before it
changes anything, so each is written as one decoder (`readInternalPut`, …)
followed by the effect; `HandleGossipMessage` calls `AddMember` after each
entry it reads, so its loop interleaves the two.

The quorum operations `ReplicatedPut` / `ReplicatedGet` /
`ReplicatedDelete` reach other nodes; here they are a parameter
(`Replication`), given by `KvStore.Cluster.Replication`.

`GetAllMembers` and `CreateGossipMessage` walk the member map in its
iteration order, the order of its association list.

§4 and §5 run `HandleRequest` on each request `KVClient` builds: the
handler receives exactly the fields encoded (`handleRequest_put`, …,
`handleRequest_internalDelete`), and a `CreateGossipMessage` payload is
merged entry by entry in the sender's order (`gossipLoop_at`,
`handleRequest_gossip`). `handleRequest_of_dispatch` is the step they share:
the op byte, then the handler it selects.
-/
import KvStore.Common.Protocol
import KvStore.Cluster.Membership
import KvStore.Storage.Engine

namespace KvStore.Server

open Protocol Protocol.ByteBuffer Storage Cluster

/-! ## 1. The node and the handler monad -/

/-- What a coordinator reads and changes: its id, its storage engine, and
its membership wired to its ring. -/
structure Node where
  selfId : Bytes
  storage : StorageEngine
  cluster : WiredNode

/-- `WriteResult`. -/
structure WriteResult where
  success : Bool
  acks : Int
  error : Bytes

/-- `ReadResult`. -/
structure ReadResult where
  success : Bool
  value : Option VersionedValue
  responses : Int
  error : Bytes

/-- The quorum operations the client handlers call. -/
structure Replication where
  replicatedPut : Bytes → Bytes → Node → WriteResult × Node
  replicatedGet : Bytes → Node → ReadResult × Node
  replicatedDelete : Bytes → Node → WriteResult × Node

/-- A request being handled: the node, and the request with its cursor. -/
structure Exchange where
  node : Node
  request : ByteBuffer

/-- A handler: may throw, keeps its effects when it does. -/
abbrev Handler := EStateM String Exchange

/-- A read from the request. -/
def read {α : Type} (r : Reader α) : Handler α := fun x =>
  match r x.request with
  | .ok a b => .ok a { x with request := b }
  | .error e b => .error e { x with request := b }

/-- A call on the node. -/
def update {α : Type} (f : Node → α × Node) : Handler α := fun x =>
  .ok (f x.node).1 { x with node := (f x.node).2 }

/-! ## 2. Handlers -/

/-- The fields `HandlePut` reads. -/
def readPut : Reader (Bytes × Bytes) := do
  let key ← readString
  let value ← readString
  return (key, value)

/-- The fields `HandleInternalPut` reads. -/
def readInternalPut : Reader (Bytes × Bytes × Timestamp × Bytes) := do
  let key ← readString
  let value ← readString
  let ts ← readUint64
  let origin ← readString
  return (key, value, ts, origin)

/-- The fields `HandleInternalDelete` reads. -/
def readInternalDelete : Reader (Bytes × Timestamp) := do
  let key ← readString
  let ts ← readUint64
  return (key, ts)

/-- One gossip entry, in the order `HandleGossipMessage` reads it. -/
def readNodeInfo : Reader NodeInfo := do
  let nodeId ← readString
  let host ← readString
  let port ← readUint16
  let lastHeartbeat ← readUint64
  let isAlive ← readBool
  return { nodeId, host, port, isAlive, lastHeartbeat }

/-- `HandlePut`. -/
def handlePut (repl : Replication) : Handler ByteBuffer := do
  let (key, value) ← read readPut
  let result ← update (repl.replicatedPut key value)
  return if result.success then makeOkResponse else makeErrorResponse result.error

/-- `HandleGet`. -/
def handleGet (repl : Replication) : Handler ByteBuffer := do
  let key ← read readString
  let result ← update (repl.replicatedGet key)
  return if !result.success then makeErrorResponse result.error
    else match result.value with
      | none => makeNotFoundResponse
      | some vv => makeValueResponse vv

/-- `HandleDelete`. -/
def handleDelete (repl : Replication) : Handler ByteBuffer := do
  let key ← read readString
  let result ← update (repl.replicatedDelete key)
  return if result.success then makeOkResponse else makeErrorResponse result.error

/-- `HandleInternalPut`: `ConditionalPut`, then OK whatever it returned. -/
def handleInternalPut : Handler ByteBuffer := do
  let (key, value, ts, origin) ← read readInternalPut
  update fun n => ((), { n with storage := (n.storage.conditionalPut key ⟨value, ts, origin⟩).2 })
  return makeOkResponse

/-- `HandleInternalGet`. -/
def handleInternalGet : Handler ByteBuffer := do
  let key ← read readString
  let val ← update fun n => (n.storage.get key, n)
  return match val with
    | none => makeNotFoundResponse
    | some vv => makeValueResponse vv

/-- `HandleInternalDelete`: `Delete`, then OK whatever it returned. -/
def handleInternalDelete : Handler ByteBuffer := do
  let (key, ts) ← read readInternalDelete
  update fun n => ((), { n with storage := (n.storage.delete key ts).2 })
  return makeOkResponse

/-- One member as `HandleClusterInfo` writes it. -/
def writeMemberInfo (b : ByteBuffer) (m : NodeInfo) : ByteBuffer :=
  (((b.writeString m.nodeId).writeString m.host).writeUint16 m.port).writeBool m.isAlive

/-- `HandleClusterInfo`: every member, then the local store size. -/
def handleClusterInfo : Handler ByteBuffer := do
  let members ← update fun n => (n.cluster.members.entries.map (·.2), n)
  let storeSize ← update fun n => (n.storage.size, n)
  return ((members.foldl writeMemberInfo
    ((empty.writeUint8 StatusCode.ok.code).writeUint32 (UInt32.ofNat members.length))).writeUint64
      (UInt64.ofNat storeSize))

/-- The entry loop of `HandleGossipMessage`: read an entry, then `AddMember`
unless it names the own id. -/
def gossipLoop : Nat → Handler Unit
  | 0 => pure ()
  | n + 1 => do
    let info ← read readNodeInfo
    update fun node => ((), { node with cluster := node.cluster.handleGossipEntries [info] })
    gossipLoop n

/-- `MembershipManager::HandleGossipMessage`. -/
def handleGossipMessage : Handler Unit := do
  let count ← read readUint32
  gossipLoop count.toNat

/-- One member as `CreateGossipMessage` writes it. -/
def writeGossipEntry (b : ByteBuffer) (m : NodeInfo) : ByteBuffer :=
  ((((b.writeString m.nodeId).writeString m.host).writeUint16 m.port).writeUint64
    m.lastHeartbeat).writeBool m.isAlive

/-- `MembershipManager::CreateGossipMessage`. -/
def createGossipMessage (members : Members) : ByteBuffer :=
  (members.entries.map (·.2)).foldl writeGossipEntry
    ((empty.writeUint8 OpType.gossip.code).writeUint32 (UInt32.ofNat members.entries.length))

/-- `HandleGossip`: merge the payload, answer with the own view. -/
def handleGossip : Handler ByteBuffer := do
  handleGossipMessage
  let members ← update fun n => (n.cluster.members, n)
  return createGossipMessage members

/-- The `switch` on the op byte. -/
def dispatch (repl : Replication) (op : UInt8) : Handler ByteBuffer :=
  if op = OpType.put.code then handlePut repl
  else if op = OpType.get.code then handleGet repl
  else if op = OpType.deleteOp.code then handleDelete repl
  else if op = OpType.internalPut.code then handleInternalPut
  else if op = OpType.internalGet.code then handleInternalGet
  else if op = OpType.internalDelete.code then handleInternalDelete
  else if op = OpType.clusterInfo.code then handleClusterInfo
  else if op = OpType.gossip.code then handleGossip
  else pure (makeErrorResponse (Bytes.ofString "Unknown operation"))

/-- The response to an exception with message `what`. -/
def internalError (what : String) : ByteBuffer :=
  makeErrorResponse (Bytes.ofString ("Internal error: " ++ what))

/-- `Coordinator::HandleRequest`: read the op byte, dispatch, and answer an
exception with an error response. -/
def handleRequest (repl : Replication) : Handler ByteBuffer :=
  tryCatch (do dispatch repl (← read readUint8)) fun e => pure (internalError e)

/-- `HandleRequest` on a node: the response and the node after it. -/
def Node.handleRequest (repl : Replication) (node : Node) (request : ByteBuffer) :
    ByteBuffer × Node :=
  match Server.handleRequest repl ⟨node, request⟩ with
  | .ok resp x => (resp, x.node)
  | .error e x => (internalError e, x.node)

/-! ## 3. Running handlers -/

theorem read_of_ok {α : Type} {r : Reader α} {x : Exchange} {a : α} {b : ByteBuffer}
    (h : r x.request = .ok a b) : read r x = .ok a { x with request := b } := by
  simp only [read, h]

theorem read_of_error {α : Type} {r : Reader α} {x : Exchange} {e : String} {b : ByteBuffer}
    (h : r x.request = .error e b) : read r x = .error e { x with request := b } := by
  simp only [read, h]

theorem tryCatch_of_ok {α : Type} {m : Handler α} {h : String → Handler α} {x x' : Exchange}
    {a : α} (hm : m x = .ok a x') : (tryCatch m h : Handler α) x = .ok a x' := by
  show EStateM.tryCatch m h x = _
  simp only [EStateM.tryCatch, hm]

theorem tryCatch_of_error {α : Type} {m : Handler α} {h : String → Handler α} {x x' : Exchange}
    {e : String} (hm : m x = .error e x') : (tryCatch m h : Handler α) x = h e x' := by
  show EStateM.tryCatch m h x = _
  simp only [EStateM.tryCatch, hm]
  rfl

/-- A request whose op byte is `op`, followed by bytes on which the handler
`dispatch` picks runs to `resp` and leaves `node'`, is answered with
`resp` and leaves `node'`. -/
theorem handleRequest_of_dispatch (repl : Replication) (node : Node) {request : ByteBuffer}
    {op : UInt8} {rest : Bytes} (hu : request.unread = op :: rest) {resp : ByteBuffer} {node' : Node}
    (hd : ∀ b : ByteBuffer, b.unread = rest → ∃ b', dispatch repl op ⟨node, b⟩ = .ok resp ⟨node', b'⟩) :
    node.handleRequest repl request = (resp, node') := by
  obtain ⟨b₁, h₁, hu₁⟩ := readUint8_at hu
  obtain ⟨b', hd'⟩ := hd b₁ hu₁
  have hr₁ : read readUint8 ⟨node, request⟩ = .ok op ⟨node, b₁⟩ := read_of_ok h₁
  have hrun : (do dispatch repl (← read readUint8) : Handler ByteBuffer) ⟨node, request⟩ =
      .ok resp ⟨node', b'⟩ := by
    rw [bind_of_ok hr₁]; exact hd'
  simp only [Node.handleRequest, handleRequest, tryCatch_of_ok hrun]

/-! ## 4. The internal requests `KVClient` builds -/

theorem readInternalPut_at {b : ByteBuffer} {key value origin : Bytes} {ts : Timestamp}
    (hk : key.length < 2 ^ 32) (hv : value.length < 2 ^ 32) (ho : origin.length < 2 ^ 32)
    (rest : Bytes) (h : b.unread = encodeString key ++
      (encodeString value ++ (toBytesBE 8 ts.toNat ++ (encodeString origin ++ rest)))) :
    ReadsAt readInternalPut b (key, value, ts, origin) rest :=
  (readString_at hk h).bind fun _ h₁ => (readString_at hv h₁).bind fun _ h₂ =>
    (readUint64_at h₂).bind fun _ h₃ => (readString_at ho h₃).bind fun b' h₄ => ⟨b', rfl, h₄⟩

theorem readInternalDelete_at {b : ByteBuffer} {key : Bytes} {ts : Timestamp}
    (hk : key.length < 2 ^ 32) (rest : Bytes)
    (h : b.unread = encodeString key ++ (toBytesBE 8 ts.toNat ++ rest)) :
    ReadsAt readInternalDelete b (key, ts) rest :=
  (readString_at hk h).bind fun _ h₁ => (readUint64_at h₁).bind fun b' h₂ => ⟨b', rfl, h₂⟩

/-- An `INTERNAL_PUT` request whose fields fit is handled by
`ConditionalPut` and answered OK, whether or not the map took the value. -/
theorem handleRequest_internalPut (repl : Replication) (node : Node) (key value origin : Bytes)
    (ts : Timestamp) (hk : key.length < 2 ^ 32) (hv : value.length < 2 ^ 32)
    (ho : origin.length < 2 ^ 32) :
    node.handleRequest repl (ofData (KVClient.internalPut key value ts origin).data) =
      (makeOkResponse,
        { node with storage := (node.storage.conditionalPut key ⟨value, ts, origin⟩).2 }) := by
  refine handleRequest_of_dispatch repl node
    (show _ = OpType.internalPut.code :: (encodeString key ++
        (encodeString value ++ (toBytesBE 8 ts.toNat ++ encodeString origin))) by
      rw [unread_ofData, KVClient.internalPut_data]) fun b hb => ?_
  obtain ⟨b', hr, -⟩ := readInternalPut_at hk hv ho [] (by rw [hb, List.append_nil])
  exact ⟨b', by show handleInternalPut _ = _; rw [handleInternalPut, bind_of_ok (read_of_ok hr)]; rfl⟩

/-- An `INTERNAL_DELETE` request whose key fits is handled by `Delete` and
answered OK, whether or not an entry was removed. -/
theorem handleRequest_internalDelete (repl : Replication) (node : Node) (key : Bytes)
    (ts : Timestamp) (hk : key.length < 2 ^ 32) :
    node.handleRequest repl (ofData (KVClient.internalDelete key ts).data) =
      (makeOkResponse, { node with storage := (node.storage.delete key ts).2 }) := by
  refine handleRequest_of_dispatch repl node
    (show _ = OpType.internalDelete.code :: (encodeString key ++ toBytesBE 8 ts.toNat) by
      rw [unread_ofData, KVClient.internalDelete_data]) fun b hb => ?_
  obtain ⟨b', hr, -⟩ := readInternalDelete_at hk [] (by rw [hb, List.append_nil])
  exact ⟨b', by
    show handleInternalDelete _ = _; rw [handleInternalDelete, bind_of_ok (read_of_ok hr)]; rfl⟩

/-! ## 5. The client requests and gossip, handled -/

theorem readPut_at {b : ByteBuffer} {key value : Bytes} (hk : key.length < 2 ^ 32)
    (hv : value.length < 2 ^ 32) (rest : Bytes)
    (h : b.unread = encodeString key ++ (encodeString value ++ rest)) :
    ReadsAt readPut b (key, value) rest :=
  (readString_at hk h).bind fun _ h₁ => (readString_at hv h₁).bind fun b' h₂ => ⟨b', rfl, h₂⟩

/-- A `PUT` whose fields fit hands `ReplicatedPut` its key and value. -/
theorem handleRequest_put (repl : Replication) (node : Node) (key value : Bytes)
    (hk : key.length < 2 ^ 32) (hv : value.length < 2 ^ 32) :
    node.handleRequest repl (ofData (KVClient.put key value).data) =
      (if (repl.replicatedPut key value node).1.success then makeOkResponse
        else makeErrorResponse (repl.replicatedPut key value node).1.error,
        (repl.replicatedPut key value node).2) := by
  refine handleRequest_of_dispatch repl node
    (show _ = OpType.put.code :: (encodeString key ++ encodeString value) by
      rw [unread_ofData, KVClient.put_data]) fun b hb => ?_
  obtain ⟨b', hr, -⟩ := readPut_at hk hv [] (by rw [hb, List.append_nil])
  exact ⟨b', by show handlePut repl _ = _; rw [handlePut, bind_of_ok (read_of_ok hr)]; rfl⟩

/-- A `GET` whose key fits hands `ReplicatedGet` its key. -/
theorem handleRequest_get (repl : Replication) (node : Node) (key : Bytes)
    (hk : key.length < 2 ^ 32) :
    node.handleRequest repl (ofData (KVClient.get key).data) =
      (if !(repl.replicatedGet key node).1.success then
          makeErrorResponse (repl.replicatedGet key node).1.error
        else match (repl.replicatedGet key node).1.value with
          | none => makeNotFoundResponse
          | some vv => makeValueResponse vv,
        (repl.replicatedGet key node).2) := by
  refine handleRequest_of_dispatch repl node
    (show _ = OpType.get.code :: encodeString key by rw [unread_ofData, KVClient.get_data])
    fun b hb => ?_
  obtain ⟨b', hr, -⟩ := readString_at hk (show b.unread = encodeString key ++ [] by rw [hb, List.append_nil])
  exact ⟨b', by show handleGet repl _ = _; rw [handleGet, bind_of_ok (read_of_ok hr)]; rfl⟩

/-- A `DELETE` whose key fits hands `ReplicatedDelete` its key. -/
theorem handleRequest_delete (repl : Replication) (node : Node) (key : Bytes)
    (hk : key.length < 2 ^ 32) :
    node.handleRequest repl (ofData (KVClient.delete key).data) =
      (if (repl.replicatedDelete key node).1.success then makeOkResponse
        else makeErrorResponse (repl.replicatedDelete key node).1.error,
        (repl.replicatedDelete key node).2) := by
  refine handleRequest_of_dispatch repl node
    (show _ = OpType.deleteOp.code :: encodeString key by rw [unread_ofData, KVClient.delete_data])
    fun b hb => ?_
  obtain ⟨b', hr, -⟩ := readString_at hk (show b.unread = encodeString key ++ [] by rw [hb, List.append_nil])
  exact ⟨b', by show handleDelete repl _ = _; rw [handleDelete, bind_of_ok (read_of_ok hr)]; rfl⟩

/-- An `INTERNAL_GET` whose key fits is answered from the local engine. -/
theorem handleRequest_internalGet (repl : Replication) (node : Node) (key : Bytes)
    (hk : key.length < 2 ^ 32) :
    node.handleRequest repl (ofData (KVClient.internalGet key).data) =
      (match node.storage.get key with
        | none => makeNotFoundResponse
        | some vv => makeValueResponse vv, node) := by
  refine handleRequest_of_dispatch repl node
    (show _ = OpType.internalGet.code :: encodeString key by
      rw [unread_ofData, KVClient.internalGet_data]) fun b hb => ?_
  obtain ⟨b', hr, -⟩ := readString_at hk (show b.unread = encodeString key ++ [] by rw [hb, List.append_nil])
  exact ⟨b', by show handleInternalGet _ = _; rw [handleInternalGet, bind_of_ok (read_of_ok hr)]; rfl⟩

/-- The bytes `CreateGossipMessage` writes for one member. -/
def encodeGossipEntry (m : NodeInfo) : Bytes :=
  encodeString m.nodeId ++ (encodeString m.host ++ (toBytesBE 2 m.port.toNat ++
    (toBytesBE 8 m.lastHeartbeat.toNat ++ [if m.isAlive then 1 else 0])))

theorem append_append (b : ByteBuffer) (xs ys : Bytes) : (b.append xs).append ys = b.append (xs ++ ys) :=
  ByteBuffer.ext (by simp) rfl

theorem writeGossipEntry_eq (b : ByteBuffer) (m : NodeInfo) :
    writeGossipEntry b m = b.append (encodeGossipEntry m) :=
  ByteBuffer.ext (by simp [writeGossipEntry, writeString_eq, writeUint16, writeUint64, writeBool,
    writeUint8, encodeGossipEntry]) rfl

theorem foldl_writeGossipEntry (l : List NodeInfo) :
    ∀ b : ByteBuffer, l.foldl writeGossipEntry b = b.append (l.map encodeGossipEntry).flatten := by
  induction l with
  | nil => exact fun b => ByteBuffer.ext (by simp) rfl
  | cons m l ih =>
    intro b
    rw [List.foldl_cons, ih, writeGossipEntry_eq, append_append]
    rfl

theorem createGossipMessage_data (members : Members) :
    (createGossipMessage members).data = OpType.gossip.code ::
      (toBytesBE 4 (UInt32.ofNat members.entries.length).toNat ++
        ((members.entries.map (·.2)).map encodeGossipEntry).flatten) := by
  rw [createGossipMessage, foldl_writeGossipEntry]
  simp [writeUint32, writeUint8, empty]

/-- One gossip entry reads back as the member written, when its id and
host fit. -/
theorem readNodeInfo_at {b : ByteBuffer} {m : NodeInfo} (hid : m.nodeId.length < 2 ^ 32)
    (hh : m.host.length < 2 ^ 32) (rest : Bytes) (h : b.unread = encodeGossipEntry m ++ rest) :
    ReadsAt readNodeInfo b m rest := by
  simp only [encodeGossipEntry, List.append_assoc, List.singleton_append] at h
  exact (readString_at hid h).bind fun _ h₁ => (readString_at hh h₁).bind fun _ h₂ =>
    (readUint16_at h₂).bind fun _ h₃ => (readUint64_at h₃).bind fun _ h₄ =>
      (readBool_at h₄).bind fun b' h₅ => ⟨b', rfl, h₅⟩

/-- The entry loop of `HandleGossipMessage` over the encodings of
`entries` merges exactly those entries, in order. -/
theorem gossipLoop_at (entries : List NodeInfo)
    (hfit : ∀ m ∈ entries, m.nodeId.length < 2 ^ 32 ∧ m.host.length < 2 ^ 32) :
    ∀ (node : Node) (b : ByteBuffer) (rest : Bytes),
      b.unread = (entries.map encodeGossipEntry).flatten ++ rest →
      ∃ b', gossipLoop entries.length ⟨node, b⟩ =
        .ok () ⟨{ node with cluster := node.cluster.handleGossipEntries entries }, b'⟩ ∧
        b'.unread = rest := by
  induction entries with
  | nil => exact fun node b rest h => ⟨b, rfl, by simpa using h⟩
  | cons m ms ih =>
    intro node b rest h
    rw [List.map_cons, List.flatten_cons, List.append_assoc] at h
    obtain ⟨b₁, hr, hu₁⟩ := readNodeInfo_at (hfit m (List.mem_cons_self _ _)).1
      (hfit m (List.mem_cons_self _ _)).2 _ h
    obtain ⟨b', hloop, hu'⟩ := ih (fun x hx => hfit x (List.mem_cons_of_mem _ hx))
      { node with cluster := node.cluster.handleGossipEntries [m] } b₁ rest hu₁
    refine ⟨b', ?_, hu'⟩
    rw [List.length_cons, gossipLoop, bind_of_ok (read_of_ok hr)]
    exact hloop

/-- A gossip payload `CreateGossipMessage` built from `members`, whose ids
and hosts fit and whose count fits its `uint32_t`, is handled by merging
exactly the sender's entries, in the sender's order, and answered with the
merged view. -/
theorem handleRequest_gossip (repl : Replication) (node : Node) (members : Members)
    (hfit : ∀ m ∈ members.entries.map (·.2), m.nodeId.length < 2 ^ 32 ∧ m.host.length < 2 ^ 32)
    (hcount : members.entries.length < 2 ^ 32) :
    node.handleRequest repl (ofData (createGossipMessage members).data) =
      (createGossipMessage (node.cluster.handleGossipEntries (members.entries.map (·.2))).members,
        { node with cluster := node.cluster.handleGossipEntries (members.entries.map (·.2)) }) := by
  have hn : (UInt32.ofNat members.entries.length).toNat = (members.entries.map (·.2)).length := by
    rw [List.length_map]; exact UInt32.toNat_ofNat_of_lt hcount
  refine handleRequest_of_dispatch repl node
    (show _ = OpType.gossip.code :: (toBytesBE 4 (UInt32.ofNat members.entries.length).toNat ++
        (((members.entries.map (·.2)).map encodeGossipEntry).flatten ++ [])) by
      rw [unread_ofData, createGossipMessage_data, List.append_nil]) fun b hb => ?_
  obtain ⟨b₁, hr, hu₁⟩ := readUint32_at hb
  obtain ⟨b', hloop, -⟩ := gossipLoop_at _ hfit node b₁ [] hu₁
  have hmsg : handleGossipMessage ⟨node, b⟩ = .ok ()
      ⟨{ node with cluster := node.cluster.handleGossipEntries (members.entries.map (·.2)) }, b'⟩ := by
    rw [handleGossipMessage, bind_of_ok (read_of_ok hr), hn]; exact hloop
  exact ⟨b', by show handleGossip _ = _; rw [handleGossip, bind_of_ok hmsg]; rfl⟩

end KvStore.Server
