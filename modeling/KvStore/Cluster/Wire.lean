/-
KvStore.Cluster.Wire — what the framing and the codec of
`common/protocol.h` carry end to end, and where the 64 MiB frame cap
(`MAX_MESSAGE_SIZE`) cuts.

## Round trips

`wire_round_trips` puts together the codec lemmas of
`KvStore.Server.Coordinator` and `KvStore.Cluster.Replication`: a frame
within the cap is received as it was sent; each request `KVClient` builds is
handled with exactly the key, value, timestamp and origin it encodes; the
reads on the remote branch of `ReplicatedGet` recover every value
`MakeValueResponse` wrote; and a `CreateGossipMessage` payload is merged
entry by entry, in the sender's order, and answered with the merged view.

The side conditions are the codec's own: `WriteString` writes a length as a
`uint32_t`, so each string is shorter than `2 ^ 32` bytes, and so is the
member count `CreateGossipMessage` writes. Any field inside a 64 MiB frame
meets them. Ports and timestamps are `uint16_t` and `uint64_t` in the model
as in the source, so every value of either round-trips.

## Headroom

A client `PUT` costs `9 + |key| + |value|` bytes (`put_size`), the
`INTERNAL_PUT` that `ReplicatedPut` sends for it to a remote replica
`21 + |key| + |value| + |origin|` (`internalPut_size`), and the value
response of a later read `17 + |value| + |origin|`
(`makeValueResponse_size`). Both exceed the `PUT` they come from, so a `PUT`
that `RecvMessage` takes at the cap cannot be replicated to a remote replica
or read back: `cap_put_not_replicable`.
-/
import KvStore.Cluster.Replication

namespace KvStore.Cluster

open Protocol Protocol.ByteBuffer Storage Server

/-! ## 1. Round trips -/

/-- The codec carries every field end to end. -/
theorem wire_round_trips (repl : Replication) (node : Node) (key value origin : Bytes)
    (ts : Timestamp) (members : Members)
    (hk : key.length < 2 ^ 32) (hv : value.length < 2 ^ 32) (ho : origin.length < 2 ^ 32)
    (hm : ∀ m ∈ members.entries.map (·.2), m.nodeId.length < 2 ^ 32 ∧ m.host.length < 2 ^ 32)
    (hcount : members.entries.length < 2 ^ 32) :
    (∀ (buf : ByteBuffer) (rest : Bytes), buf.size ≤ Config.maxMessageSize →
      recvMessage (sendMessage buf ++ rest) = some (ofData buf.data, rest)) ∧
    node.handleRequest repl (ofData (KVClient.put key value).data) =
      (if (repl.replicatedPut key value node).1.success then makeOkResponse
        else makeErrorResponse (repl.replicatedPut key value node).1.error,
        (repl.replicatedPut key value node).2) ∧
    node.handleRequest repl (ofData (KVClient.get key).data) =
      (if !(repl.replicatedGet key node).1.success then
          makeErrorResponse (repl.replicatedGet key node).1.error
        else match (repl.replicatedGet key node).1.value with
          | none => makeNotFoundResponse
          | some vv => makeValueResponse vv,
        (repl.replicatedGet key node).2) ∧
    node.handleRequest repl (ofData (KVClient.delete key).data) =
      (if (repl.replicatedDelete key node).1.success then makeOkResponse
        else makeErrorResponse (repl.replicatedDelete key node).1.error,
        (repl.replicatedDelete key node).2) ∧
    node.handleRequest repl (ofData (KVClient.internalPut key value ts origin).data) =
      (makeOkResponse,
        { node with storage := (node.storage.conditionalPut key ⟨value, ts, origin⟩).2 }) ∧
    node.handleRequest repl (ofData (KVClient.internalGet key).data) =
      (match node.storage.get key with
        | none => makeNotFoundResponse
        | some vv => makeValueResponse vv, node) ∧
    node.handleRequest repl (ofData (KVClient.internalDelete key ts).data) =
      (makeOkResponse, { node with storage := (node.storage.delete key ts).2 }) ∧
    ReadsAt readGetReply (ofData (makeValueResponse ⟨value, ts, origin⟩).data)
      (some ⟨value, ts, origin⟩) [] ∧
    node.handleRequest repl (ofData (createGossipMessage members).data) =
      (createGossipMessage (node.cluster.handleGossipEntries (members.entries.map (·.2))).members,
        { node with cluster := node.cluster.handleGossipEntries (members.entries.map (·.2)) }) :=
  ⟨recvMessage_sendMessage, handleRequest_put repl node key value hk hv,
    handleRequest_get repl node key hk, handleRequest_delete repl node key hk,
    handleRequest_internalPut repl node key value origin ts hk hv ho,
    handleRequest_internalGet repl node key hk, handleRequest_internalDelete repl node key ts hk,
    readGetReply_makeValueResponse ⟨value, ts, origin⟩ hv ho,
    handleRequest_gossip repl node members hm hcount⟩

/-- Quorum operations that succeed and change nothing: a stand-in where
only the decoding matters. -/
def okReplication : Replication :=
  ⟨fun _ _ n => (⟨true, 1, []⟩, n), fun _ n => (⟨true, none, 1, []⟩, n),
    fun _ n => (⟨true, 1, []⟩, n)⟩

/-- On the replica of `KvStore.Cluster.Replication` and the one-member view
of the seed node, a value response reads back and a gossip payload merges
the seed's entry. -/
theorem wire_round_trips_seed :
    ReadsAt readGetReply
      (ofData (makeValueResponse ⟨Bytes.ofString "v", 7, Bytes.ofString "n1"⟩).data)
      (some ⟨Bytes.ofString "v", 7, Bytes.ofString "n1"⟩) [] ∧
    staleReplica.handleRequest okReplication
        (ofData (createGossipMessage (WiredNode.start seedNode 0).members).data) =
      (createGossipMessage (staleReplica.cluster.handleGossipEntries
          ((WiredNode.start seedNode 0).members.entries.map (·.2))).members,
        { staleReplica with cluster :=
            staleReplica.cluster.handleGossipEntries ((WiredNode.start seedNode 0).members.entries.map (·.2)) }) :=
  have h := wire_round_trips okReplication staleReplica (Bytes.ofString "k")
    (Bytes.ofString "v") (Bytes.ofString "n1") 7 (WiredNode.start seedNode 0).members
    (by decide) (by decide) (by decide) (by decide) (by decide)
  ⟨h.2.2.2.2.2.2.2.1, h.2.2.2.2.2.2.2.2⟩

/-! ## 2. Headroom -/

/-- The key of the failing input. -/
def capKey : Bytes := Bytes.ofString "k"

/-- The value that brings a `PUT` of `capKey` to exactly `MAX_MESSAGE_SIZE`. -/
def capValue : Bytes := List.replicate (Config.maxMessageSize - 10) 0

theorem get_put_ofFile (file key value : Bytes) (ts : Timestamp) (origin : Bytes) :
    ((StorageEngine.ofFile file).put key value ts origin).2.get key = some ⟨value, ts, origin⟩ := by
  have h := KeyOp.get_run key (.put value ts origin) (StorageEngine.ofFile file)
  simpa [KeyOp.run, KeyOp.step, KeyOp.offered, StorageEngine.get, StorageEngine.ofFile,
    acceptsPut] using h

/-- A `PUT` at the cap is accepted from the client, but the `INTERNAL_PUT`
for it is rejected by every remote replica, which stays as it was and does
not acknowledge; a replica that holds the value cannot return it, since its
response exceeds the cap; and the coordinator's own `GET` response for it is
rejected by the client. -/
theorem cap_put_not_replicable (repl : Replication) (replica : Node) (ts : Timestamp)
    (nid file : Bytes) :
    (KVClient.put capKey capValue).size = Config.maxMessageSize ∧
    recvMessage (sendMessage (KVClient.put capKey capValue)) =
      some (ofData (KVClient.put capKey capValue).data, []) ∧
    remotePut repl replica (Bytes.ofString "n1") capKey capValue ts = (false, replica) ∧
    remoteGet repl { replica with storage :=
        ((StorageEngine.ofFile file).put capKey capValue ts (Bytes.ofString "n1")).2 } nid capKey =
      (⟨false, none, nid⟩, { replica with storage :=
        ((StorageEngine.ofFile file).put capKey capValue ts (Bytes.ofString "n1")).2 }) ∧
    recvMessage (sendMessage (makeValueResponse ⟨capValue, ts, Bytes.ofString "n1"⟩)) = none := by
  have hmax : Config.maxMessageSize = 67108864 := rfl
  have hval : capValue.length = Config.maxMessageSize - 10 := List.length_replicate _ _
  have hkey : capKey.length = 1 := rfl
  have hput : (KVClient.put capKey capValue).size = Config.maxMessageSize := by
    rw [put_size]; omega
  have hip : (KVClient.internalPut capKey capValue ts (Bytes.ofString "n1")).size =
      Config.maxMessageSize + 14 := by
    rw [internalPut_size, hkey, hval]; rfl
  have hvr : (makeValueResponse ⟨capValue, ts, Bytes.ofString "n1"⟩).size =
      Config.maxMessageSize + 9 := by
    rw [makeValueResponse_size]
    show 17 + capValue.length + 2 = _
    omega
  have hsend := recvMessage_sendMessage _ [] hput.le
  have hreject := recvMessage_of_too_big _ [] (by omega : Config.maxMessageSize <
    (makeValueResponse ⟨capValue, ts, Bytes.ofString "n1"⟩).size) (by omega)
  rw [List.append_nil] at hsend hreject
  exact ⟨hput, hsend, remotePut_of_too_big _ _ _ _ _ _ (by omega) (by omega),
    remoteGet_of_too_big _ _ _ _ (get_put_ofFile _ _ _ _ _) (by rw [internalGet_size, hkey]; decide)
      (by omega) (by omega), hreject⟩

end KvStore.Cluster
