/-
KvStore.Common.Protocol — the wire protocol of `common/protocol.h`: the
`ByteBuffer` writers and readers, the response builders, the framing of
`SendMessage` / `RecvMessage`, and the requests `KVClient` builds
(`client/kv_client.cpp`).

A `ByteBuffer` is its bytes and its read cursor, with the cursor inside the
bytes as a field: `EnsureReadable` is what keeps it there in the source.
Writers append (the private `Append`). Readers run in
`EStateM String ByteBuffer`: `EnsureReadable` throws
`std::runtime_error("ByteBuffer: underflow")` with the cursor unmoved, and
every reader is one `readBytes n` (the check, then the `n` bytes at the
cursor, the cursor moved past them) followed by the big-endian decode that
`ntohs`, `ntohl` and `ReadUint64`'s shift loop compute. `static_cast` of a
size to `uint32_t` is `UInt32.ofNat`, the size modulo `2 ^ 32`.

## How the round trips go

Each reader's lemma is stated at the cursor: when the unread bytes start
with a writer's encoding of `x`, the reader returns `x` and the unread
bytes are what followed (`readUint32_at`, `readString_at`, …). A request
read field after field is a chain of such steps; `Coordinator` uses them
to decode the requests `KVClient` builds.

`RecvMessage` takes a frame of at most `MAX_MESSAGE_SIZE` bytes as it was
sent (`recvMessage_sendMessage`) and rejects a larger one
(`recvMessage_of_too_big`); `KvStore.Cluster.Wire` weighs the requests and
responses against that cap.
-/
import KvStore.Storage.Wal

namespace KvStore.Protocol

/-! ## 1. The buffer -/

/-- `ByteBuffer`: `data_` and `read_pos_`, the cursor never past the end. -/
@[ext]
structure ByteBuffer where
  data : Bytes
  readPos : Nat
  readPos_le : readPos ≤ data.length

/-- A read from a buffer that may throw. -/
abbrev Reader := EStateM String ByteBuffer

section Run

variable {ε σ α β : Type} {x : EStateM ε σ α} {f : α → EStateM ε σ β} {s s' : σ}

/-- A run through a bind: the second action starts where the first one stopped. -/
theorem bind_of_ok {a : α} (h : x s = .ok a s') : (x >>= f) s = f a s' := by
  show EStateM.bind x f s = _
  simp only [EStateM.bind, h]

theorem bind_of_error {e : ε} (h : x s = .error e s') : (x >>= f) s = .error e s' := by
  show EStateM.bind x f s = _
  simp only [EStateM.bind, h]

end Run

namespace ByteBuffer

/-- `ByteBuffer()`. -/
def empty : ByteBuffer := ⟨[], 0, le_refl _⟩

/-- `ByteBuffer(std::vector<uint8_t> data)`: the cursor at the start. -/
def ofData (data : Bytes) : ByteBuffer := ⟨data, 0, Nat.zero_le _⟩

/-- `Size()`. -/
def size (b : ByteBuffer) : Nat := b.data.length

/-- The bytes not yet read. -/
def unread (b : ByteBuffer) : Bytes := b.data.drop b.readPos

/-- `Append(p, n)`: bytes added at the end, the cursor kept. -/
def append (b : ByteBuffer) (bs : Bytes) : ByteBuffer :=
  ⟨b.data ++ bs, b.readPos, b.readPos_le.trans (by simp)⟩

/-- `WriteUint8`. -/
def writeUint8 (b : ByteBuffer) (v : UInt8) : ByteBuffer := b.append [v]

/-- `WriteUint16`: `htons`, most significant byte first. -/
def writeUint16 (b : ByteBuffer) (v : UInt16) : ByteBuffer := b.append (toBytesBE 2 v.toNat)

/-- `WriteUint32`: `htonl`. -/
def writeUint32 (b : ByteBuffer) (v : UInt32) : ByteBuffer := b.append (toBytesBE 4 v.toNat)

/-- `WriteUint64`: the `(val >> (i * 8)) & 0xFF` loop from `i = 7` down. -/
def writeUint64 (b : ByteBuffer) (v : UInt64) : ByteBuffer := b.append (toBytesBE 8 v.toNat)

/-- `WriteString`: the size as `uint32_t`, then the bytes. -/
def writeString (b : ByteBuffer) (s : Bytes) : ByteBuffer :=
  (b.writeUint32 (UInt32.ofNat s.length)).append s

/-- `WriteBool`. -/
def writeBool (b : ByteBuffer) (v : Bool) : ByteBuffer := b.writeUint8 (if v then 1 else 0)

/-- The cursor moved `n` bytes on, kept inside the buffer. -/
def advance (b : ByteBuffer) (n : Nat) : ByteBuffer :=
  ⟨b.data, min (b.readPos + n) b.data.length, Nat.min_le_right _ _⟩

/-- The message `EnsureReadable` throws. -/
def underflow : String := "ByteBuffer: underflow"

/-- `EnsureReadable(n)`, then the `n` bytes at the cursor, the cursor moved
past them. -/
def readBytes (n : Nat) : Reader Bytes := fun b =>
  if b.readPos + n > b.data.length then .error underflow b
  else .ok (b.unread.take n) (b.advance n)

/-- `ReadUint8`. -/
def readUint8 : Reader UInt8 := do return (← readBytes 1).headD 0

/-- `ReadUint16`: `ntohs` of two bytes. -/
def readUint16 : Reader UInt16 := do return UInt16.ofNat (ofBytesBE (← readBytes 2))

/-- `ReadUint32`: `ntohl` of four bytes. -/
def readUint32 : Reader UInt32 := do return UInt32.ofNat (ofBytesBE (← readBytes 4))

/-- `ReadUint64`: `val = (val << 8) | byte` over eight bytes. -/
def readUint64 : Reader UInt64 := do return UInt64.ofNat (ofBytesBE (← readBytes 8))

/-- `ReadString`: a `uint32_t` length, then that many bytes. -/
def readString : Reader Bytes := do readBytes (← readUint32).toNat

/-- `ReadBool`. -/
def readBool : Reader Bool := do return (← readUint8) != 0

/-! ## 2. Lemmas at the cursor -/

@[simp] theorem append_data (b : ByteBuffer) (bs : Bytes) : (b.append bs).data = b.data ++ bs := rfl

@[simp] theorem append_readPos (b : ByteBuffer) (bs : Bytes) : (b.append bs).readPos = b.readPos :=
  rfl

@[simp] theorem advance_data (b : ByteBuffer) (n : Nat) : (b.advance n).data = b.data := rfl

/-- The encoding `WriteString` appends. -/
def encodeString (s : Bytes) : Bytes := toBytesBE 4 (UInt32.ofNat s.length).toNat ++ s

theorem writeString_eq (b : ByteBuffer) (s : Bytes) : b.writeString s = b.append (encodeString s) :=
  ByteBuffer.ext (by simp [writeString, writeUint32, encodeString]) rfl

theorem readBytes_at {b : ByteBuffer} {xs rest : Bytes} (h : b.unread = xs ++ rest) :
    readBytes xs.length b = .ok xs (b.advance xs.length) ∧ (b.advance xs.length).unread = rest := by
  have hlen : xs.length + rest.length = b.data.length - b.readPos := by
    rw [← List.length_append, ← h, unread, List.length_drop]
  have hle := b.readPos_le
  have hmin : min (b.readPos + xs.length) b.data.length = b.readPos + xs.length := by omega
  refine ⟨?_, ?_⟩
  · rw [readBytes, if_neg (by omega), h, List.take_left]
  · simp only [unread, advance, hmin, ← List.drop_drop]
    rw [show b.data.drop b.readPos = xs ++ rest from h, List.drop_left]

theorem readBytes_short {b : ByteBuffer} {n : Nat} (h : b.unread.length < n) :
    readBytes n b = .error underflow b := by
  simp only [unread, List.length_drop] at h
  rw [readBytes, if_pos (by omega)]

/-- One reader step: what it returns and what is left unread. -/
def ReadsAt {α : Type} (r : Reader α) (b : ByteBuffer) (a : α) (rest : Bytes) : Prop :=
  ∃ b', r b = .ok a b' ∧ b'.unread = rest

theorem ReadsAt.bind {α β : Type} {r : Reader α} {f : α → Reader β} {b : ByteBuffer} {a : α}
    {rest : Bytes} {c : β} {rest' : Bytes} (h : ReadsAt r b a rest)
    (hf : ∀ b', b'.unread = rest → ReadsAt (f a) b' c rest') : ReadsAt (r >>= f) b c rest' := by
  obtain ⟨b', hr, hu⟩ := h
  obtain ⟨b'', hf, hu'⟩ := hf b' hu
  exact ⟨b'', (bind_of_ok hr).trans hf, hu'⟩

theorem readsAt_readBytes {b : ByteBuffer} (xs : Bytes) {rest : Bytes} (h : b.unread = xs ++ rest) :
    ReadsAt (readBytes xs.length) b xs rest :=
  ⟨_, readBytes_at h⟩

theorem readsAt_map {α β : Type} {r : Reader α} (g : α → β) {b : ByteBuffer} {a : α}
    {rest : Bytes} (h : ReadsAt r b a rest) : ReadsAt (r >>= fun x => pure (g x)) b (g a) rest :=
  h.bind fun b' hb' => ⟨b', rfl, hb'⟩

theorem readUint8_at {b : ByteBuffer} {v : UInt8} {rest : Bytes} (h : b.unread = v :: rest) :
    ReadsAt readUint8 b v rest :=
  readsAt_map (fun bs : Bytes => bs.headD (0 : UInt8)) (readsAt_readBytes [v] h)

theorem readsAt_readBytes_of_length {b : ByteBuffer} {n : Nat} (xs : Bytes) {rest : Bytes}
    (hx : xs.length = n) (h : b.unread = xs ++ rest) : ReadsAt (readBytes n) b xs rest :=
  hx ▸ readsAt_readBytes xs h

theorem readUint16_at {b : ByteBuffer} {v : UInt16} {rest : Bytes}
    (h : b.unread = toBytesBE 2 v.toNat ++ rest) : ReadsAt readUint16 b v rest := by
  have := readsAt_map (fun bs : Bytes => UInt16.ofNat (ofBytesBE bs))
    (readsAt_readBytes_of_length _ (length_toBytesBE 2 v.toNat) h)
  simpa only [ofBytesBE_toBytesBE, Nat.mod_eq_of_lt (show v.toNat < 256 ^ 2 from v.toNat_lt_size),
    uInt16_ofNat_toNat] using this

theorem readUint32_at {b : ByteBuffer} {v : UInt32} {rest : Bytes}
    (h : b.unread = toBytesBE 4 v.toNat ++ rest) : ReadsAt readUint32 b v rest := by
  have := readsAt_map (fun bs : Bytes => UInt32.ofNat (ofBytesBE bs))
    (readsAt_readBytes_of_length _ (length_toBytesBE 4 v.toNat) h)
  simpa only [ofBytesBE_toBytesBE, Nat.mod_eq_of_lt (show v.toNat < 256 ^ 4 from v.toNat_lt_size),
    uInt32_ofNat_toNat] using this

theorem readUint64_at {b : ByteBuffer} {v : UInt64} {rest : Bytes}
    (h : b.unread = toBytesBE 8 v.toNat ++ rest) : ReadsAt readUint64 b v rest := by
  have := readsAt_map (fun bs : Bytes => UInt64.ofNat (ofBytesBE bs))
    (readsAt_readBytes_of_length _ (length_toBytesBE 8 v.toNat) h)
  simpa only [ofBytesBE_toBytesBE, Nat.mod_eq_of_lt (show v.toNat < 256 ^ 8 from v.toNat_lt_size),
    uInt64_ofNat_toNat] using this

theorem readBool_at {b : ByteBuffer} {v : Bool} {rest : Bytes}
    (h : b.unread = (if v then 1 else 0) :: rest) : ReadsAt readBool b v rest := by
  cases v <;> exact readsAt_map (fun x : UInt8 => x != 0) (readUint8_at h)

/-- A string shorter than `2 ^ 32` reads back from its encoding. -/
theorem readString_at {b : ByteBuffer} {s rest : Bytes} (hs : s.length < 2 ^ 32)
    (h : b.unread = encodeString s ++ rest) : ReadsAt readString b s rest := by
  have hn : (UInt32.ofNat s.length).toNat = s.length := UInt32.toNat_ofNat_of_lt hs
  rw [encodeString, List.append_assoc] at h
  exact (readUint32_at h).bind fun _ hb => readsAt_readBytes_of_length s hn.symm (by rw [hb])

@[simp] theorem unread_ofData (data : Bytes) : (ofData data).unread = data := rfl

end ByteBuffer

open ByteBuffer

/-! ## 3. Responses and framing -/

/-- `MakeOkResponse`. -/
def makeOkResponse : ByteBuffer := empty.writeUint8 StatusCode.ok.code

/-- `MakeErrorResponse(msg)`. -/
def makeErrorResponse (msg : Bytes) : ByteBuffer :=
  (empty.writeUint8 StatusCode.error.code).writeString msg

/-- `MakeNotFoundResponse`. -/
def makeNotFoundResponse : ByteBuffer := empty.writeUint8 StatusCode.notFound.code

/-- `MakeValueResponse(vv)`: status, value, timestamp, origin. -/
def makeValueResponse (vv : VersionedValue) : ByteBuffer :=
  (((empty.writeUint8 StatusCode.ok.code).writeString vv.value).writeUint64 vv.timestamp).writeString
    vv.originNode

/-- `SendMessage`: the bytes put on the socket, the size as `uint32_t`
(`htonl`) then the payload. -/
def sendMessage (buf : ByteBuffer) : Bytes :=
  toBytesBE 4 (UInt32.ofNat buf.size).toNat ++ buf.data

/-- `RecvMessage` over the bytes the socket delivers: the payload as a
fresh buffer and the bytes after it; `none` where a `RecvAll` comes up
short or the length exceeds `MAX_MESSAGE_SIZE`. -/
def recvMessage (stream : Bytes) : Option (ByteBuffer × Bytes) := do
  let (lenBytes, rest) ← Storage.takeBytes 4 stream
  let len := ofBytesBE lenBytes
  if len > Config.maxMessageSize then none
  else
    let (payload, rest) ← Storage.takeBytes len rest
    pure (ofData payload, rest)

/-- A frame within the size cap is received as the buffer that was sent,
whatever follows it on the socket. -/
theorem recvMessage_sendMessage (buf : ByteBuffer) (rest : Bytes)
    (h : buf.size ≤ Config.maxMessageSize) :
    recvMessage (sendMessage buf ++ rest) = some (ofData buf.data, rest) := by
  have hlt : buf.size < 2 ^ 32 := lt_of_le_of_lt h (by decide)
  have hn : (UInt32.ofNat buf.size).toNat = buf.size := UInt32.toNat_ofNat_of_lt hlt
  simp only [recvMessage, sendMessage, List.append_assoc, hn,
    Storage.takeBytes_append_of_length _ (length_toBytesBE 4 _), Option.bind_eq_bind,
    Option.some_bind, ofBytesBE_toBytesBE, Nat.mod_eq_of_lt (show buf.size < 256 ^ 4 from hlt),
    if_neg (not_lt.mpr h)]
  rw [Storage.takeBytes_append_of_length rest (show buf.data.length = buf.size from rfl)]
  rfl

/-- A frame over the cap, with its size still exact in the `uint32_t`
header, is rejected. -/
theorem recvMessage_of_too_big (buf : ByteBuffer) (rest : Bytes)
    (h : Config.maxMessageSize < buf.size) (hlt : buf.size < 2 ^ 32) :
    recvMessage (sendMessage buf ++ rest) = none := by
  have hn : (UInt32.ofNat buf.size).toNat = buf.size := UInt32.toNat_ofNat_of_lt hlt
  simp only [recvMessage, sendMessage, List.append_assoc, hn,
    Storage.takeBytes_append_of_length _ (length_toBytesBE 4 _), Option.bind_eq_bind,
    Option.some_bind, ofBytesBE_toBytesBE, Nat.mod_eq_of_lt (show buf.size < 256 ^ 4 from hlt),
    if_pos h]

/-! ## 4. Requests `KVClient` sends -/

namespace KVClient

/-- The request of `KVClient::Put`. -/
def put (key value : Bytes) : ByteBuffer :=
  ((empty.writeUint8 OpType.put.code).writeString key).writeString value

/-- The request of `KVClient::Get`. -/
def get (key : Bytes) : ByteBuffer := (empty.writeUint8 OpType.get.code).writeString key

/-- The request of `KVClient::Delete`. -/
def delete (key : Bytes) : ByteBuffer := (empty.writeUint8 OpType.deleteOp.code).writeString key

/-- The request of `KVClient::InternalPut`. -/
def internalPut (key value : Bytes) (ts : Timestamp) (origin : Bytes) : ByteBuffer :=
  ((((empty.writeUint8 OpType.internalPut.code).writeString key).writeString value).writeUint64
    ts).writeString origin

/-- The request of `KVClient::InternalGet`. -/
def internalGet (key : Bytes) : ByteBuffer :=
  (empty.writeUint8 OpType.internalGet.code).writeString key

/-- The request of `KVClient::InternalDelete`. -/
def internalDelete (key : Bytes) (ts : Timestamp) : ByteBuffer :=
  ((empty.writeUint8 OpType.internalDelete.code).writeString key).writeUint64 ts

/-- The request of `KVClient::GetClusterInfo`. -/
def getClusterInfo : ByteBuffer := empty.writeUint8 OpType.clusterInfo.code

theorem internalPut_data (key value : Bytes) (ts : Timestamp) (origin : Bytes) :
    (internalPut key value ts origin).data = OpType.internalPut.code ::
      (encodeString key ++ (encodeString value ++ (toBytesBE 8 ts.toNat ++ encodeString origin))) := by
  simp [internalPut, writeString_eq, writeUint8, writeUint64, empty]

theorem internalDelete_data (key : Bytes) (ts : Timestamp) :
    (internalDelete key ts).data =
      OpType.internalDelete.code :: (encodeString key ++ toBytesBE 8 ts.toNat) := by
  simp [internalDelete, writeString_eq, writeUint8, writeUint64, empty]

theorem put_data (key value : Bytes) :
    (put key value).data = OpType.put.code :: (encodeString key ++ encodeString value) := by
  simp [put, writeString_eq, writeUint8, empty]

theorem get_data (key : Bytes) : (get key).data = OpType.get.code :: encodeString key := by
  simp [get, writeString_eq, writeUint8, empty]

theorem delete_data (key : Bytes) : (delete key).data = OpType.deleteOp.code :: encodeString key := by
  simp [delete, writeString_eq, writeUint8, empty]

theorem internalGet_data (key : Bytes) :
    (internalGet key).data = OpType.internalGet.code :: encodeString key := by
  simp [internalGet, writeString_eq, writeUint8, empty]

end KVClient

theorem makeValueResponse_data (vv : VersionedValue) :
    (makeValueResponse vv).data = StatusCode.ok.code ::
      (encodeString vv.value ++ (toBytesBE 8 vv.timestamp.toNat ++ encodeString vv.originNode)) := by
  simp [makeValueResponse, writeString_eq, writeUint8, writeUint64, empty]

end KvStore.Protocol
