/-
KvStore.Server.Decoding — the readers of `common/protocol.h` and the record
parser of `WriteAheadLog::Replay` at the level of the bytes they touch, and
what a request the readers cannot decode does to a node.

* `Decode` — a decoder as the source's readers are written: checks
  `EnsureReadable(n)`, each followed by the copy of the `n` bytes at the
  cursor. Every count a reader passes is a constant or a `uint32_t` length,
  so a count is a `UInt32`.
* `Decode.run` — the decoder in the model's reader monad, each step one
  `readBytes`. The decoders of §2 are the model's readers
  (`run_readString`, …, `run_readNodeInfo`), and the record parser of §3 is
  `parseRecord` (`take_parseRecord`).
* `Decode.exec` — the decoder as the source runs it: `read_pos_ + n` taken
  in 64-bit `size_t`, then the copy, `none` when the copy reaches past the
  end of the buffer. On every buffer a vector can hold (fewer than `2 ^ 63`
  bytes) and from every cursor, `exec` never fails and agrees with `run`
  (`exec_eq_run`): no check wraps, no copy leaves the buffer, and the cursor
  stays inside it (`decoders_stay_in_bounds`).

§5 follows a throw out of a handler. Every handler but `HandleGossip` reads
its whole request before it changes the node (`throwsClean_dispatch`), so a
request cut short is answered with an error and leaves the node as it was.
`HandleGossipMessage` calls `AddMember` after each entry it reads, so a
`GOSSIP` payload cut short leaves the entries before the cut merged into
the members and the ring (`gossipLoop_of_error`,
`malformed_request_effects`, `truncated_gossip_merges`).

The record parser checks its op byte with `pos >= record.size()`; at
`pos = 0` that is the test `pos + 1 > record.size()` of `ReadUint8`, and its
timestamp and two length-prefixed fields have the layout, and the checks, of
`ReadUint64` and `ReadString`, so `Decode.parseRecord` is written with those
decoders.
-/
import KvStore.Cluster.Wire

namespace KvStore.Server

open Protocol Storage Cluster
open Protocol.ByteBuffer (readBytes underflow unread advance ofData size ReadsAt)

/-! ## 1. Decoders at byte level -/

/-- A decoder: done, or a check for `n` bytes, their copy, and what follows
from them. -/
inductive Decode (α : Type) where
  | done (a : α)
  | bytes (n : UInt32) (k : Bytes → Decode α)

namespace Decode

/-- Sequencing: `d`, then `f` of what it returned. -/
def bind {α β : Type} : Decode α → (α → Decode β) → Decode β
  | done a, f => f a
  | bytes n k, f => bytes n fun bs => (k bs).bind f

instance : Monad Decode where
  pure := done
  bind := bind

/-- The decoder in the model: each step is `readBytes`. -/
def run {α : Type} : Decode α → Reader α
  | done a => pure a
  | bytes n k => readBytes n.toNat >>= fun bs => (k bs).run

/-- `EnsureReadable(n)`'s test `read_pos_ + n > data_.size()`, in `size_t`:
the sum is taken modulo `2 ^ 64`. -/
def overrun (b : ByteBuffer) (n : Nat) : Bool :=
  UInt64.ofNat b.size < UInt64.ofNat b.readPos + UInt64.ofNat n

/-- One step as the source runs it: the check, then the copy of
`data_[read_pos_]` … `data_[read_pos_ + n - 1]` and `read_pos_ += n`;
`none` when the copy reaches past the end of the buffer. -/
def readBytesAt (n : Nat) (b : ByteBuffer) : Option (EStateM.Result String ByteBuffer Bytes) :=
  if overrun b n then some (.error underflow b)
  else if h : b.readPos + n ≤ b.size then some (.ok (b.unread.take n) ⟨b.data, b.readPos + n, h⟩)
  else none

/-- The decoder as the source runs it; `none` if some copy leaves the buffer. -/
def exec {α : Type} : Decode α → ByteBuffer → Option (EStateM.Result String ByteBuffer α)
  | done a, b => some (.ok a b)
  | bytes n k, b =>
    match readBytesAt n.toNat b with
    | some (.ok bs b') => (k bs).exec b'
    | some (.error e b') => some (.error e b')
    | none => none

/-- On a buffer a vector can hold and a count below `2 ^ 32`, the check does
not wrap. -/
theorem overrun_iff {b : ByteBuffer} {n : Nat} (hb : b.size < 2 ^ 63) (hn : n < 2 ^ 32) :
    overrun b n = true ↔ b.size < b.readPos + n := by
  have hp : b.readPos ≤ b.size := b.readPos_le
  have h64 : ∀ m, m < 2 ^ 64 → (UInt64.ofNat m).toBitVec.toNat = m :=
    fun m hm => UInt64.toBitVec_eq_of_lt hm
  simp only [overrun, decide_eq_true_iff, UInt64.lt_def, BitVec.lt_def]
  show (UInt64.ofNat b.size).toBitVec.toNat <
    ((UInt64.ofNat b.readPos).toBitVec + (UInt64.ofNat n).toBitVec).toNat ↔ _
  rw [BitVec.toNat_add, h64 _ (by omega), h64 _ (by omega), h64 _ (by omega),
    Nat.mod_eq_of_lt (by omega)]

theorem readBytesAt_eq {b : ByteBuffer} {n : Nat} (hb : b.size < 2 ^ 63) (hn : n < 2 ^ 32) :
    readBytesAt n b = some (readBytes n b) := by
  unfold readBytesAt readBytes
  by_cases h : b.size < b.readPos + n
  · rw [if_pos ((overrun_iff hb hn).mpr h), if_pos (show b.readPos + n > b.data.length from h)]
  · have hle : b.readPos + n ≤ b.size := by omega
    rw [if_neg (mt (overrun_iff hb hn).mp h), dif_pos hle,
      if_neg (show ¬b.readPos + n > b.data.length from h)]
    exact congrArg _ (congrArg _ (ByteBuffer.ext rfl (Nat.min_eq_left hle).symm))

/-- What the model's `readBytes` returns when it does not throw. -/
theorem readBytes_of_ok {n : Nat} {b b' : ByteBuffer} {bs : Bytes}
    (h : readBytes n b = .ok bs b') : bs = b.unread.take n ∧ b' = b.advance n ∧ n ≤ b.unread.length := by
  have hlen : b.unread.length = b.data.length - b.readPos := List.length_drop _ _
  unfold readBytes at h
  split at h
  · cases h
  · cases h; exact ⟨rfl, rfl, by omega⟩

/-- Run as the source runs it, on a buffer the size of any vector, a
decoder copies no byte from outside the buffer, and its checks decide as
they do without wrapping: it does what the model's readers do. -/
theorem exec_eq_run {α : Type} (d : Decode α) :
    ∀ b : ByteBuffer, b.size < 2 ^ 63 → d.exec b = some (d.run b) := by
  induction d with
  | done a => exact fun _ _ => rfl
  | bytes n k ih =>
    intro b hb
    rw [exec, readBytesAt_eq hb n.toNat_lt_size, run]
    rcases h : readBytes n.toNat b with ⟨bs, b'⟩ | ⟨e, b'⟩
    · dsimp only
      rw [bind_of_ok h, ih bs b' (by rw [(readBytes_of_ok h).2.1]; exact hb)]
    · rw [bind_of_error h]

theorem error_of_readBytes {n : Nat} {b b' : ByteBuffer} {e : String}
    (h : readBytes n b = .error e b') : e = underflow ∧ b' = b := by
  unfold readBytes at h
  split at h
  · cases h; exact ⟨rfl, rfl⟩
  · cases h

/-- A decoder throws nothing but `underflow`. -/
theorem run_error {α : Type} (d : Decode α) :
    ∀ {b b' : ByteBuffer} {e : String}, d.run b = .error e b' → e = underflow := by
  induction d with
  | done a => intro _ _ _ h; cases h
  | bytes n k ih =>
    intro b b' e h
    rw [run] at h
    rcases hr : readBytes n.toNat b with ⟨bs, b₁⟩ | ⟨e₁, b₁⟩
    · rw [bind_of_ok hr] at h; exact ih bs h
    · rw [bind_of_error hr] at h
      cases h
      exact (error_of_readBytes hr).1

@[simp] theorem run_pure {α : Type} (a : α) : (pure a : Decode α).run = pure a := rfl

@[simp] theorem run_bind {α β : Type} (d : Decode α) (f : α → Decode β) :
    (d >>= f).run = d.run >>= fun a => (f a).run := by
  show (d.bind f).run = _
  induction d with
  | done a => exact (pure_bind a fun a => (f a).run).symm
  | bytes n k ih => simp only [bind, run, ih, bind_assoc]

end Decode

/-! ## 2. The readers and the handlers' decoders -/

/-- `ReadUint8`: `EnsureReadable(1)`, then `data_[read_pos_++]`. -/
def Decode.readUint8 : Decode UInt8 := .bytes 1 fun bs => .done (bs.headD 0)

/-- `ReadUint16`: `EnsureReadable(2)`, a `memcpy` of two bytes, `ntohs`. -/
def Decode.readUint16 : Decode UInt16 := .bytes 2 fun bs => .done (UInt16.ofNat (ofBytesBE bs))

/-- `ReadUint32`: `EnsureReadable(4)`, a `memcpy` of four bytes, `ntohl`. -/
def Decode.readUint32 : Decode UInt32 := .bytes 4 fun bs => .done (UInt32.ofNat (ofBytesBE bs))

/-- `ReadUint64`: `EnsureReadable(8)`, then `data_[read_pos_++]` eight times. -/
def Decode.readUint64 : Decode UInt64 := .bytes 8 fun bs => .done (UInt64.ofNat (ofBytesBE bs))

/-- `ReadString`: the length, `EnsureReadable(len)`, the `len` bytes. -/
def Decode.readString : Decode Bytes := do .bytes (← Decode.readUint32) .done

/-- `ReadBool`. -/
def Decode.readBool : Decode Bool := do return (← Decode.readUint8) != 0

/-- The fields `HandlePut` reads. -/
def Decode.readPut : Decode (Bytes × Bytes) := do
  let key ← Decode.readString
  let value ← Decode.readString
  return (key, value)

/-- The fields `HandleInternalPut` reads. -/
def Decode.readInternalPut : Decode (Bytes × Bytes × Timestamp × Bytes) := do
  let key ← Decode.readString
  let value ← Decode.readString
  let ts ← Decode.readUint64
  let origin ← Decode.readString
  return (key, value, ts, origin)

/-- The fields `HandleInternalDelete` reads. -/
def Decode.readInternalDelete : Decode (Bytes × Timestamp) := do
  let key ← Decode.readString
  let ts ← Decode.readUint64
  return (key, ts)

/-- One entry of `HandleGossipMessage`. -/
def Decode.readNodeInfo : Decode NodeInfo := do
  let nodeId ← Decode.readString
  let host ← Decode.readString
  let port ← Decode.readUint16
  let lastHeartbeat ← Decode.readUint64
  let isAlive ← Decode.readBool
  return { nodeId, host, port, isAlive, lastHeartbeat }

theorem run_readUint8 : Decode.readUint8.run = ByteBuffer.readUint8 := rfl
theorem run_readUint16 : Decode.readUint16.run = ByteBuffer.readUint16 := rfl
theorem run_readUint32 : Decode.readUint32.run = ByteBuffer.readUint32 := rfl
theorem run_readUint64 : Decode.readUint64.run = ByteBuffer.readUint64 := rfl

theorem run_readString : Decode.readString.run = ByteBuffer.readString := by
  simp only [Decode.readString, Decode.run_bind, run_readUint32, Decode.run, bind_pure,
    ByteBuffer.readString, ByteBuffer.readUint32, bind_assoc, pure_bind]
  rfl

theorem run_readBool : Decode.readBool.run = ByteBuffer.readBool := by
  simp only [Decode.readBool, Decode.run_bind, Decode.run_pure, run_readUint8]
  rfl

theorem run_readPut : Decode.readPut.run = readPut := by
  simp only [Decode.readPut, Decode.run_bind, Decode.run_pure, run_readString]
  rfl

theorem run_readInternalPut : Decode.readInternalPut.run = readInternalPut := by
  simp only [Decode.readInternalPut, Decode.run_bind, Decode.run_pure, run_readString,
    run_readUint64]
  rfl

theorem run_readInternalDelete : Decode.readInternalDelete.run = readInternalDelete := by
  simp only [Decode.readInternalDelete, Decode.run_bind, Decode.run_pure, run_readString,
    run_readUint64]
  rfl

theorem run_readNodeInfo : Decode.readNodeInfo.run = readNodeInfo := by
  simp only [Decode.readNodeInfo, Decode.run_bind, Decode.run_pure, run_readString,
    run_readUint16, run_readUint64, run_readBool]
  rfl


/-! ## 3. The WAL record parser -/

/-- The field parser of `Replay` on a cursor over the record: before each
field the check `pos + n > record.size()` (for the op byte
`pos >= record.size()`, the same test at `n = 1`), then the field's bytes.
The op byte, the 8-byte timestamp and the two length-prefixed strings have
the layout `ReadUint8`, `ReadUint64` and `ReadString` read. -/
def Decode.parseRecord : Decode WALEntry := do
  let op ← Decode.readUint8
  let ts ← Decode.readUint64
  let key ← Decode.readString
  let value ← Decode.readString
  return ⟨⟨op⟩, ts, key, value⟩

namespace Decode

/-- The decoder over a byte string cut by `takeBytes`: the value and the
bytes after it. -/
def take {α : Type} : Decode α → Bytes → Option (α × Bytes)
  | done a, bs => some (a, bs)
  | bytes n k, bs => (takeBytes n.toNat bs).bind fun (x, r) => (k x).take r

@[simp] theorem take_pure {α : Type} (a : α) (bs : Bytes) : (pure a : Decode α).take bs = some (a, bs) :=
  rfl

theorem take_bind {α β : Type} (d : Decode α) (f : α → Decode β) (bs : Bytes) :
    (d >>= f).take bs = (d.take bs).bind fun (a, r) => (f a).take r := by
  show (d.bind f).take bs = _
  induction d generalizing bs with
  | done a => rfl
  | bytes n k ih =>
    simp only [bind, take, Option.bind_assoc, ih]

end Decode

theorem readsAt_readBytes_iff {n : Nat} {b : ByteBuffer} {xs r : Bytes} :
    ReadsAt (readBytes n) b xs r ↔ takeBytes n b.unread = some (xs, r) := by
  have hlen : b.unread.length = b.data.length - b.readPos := List.length_drop _ _
  have hle := b.readPos_le
  rw [takeBytes_eq_some]
  unfold ReadsAt readBytes
  split
  · exact iff_of_false (fun ⟨_, h, _⟩ => nomatch h) fun ⟨h, _⟩ => by omega
  · have hdrop : (b.advance n).unread = b.unread.drop n := by
      simp only [unread, advance, List.drop_drop]
      rw [Nat.min_eq_left (by omega), Nat.add_comm]
    constructor
    · rintro ⟨b', h, rfl⟩
      cases h
      exact ⟨by omega, rfl, hdrop.symm⟩
    · rintro ⟨-, rfl, rfl⟩
      exact ⟨_, rfl, hdrop⟩

/-- The model's reader run of a decoder and its cut of the unread bytes agree. -/
theorem readsAt_run_iff {α : Type} (d : Decode α) :
    ∀ {b : ByteBuffer} {a : α} {r : Bytes}, ReadsAt d.run b a r ↔ d.take b.unread = some (a, r) := by
  induction d with
  | done a' =>
    intro b a r
    simp only [ReadsAt, Decode.run, Decode.take, Option.some.injEq, Prod.mk.injEq]
    exact ⟨fun ⟨_, h, hr⟩ => by cases h; exact ⟨rfl, hr⟩, fun ⟨ha, hr⟩ => ⟨b, by rw [ha]; rfl, hr⟩⟩
  | bytes n k ih =>
    intro b a r
    rw [Decode.run, Decode.take]
    rcases hr : readBytes n.toNat b with ⟨bs, b₁⟩ | ⟨e, b₁⟩
    · rw [readsAt_readBytes_iff.mp ⟨b₁, hr, rfl⟩, Option.some_bind, ← ih]
      unfold ReadsAt
      rw [bind_of_ok hr]
    · have hnone : takeBytes n.toNat b.unread = none := by
        rcases ht : takeBytes n.toNat b.unread with _ | ⟨xs, r'⟩
        · rfl
        · obtain ⟨_, h, -⟩ := readsAt_readBytes_iff.mpr ht
          rw [hr] at h; cases h
      rw [hnone]
      exact iff_of_false (fun ⟨_, h, _⟩ => by rw [bind_of_error hr] at h; cases h) (nomatch ·)

theorem take_readString (bs : Bytes) :
    Decode.readString.take bs = (takeBytes 4 bs).bind fun (klen, r) => takeBytes (ofBytesBE klen) r := by
  have h4 : (4 : UInt32).toNat = 4 := rfl
  rw [Decode.readString, Decode.take_bind]
  simp only [Decode.readUint32, Decode.take, h4]
  rcases h : takeBytes 4 bs with _ | ⟨klen, r⟩
  · rfl
  · have hlen : klen.length = 4 := by
      obtain ⟨h4, hk, -⟩ := takeBytes_eq_some.mp h
      rw [← hk, List.length_take, Nat.min_eq_left h4]
    have hn : (UInt32.ofNat (ofBytesBE klen)).toNat = ofBytesBE klen :=
      UInt32.toNat_ofNat_of_lt (by have := ofBytesBE_lt klen; rw [hlen] at this; exact this)
    simp only [Option.some_bind, hn, Prod.mk.eta, Option.bind_some]

theorem take_readUint8 (bs : Bytes) :
    Decode.readUint8.take bs = (takeBytes 1 bs).map fun (x, r) => (x.headD 0, r) := by
  show (takeBytes 1 bs).bind _ = _
  cases takeBytes 1 bs <;> rfl

theorem take_readUint64 (bs : Bytes) :
    Decode.readUint64.take bs = (takeBytes 8 bs).map fun (x, r) => (UInt64.ofNat (ofBytesBE x), r) := by
  show (takeBytes 8 bs).bind _ = _
  cases takeBytes 8 bs <;> rfl

/-- The byte-level parser is the model's `parseRecord`. -/
theorem take_parseRecord (record : Bytes) :
    (Decode.parseRecord.take record).map Prod.fst = parseRecord record := by
  simp only [Decode.parseRecord, Decode.take_bind, take_readString, take_readUint8, take_readUint64,
    Decode.take_pure, Option.map_bind, Option.bind_map, Option.map_some', Option.bind_assoc,
    Option.some_bind, Function.comp_def]
  rfl

/-- The record parser's run returns `e` exactly when `parseRecord` does. -/
theorem run_parseRecord_ok (record : Bytes) (e : WALEntry) :
    (∃ b', Decode.parseRecord.run (ofData record) = .ok e b') ↔ parseRecord record = some e := by
  rw [← take_parseRecord, Option.map_eq_some']
  constructor
  · rintro ⟨b', h⟩
    exact ⟨(e, b'.unread), (readsAt_run_iff _).mp ⟨b', h, rfl⟩, rfl⟩
  · rintro ⟨⟨a, r⟩, h, rfl⟩
    obtain ⟨b', h', -⟩ := (readsAt_run_iff Decode.parseRecord (b := ofData record)).mpr h
    exact ⟨b', h'⟩

/-! ## 4. In bounds -/

/-- Every decoder the handlers run, and the record parser of `Replay`, run
as the source runs them on a buffer of any size a vector can have and from
any cursor: each copy stays inside the buffer, each check decides as it
would without wrapping, and the cursor ends where the model's reader leaves
it, inside the buffer. The record parser's result is `parseRecord`'s. -/
theorem decoders_stay_in_bounds (b : ByteBuffer) (hb : b.size < 2 ^ 63) (record : Bytes)
    (hr : record.length < 2 ^ 63) :
    Decode.readUint8.exec b = some (ByteBuffer.readUint8 b) ∧
    Decode.readUint16.exec b = some (ByteBuffer.readUint16 b) ∧
    Decode.readUint32.exec b = some (ByteBuffer.readUint32 b) ∧
    Decode.readUint64.exec b = some (ByteBuffer.readUint64 b) ∧
    Decode.readString.exec b = some (ByteBuffer.readString b) ∧
    Decode.readBool.exec b = some (ByteBuffer.readBool b) ∧
    Decode.readPut.exec b = some (readPut b) ∧
    Decode.readInternalPut.exec b = some (readInternalPut b) ∧
    Decode.readInternalDelete.exec b = some (readInternalDelete b) ∧
    Decode.readNodeInfo.exec b = some (readNodeInfo b) ∧
    ∃ res, Decode.parseRecord.exec (ofData record) = some res ∧
      ∀ e, (∃ b', res = .ok e b') ↔ parseRecord record = some e := by
  refine ⟨?_, ?_, ?_, ?_, ?_, ?_, ?_, ?_, ?_, ?_, _, Decode.exec_eq_run _ _ hr,
    run_parseRecord_ok record⟩ <;>
  simp only [Decode.exec_eq_run _ _ hb, run_readUint8, run_readUint16, run_readUint32,
    run_readUint64, run_readString, run_readBool, run_readPut, run_readInternalPut,
    run_readInternalDelete, run_readNodeInfo]

/-- A `PUT` whose key length promises five bytes and which carries one. -/
def truncatedPut : Bytes := [OpType.put.code, 0, 0, 0, 5, 0x61]

theorem truncated_put_decodes_in_bounds :
    ((ofData truncatedPut).advance 1).size < 2 ^ 63 ∧
      (encodeRecord goodPut.op goodPut.key goodPut.value goodPut.timestamp).length < 2 ^ 63 ∧
      Decode.readPut.exec ((ofData truncatedPut).advance 1) =
        some (readPut ((ofData truncatedPut).advance 1)) :=
  ⟨by decide, by decide, (decoders_stay_in_bounds _ (by decide)
    (encodeRecord goodPut.op goodPut.key goodPut.value goodPut.timestamp) (by decide)).2.2.2.2.2.2.1⟩

/-! ## 5. Malformed requests -/

/-- A handler that, when it throws, throws `underflow` and leaves the node
as it found it. -/
def ThrowsClean {α : Type} (m : Handler α) : Prop :=
  ∀ x e x', m x = .error e x' → e = underflow ∧ x'.node = x.node

/-- A handler that never throws. -/
def NoThrow {α : Type} (m : Handler α) : Prop := ∀ x e x', m x ≠ .error e x'

theorem noThrow_pure {α : Type} (a : α) : NoThrow (pure a : Handler α) := fun _ _ _ h => by cases h

theorem noThrow_update {α : Type} (f : Node → α × Node) : NoThrow (update f) :=
  fun _ _ _ h => by cases h

theorem NoThrow.bind {α β : Type} {m : Handler α} {f : α → Handler β} (hm : NoThrow m)
    (hf : ∀ a, NoThrow (f a)) : NoThrow (m >>= f) := by
  intro x e x' h
  rcases hx : m x with ⟨a, x₁⟩ | ⟨e₁, x₁⟩
  · rw [bind_of_ok hx] at h; exact hf a x₁ e x' h
  · exact hm x e₁ x₁ hx

theorem NoThrow.throwsClean {α : Type} {m : Handler α} (hm : NoThrow m) : ThrowsClean m :=
  fun x e x' h => absurd h (hm x e x')

/-- A handler that reads a decoder's fields and then does what cannot throw:
it throws only from the read, before any change to the node. -/
theorem throwsClean_read_bind {α β : Type} {r : Reader α} (d : Decode α) (hd : d.run = r)
    {f : α → Handler β} (hf : ∀ a, NoThrow (f a)) : ThrowsClean (read r >>= f) := by
  subst hd
  intro x e x' h
  rcases hr : d.run x.request with ⟨a, b⟩ | ⟨e₁, b⟩
  · rw [bind_of_ok (read_of_ok hr)] at h; exact absurd h (hf a _ e x')
  · rw [bind_of_error (read_of_error hr)] at h
    cases h
    exact ⟨Decode.run_error d hr, rfl⟩

theorem ThrowsClean.ite {α : Type} {c : Prop} [Decidable c] {m m' : Handler α}
    (hm : ThrowsClean m) (hm' : ThrowsClean m') : ThrowsClean (if c then m else m') := by
  split
  exacts [hm, hm']

/-- Every handler but `HandleGossip` reads its whole request before it
changes the node. -/
theorem throwsClean_dispatch (repl : Replication) {op : UInt8} (hop : op ≠ OpType.gossip.code) :
    ThrowsClean (dispatch repl op) := by
  unfold dispatch
  rw [if_neg hop]
  refine .ite ?put (.ite ?get (.ite ?delete (.ite ?internalPut (.ite ?internalGet
    (.ite ?internalDelete (.ite ?clusterInfo ?unknown))))))
  case put =>
    exact throwsClean_read_bind _ run_readPut fun ⟨_, _⟩ => (noThrow_update _).bind fun _ => noThrow_pure _
  case get | delete | internalGet =>
    exact throwsClean_read_bind _ run_readString fun _ => (noThrow_update _).bind fun _ => noThrow_pure _
  case internalPut =>
    exact throwsClean_read_bind _ run_readInternalPut
      fun ⟨_, _, _, _⟩ => (noThrow_update _).bind fun _ => noThrow_pure _
  case internalDelete =>
    exact throwsClean_read_bind _ run_readInternalDelete
      fun ⟨_, _⟩ => (noThrow_update _).bind fun _ => noThrow_pure _
  case clusterInfo =>
    exact ((noThrow_update _).bind fun _ => (noThrow_update _).bind fun _ => noThrow_pure _).throwsClean
  case unknown => exact (noThrow_pure _).throwsClean

/-- `as` are what successive runs of `r` read from `b`, the last one
leaving `b'`. -/
def ReadsAll {α : Type} (r : Reader α) : ByteBuffer → List α → ByteBuffer → Prop
  | b, [], b' => b' = b
  | b, a :: as, b' => ∃ b₁, r b = .ok a b₁ ∧ ReadsAll r b₁ as b'

theorem update_eq {α : Type} (f : Node → α × Node) (x : Exchange) :
    update f x = .ok (f x.node).1 { x with node := (f x.node).2 } := rfl

/-- When the entry loop of `HandleGossipMessage` throws, it has merged the
entries it read in full, fewer than it was asked for, and changed nothing
else. -/
theorem gossipLoop_of_error (n : Nat) : ∀ {x x' : Exchange} {e : String},
    gossipLoop n x = .error e x' → e = underflow ∧ ∃ infos b, ReadsAll readNodeInfo x.request infos b ∧
      infos.length < n ∧ x'.node = { x.node with cluster := x.node.cluster.handleGossipEntries infos } := by
  induction n with
  | zero => intro _ _ _ h; cases h
  | succ n ih =>
    intro x x' e h
    rw [gossipLoop] at h
    rcases hr : readNodeInfo x.request with ⟨info, b⟩ | ⟨e₁, b⟩
    · rw [bind_of_ok (read_of_ok hr), bind_of_ok (update_eq _ _)] at h
      obtain ⟨he, infos, b', hall, hlen, hnode⟩ := ih h
      exact ⟨he, info :: infos, b', ⟨b, hr, hall⟩, Nat.succ_lt_succ hlen, hnode⟩
    · rw [bind_of_error (read_of_error hr)] at h
      cases h
      exact ⟨Decode.run_error _ (run_readNodeInfo ▸ hr), [], _, rfl, Nat.succ_pos n, rfl⟩

/-- When `HandleGossip` throws, the node is the one before with the entries
read in full merged: none if the count itself was cut off. -/
theorem handleGossip_of_error {x x' : Exchange} {e : String} (h : handleGossip x = .error e x') :
    e = underflow ∧ ∃ infos, x'.node = { x.node with cluster := x.node.cluster.handleGossipEntries infos } ∧
      (infos = [] ∨ ∃ (count : UInt32) (b₁ b₂ : ByteBuffer), ByteBuffer.readUint32 x.request = .ok count b₁ ∧
        ReadsAll readNodeInfo b₁ infos b₂ ∧ infos.length < count.toNat) := by
  rcases hm : handleGossipMessage x with ⟨_, x₁⟩ | ⟨e₁, x₁⟩
  · rw [handleGossip, bind_of_ok hm] at h
    exact absurd h (((noThrow_update _).bind fun _ => noThrow_pure _) x₁ e x')
  rw [handleGossip, bind_of_error hm] at h
  cases h
  rcases hc : ByteBuffer.readUint32 x.request with ⟨count, b₁⟩ | ⟨e₂, b₁⟩
  · rw [handleGossipMessage, bind_of_ok (read_of_ok hc)] at hm
    obtain ⟨he, infos, b₂, hall, hlen, hnode⟩ := gossipLoop_of_error _ hm
    exact ⟨he, infos, hnode, .inr ⟨count, b₁, b₂, rfl, hall, hlen⟩⟩
  · rw [handleGossipMessage, bind_of_error (read_of_error hc)] at hm
    cases hm
    exact ⟨Decode.run_error _ (run_readUint32 ▸ hc), [], rfl, .inl rfl⟩

/-- A read op byte is the first unread byte, and the cursor moves past it. -/
theorem readUint8_of_ok {b b' : ByteBuffer} {v : UInt8} (h : ByteBuffer.readUint8 b = .ok v b') :
    b.unread.head? = some v ∧ b' = b.advance 1 := by
  rcases hr : readBytes 1 b with ⟨bs, b₁⟩ | ⟨e, b₁⟩
  · rw [ByteBuffer.readUint8, bind_of_ok hr] at h
    cases h
    obtain ⟨rfl, rfl, hle⟩ := Decode.readBytes_of_ok hr
    obtain ⟨a, t, ht⟩ := List.exists_cons_of_length_pos hle
    simp [ht]
  · rw [ByteBuffer.readUint8, bind_of_error hr] at h
    cases h

/-- A request on which a read of `HandleRequest`, or of the handler it
selects, throws is answered `ERROR("Internal error: ByteBuffer: underflow")`.
The node is then as it was, but for the members and ring after a `GOSSIP`
request: `AddMember` has run, with its join callback, on the entries read in
full before the read that threw, fewer than the count the payload gave. -/
theorem malformed_request_effects (repl : Replication) (node : Node) (request : ByteBuffer)
    (e : String) (x : Exchange)
    (hthrow : (do dispatch repl (← read ByteBuffer.readUint8) : Handler ByteBuffer) ⟨node, request⟩ = .error e x) :
    node.handleRequest repl request = (internalError underflow, x.node) ∧
    (request.unread.head? ≠ some OpType.gossip.code → x.node = node) ∧
    ∃ infos : List NodeInfo, x.node = { node with cluster := node.cluster.handleGossipEntries infos } ∧
      (infos = [] ∨ ∃ (count : UInt32) (b₁ b₂ : ByteBuffer),
        request.unread.head? = some OpType.gossip.code ∧
        ByteBuffer.readUint32 (request.advance 1) = .ok count b₁ ∧
        ReadsAll readNodeInfo b₁ infos b₂ ∧ infos.length < count.toNat) := by
  have hresp : node.handleRequest repl request = (internalError e, x.node) := by
    simp only [Node.handleRequest, handleRequest, tryCatch_of_error hthrow]; rfl
  rcases hop : ByteBuffer.readUint8 request with ⟨op, b₁⟩ | ⟨e₁, b₁⟩
  · obtain ⟨hhead, rfl⟩ := readUint8_of_ok hop
    rw [bind_of_ok (read_of_ok hop)] at hthrow
    by_cases hg : op = OpType.gossip.code
    · subst hg
      obtain ⟨rfl, infos, hnode, hinfos⟩ := handleGossip_of_error hthrow
      refine ⟨hresp, fun h => absurd hhead h, infos, hnode, ?_⟩
      rcases hinfos with hnil | ⟨count, b₁, b₂, hc, hall, hlen⟩
      · exact .inl hnil
      · exact .inr ⟨count, b₁, b₂, hhead, hc, hall, hlen⟩
    · obtain ⟨rfl, hnode⟩ := throwsClean_dispatch repl hg _ _ _ hthrow
      exact ⟨hresp, fun _ => hnode, [], hnode, .inl rfl⟩
  · rw [bind_of_error (read_of_error hop)] at hthrow
    cases hthrow
    obtain rfl := Decode.run_error _ (run_readUint8 ▸ hop)
    exact ⟨hresp, fun _ => rfl, [], rfl, .inl rfl⟩

/-- The seed node `n1` with an empty store, alone in its view. -/
def seedCoordinator : Node := ⟨Bytes.ofString "n1", StorageEngine.ofFile [], WiredNode.start seedNode 0⟩

theorem truncated_put_keeps_node :
    seedCoordinator.handleRequest okReplication (ofData truncatedPut) =
      (internalError underflow, seedCoordinator) :=
  (malformed_request_effects okReplication seedCoordinator (ofData truncatedPut) underflow
    ⟨seedCoordinator, ⟨truncatedPut, 5, by decide⟩⟩ rfl).1

/-- A `GOSSIP` request whose count promises two entries and which carries
one, about `n2`. -/
def truncatedGossip : Bytes :=
  OpType.gossip.code :: (toBytesBE 4 2 ++ encodeGossipEntry (peerEntry true 100))

/-- The second entry of `truncatedGossip` is cut off, so the handler throws
and the request is answered with an error; by then the first entry has been
merged, and `n2`, unknown before, is a member and on the ring. -/
theorem truncated_gossip_merges :
    ∃ x : Exchange, (do dispatch okReplication (← read ByteBuffer.readUint8) : Handler ByteBuffer)
        ⟨seedCoordinator, ofData truncatedGossip⟩ = .error underflow x ∧
      seedCoordinator.handleRequest okReplication (ofData truncatedGossip) =
        (internalError underflow, x.node) ∧
      x.node = { seedCoordinator with
        cluster := seedCoordinator.cluster.handleGossipEntries [peerEntry true 100] } ∧
      Bytes.ofString "n2" ∉ seedCoordinator.cluster.members ∧
      Bytes.ofString "n2" ∈ x.node.cluster.members ∧
      Bytes.ofString "n2" ∈ x.node.cluster.ring.physicalNodes := by
  obtain ⟨b₁, h₁, hu₁⟩ := ByteBuffer.readUint8_at (show (ofData truncatedGossip).unread =
    OpType.gossip.code :: (toBytesBE 4 (2 : UInt32).toNat ++ (encodeGossipEntry (peerEntry true 100) ++ []))
    from rfl)
  obtain ⟨b₂, h₂, hu₂⟩ := ByteBuffer.readUint32_at hu₁
  obtain ⟨b₃, h₃, hu₃⟩ := readNodeInfo_at (by decide) (by decide) [] hu₂
  have hcut : readNodeInfo b₃ = .error underflow b₃ :=
    bind_of_error (bind_of_error (bind_of_error (ByteBuffer.readBytes_short (by rw [hu₃]; decide))))
  have hloop : handleGossipMessage ⟨seedCoordinator, b₁⟩ = .error underflow
      ⟨{ seedCoordinator with
        cluster := seedCoordinator.cluster.handleGossipEntries [peerEntry true 100] }, b₃⟩ := by
    rw [handleGossipMessage, bind_of_ok (read_of_ok h₂)]
    show gossipLoop 2 _ = _
    rw [gossipLoop, bind_of_ok (read_of_ok h₃), bind_of_ok (update_eq _ _), gossipLoop,
      bind_of_error (read_of_error hcut)]
  have hrun : (do dispatch okReplication (← read ByteBuffer.readUint8) : Handler ByteBuffer)
      ⟨seedCoordinator, ofData truncatedGossip⟩ = .error underflow ⟨{ seedCoordinator with
        cluster := seedCoordinator.cluster.handleGossipEntries [peerEntry true 100] }, b₃⟩ := by
    rw [bind_of_ok (read_of_ok h₁)]
    exact bind_of_error hloop
  refine ⟨_, hrun, by simp only [Node.handleRequest, handleRequest, tryCatch_of_error hrun]; rfl, rfl,
    by decide,
    show Bytes.ofString "n2" ∈ (seedCoordinator.cluster.handleGossipEntries [peerEntry true 100]).members
      by decide,
    show Bytes.ofString "n2" ∈ (seedCoordinator.cluster.handleGossipEntries [peerEntry true 100]).ring.physicalNodes
      by decide⟩

end KvStore.Server
