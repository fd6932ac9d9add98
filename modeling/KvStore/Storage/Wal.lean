/-
KvStore.Storage.Wal — `WriteAheadLog` of `storage/wal.cpp`: the CRC, the
blob `Append` writes, and `Replay`, the loop that reads records back.

The log is its file's contents. `Append` builds
`[4B entry_size][record_bytes][4B crc]` and hands it to one `write(2)`;
the engine's model takes that write to complete (`WriteAheadLog.append`).

`Replay` is modelled as the source is written. `nextEntry` is one turn of
its `while (true)`: read the size, the record and the CRC, compare the
CRC, parse the fields; it returns the entry and the rest of the file, or
`none` at every `break`. `replay` repeats it. A turn that yields an entry
consumes at least eight bytes (`nextEntry_length`), which is `replay`'s
termination argument.

## How the round trip goes

`nextEntry_encodeEntry` is the whole content: one turn over the blob of
`e`, followed by anything, returns `e` and exactly the following bytes.
It needs the record to fit its `uint32_t` size field (`WALEntry.Fits`),
since `Append` writes `static_cast<uint32_t>(record.size())`.
`nextEntry_append` says a turn that succeeds on a file succeeds the same
way on any extension of it; with the first lemma it rules out a turn over
a proper prefix of a blob, which is how a torn tail is dropped.
-/
import KvStore.Types

namespace KvStore.Storage

/-! ## 1. CRC-32 -/

/-- One entry of `crc32_table`: the eight rounds of `InitCRC32Table`,
`c = (c >> 1) ^ ((c & 1) ? 0xEDB88320 : 0)`. -/
def crcTableEntry (i : UInt32) : UInt32 :=
  (List.range 8).foldl (fun c _ => (c >>> 1) ^^^ (if c &&& 1 ≠ 0 then 0xEDB88320 else 0)) i

/-- `crc32_table`, as `InitCRC32Table` fills it. -/
def crc32Table : List UInt32 := (List.range 256).map fun i => crcTableEntry (UInt32.ofNat i)

/-- `WriteAheadLog::ComputeCRC`: start from `0xFFFFFFFF`, one table lookup
per byte, final xor. -/
def computeCRC (data : Bytes) : UInt32 :=
  data.foldl (fun (crc : UInt32) (b : UInt8) =>
      crc32Table.getD ((crc ^^^ b.toUInt32) &&& 0xFF).toNat 0 ^^^ (crc >>> 8))
    0xFFFFFFFF ^^^ 0xFFFFFFFF

/-! ## 2. Records and `Append` -/

/-- `WALEntry`: one logged operation. -/
structure WALEntry where
  op : OpType
  timestamp : Timestamp
  key : Bytes
  value : Bytes
  deriving DecidableEq, Repr

/-- The record of `e` fits its 32-bit size field: `1 + 8 + 4 + |key| + 4 + |value|`
is below `2 ^ 32`. -/
def WALEntry.Fits (e : WALEntry) : Prop := 17 + e.key.length + e.value.length < 2 ^ 32

instance (e : WALEntry) : Decidable e.Fits := inferInstanceAs (Decidable (_ < _))

/-- `record_bytes` as `Append` builds them: `op | ts | klen | key | vlen | value`,
each length the `uint32_t` cast of a size. -/
def encodeRecord (op : OpType) (key value : Bytes) (ts : Timestamp) : Bytes :=
  op.code :: (toBytesBE 8 ts.toNat ++ (toBytesBE 4 key.length ++ key ++
    (toBytesBE 4 value.length ++ value)))

/-- The blob `WriteAheadLog::Append` writes: `[4B entry_size][record][4B crc]`. -/
def appendBlob (op : OpType) (key value : Bytes) (ts : Timestamp) : Bytes :=
  let record := encodeRecord op key value ts
  toBytesBE 4 record.length ++ (record ++ toBytesBE 4 (computeCRC record).toNat)

/-- The blob of one entry. -/
def encodeEntry (e : WALEntry) : Bytes := appendBlob e.op e.key e.value e.timestamp

/-- A log file holding the blobs of `S`, in order. -/
def encodeLog (S : List WALEntry) : Bytes := (S.map encodeEntry).flatten

/-- `WriteAheadLog`: the contents of its file. -/
structure WriteAheadLog where
  file : Bytes
  deriving DecidableEq, Repr

/-- `WriteAheadLog::Append`, with the `write(2)` complete. -/
def WriteAheadLog.append (w : WriteAheadLog) (op : OpType) (key value : Bytes)
    (ts : Timestamp) : WriteAheadLog :=
  ⟨w.file ++ appendBlob op key value ts⟩

@[simp] theorem length_encodeRecord (op : OpType) (key value : Bytes) (ts : Timestamp) :
    (encodeRecord op key value ts).length = 17 + key.length + value.length := by
  simp [encodeRecord]; omega

@[simp] theorem length_encodeEntry (e : WALEntry) :
    (encodeEntry e).length = 25 + e.key.length + e.value.length := by
  simp [encodeEntry, appendBlob]; omega

@[simp] theorem encodeLog_nil : encodeLog [] = [] := rfl

@[simp] theorem encodeLog_cons (e : WALEntry) (S : List WALEntry) :
    encodeLog (e :: S) = encodeEntry e ++ encodeLog S := rfl

theorem encodeLog_append (S T : List WALEntry) :
    encodeLog (S ++ T) = encodeLog S ++ encodeLog T := by
  simp [encodeLog]

/-! ## 3. `Replay` -/

/-- `ReadBytes(buf, n)`: the next `n` bytes and the rest, or `none` when fewer
remain. The field parser's `if (pos + n > record.size()) break;` is the same
test on the record. -/
def takeBytes (n : Nat) (bs : Bytes) : Option (Bytes × Bytes) :=
  if n ≤ bs.length then some (bs.take n, bs.drop n) else none

/-- The field parser of `Replay`: op byte, 8-byte timestamp, 4-byte key
length and key, 4-byte value length and value. Bytes after the value are
ignored, as in the source. -/
def parseRecord (record : Bytes) : Option WALEntry := do
  let (op, r) ← takeBytes 1 record
  let (ts, r) ← takeBytes 8 r
  let (klen, r) ← takeBytes 4 r
  let (key, r) ← takeBytes (ofBytesBE klen) r
  let (vlen, r) ← takeBytes 4 r
  let (value, _) ← takeBytes (ofBytesBE vlen) r
  pure ⟨⟨op.headD 0⟩, UInt64.ofNat (ofBytesBE ts), key, value⟩

/-- One turn of `Replay`'s loop: size, record, CRC, check, parse. `none` is
every `break` (clean end of file, truncated record or CRC, CRC mismatch,
field overflow). -/
def nextEntry (file : Bytes) : Option (WALEntry × Bytes) := do
  let (size, r) ← takeBytes 4 file
  let (record, r) ← takeBytes (ofBytesBE size) r
  let (crc, r) ← takeBytes 4 r
  if computeCRC record = UInt32.ofNat (ofBytesBE crc) then
    let e ← parseRecord record
    pure (e, r)
  else none

theorem takeBytes_eq_some {n : Nat} {bs a r : Bytes} :
    takeBytes n bs = some (a, r) ↔ n ≤ bs.length ∧ bs.take n = a ∧ bs.drop n = r := by
  unfold takeBytes; split <;> simp [*]

theorem nextEntry_length {file rest : Bytes} {e : WALEntry}
    (h : nextEntry file = some (e, rest)) : rest.length + 8 ≤ file.length := by
  simp only [nextEntry, Option.bind_eq_bind, Option.bind_eq_some, Prod.exists] at h
  obtain ⟨sz, r₁, h₁, rec, r₂, h₂, crc, r₃, h₃, h₄⟩ := h
  rw [takeBytes_eq_some] at h₁ h₂ h₃
  split at h₄
  · simp only [Option.bind_eq_some, Option.pure_def, Option.some.injEq, Prod.mk.injEq] at h₄
    obtain ⟨_, _, _, rfl⟩ := h₄
    obtain ⟨_, _, rfl⟩ := h₁
    obtain ⟨_, _, rfl⟩ := h₂
    obtain ⟨_, _, rfl⟩ := h₃
    simp only [List.length_drop] at *
    omega
  · cases h₄

/-- `WriteAheadLog::Replay`: the entries of the file's longest run of good
records from its start. -/
def replay (file : Bytes) : List WALEntry :=
  match _h : nextEntry file with
  | none => []
  | some (e, rest) => e :: replay rest
termination_by file.length
decreasing_by have := nextEntry_length _h; omega

theorem replay_of_none {file : Bytes} (h : nextEntry file = none) : replay file = [] := by
  rw [replay]; split <;> simp_all

theorem replay_of_some {file rest : Bytes} {e : WALEntry}
    (h : nextEntry file = some (e, rest)) : replay file = e :: replay rest := by
  rw [replay]; split <;> simp_all

/-- `WriteAheadLog::Replay` on the log. -/
def WriteAheadLog.replay (w : WriteAheadLog) : List WALEntry := Storage.replay w.file

/-! ## 4. The round trip -/

theorem takeBytes_append_of_length {n : Nat} {a : Bytes} (b : Bytes) (h : a.length = n) :
    takeBytes n (a ++ b) = some (a, b) := by
  subst h; simp [takeBytes]

theorem takeBytes_self (bs : Bytes) : takeBytes bs.length bs = some (bs, []) := by
  simp [takeBytes]

/-- A read that succeeds on a file succeeds the same way on any extension. -/
theorem takeBytes_append {n : Nat} {bs a r : Bytes} (t : Bytes)
    (h : takeBytes n bs = some (a, r)) : takeBytes n (bs ++ t) = some (a, r ++ t) := by
  rw [takeBytes_eq_some] at h ⊢
  obtain ⟨hn, rfl, rfl⟩ := h
  refine ⟨by simp; omega, List.take_append_of_le_length hn, List.drop_append_of_le_length hn⟩

theorem parseRecord_encodeRecord (op : OpType) (key value : Bytes) (ts : Timestamp)
    (hk : key.length < 2 ^ 32) (hv : value.length < 2 ^ 32) :
    parseRecord (encodeRecord op key value ts) = some ⟨op, ts, key, value⟩ := by
  have h₁ : [op.code].length = 1 := rfl
  rw [encodeRecord, ← List.singleton_append]
  simp only [parseRecord, List.append_assoc, Option.bind_eq_bind, Option.some_bind,
    takeBytes_append_of_length _ h₁, takeBytes_append_of_length _ (length_toBytesBE _ _),
    takeBytes_append_of_length _ rfl, takeBytes_self, ofBytesBE_toBytesBE,
    Nat.mod_eq_of_lt (show key.length < 256 ^ 4 from hk),
    Nat.mod_eq_of_lt (show value.length < 256 ^ 4 from hv),
    Nat.mod_eq_of_lt (show ts.toNat < 256 ^ 8 from ts.toNat_lt_size)]
  simp

/-- One turn over the blob of a fitting entry returns the entry and exactly
the bytes after the blob. -/
theorem nextEntry_encodeEntry (e : WALEntry) (g : Bytes) (h : e.Fits) :
    nextEntry (encodeEntry e ++ g) = some (e, g) := by
  obtain ⟨op, ts, key, value⟩ := e
  simp only [WALEntry.Fits] at h
  have hlen : (encodeRecord op key value ts).length < 256 ^ 4 := by simp; omega
  have hcrc : (computeCRC (encodeRecord op key value ts)).toNat < 256 ^ 4 :=
    (computeCRC _).toNat_lt_size
  simp only [encodeEntry, appendBlob, nextEntry, List.append_assoc, Option.bind_eq_bind,
    Option.some_bind, takeBytes_append_of_length _ (length_toBytesBE _ _), ofBytesBE_toBytesBE,
    Nat.mod_eq_of_lt hlen, takeBytes_append_of_length _ rfl, Nat.mod_eq_of_lt hcrc,
    uInt32_ofNat_toNat, if_true,
    parseRecord_encodeRecord op key value ts (by omega) (by omega)]
  rfl

/-- A turn that succeeds on a file succeeds the same way on any extension. -/
theorem nextEntry_append {file rest : Bytes} {e : WALEntry} (t : Bytes)
    (h : nextEntry file = some (e, rest)) : nextEntry (file ++ t) = some (e, rest ++ t) := by
  simp only [nextEntry, Option.bind_eq_bind, Option.bind_eq_some, Prod.exists] at h ⊢
  obtain ⟨sz, r₁, h₁, rec, r₂, h₂, crc, r₃, h₃, h₄⟩ := h
  refine ⟨sz, r₁ ++ t, takeBytes_append t h₁, rec, r₂ ++ t, takeBytes_append t h₂,
    crc, r₃ ++ t, takeBytes_append t h₃, ?_⟩
  split at h₄
  · cases hp : parseRecord rec <;> simp_all
  · cases h₄

/-- No turn completes on a proper prefix of a blob: a torn record is dropped. -/
theorem nextEntry_eq_none_of_torn {e : WALEntry} {p : Bytes} (he : e.Fits)
    (hp : p <+: encodeEntry e) (hne : p ≠ encodeEntry e) : nextEntry p = none := by
  obtain ⟨t, ht⟩ := hp
  cases h : nextEntry p with
  | none => rfl
  | some x =>
    have h₁ := nextEntry_append t h
    rw [ht, ← List.append_nil (encodeEntry e), nextEntry_encodeEntry e [] he] at h₁
    have : t = [] := List.append_eq_nil.mp (Prod.ext_iff.mp (Option.some.inj h₁)).2.symm |>.2
    exact absurd (by simpa [this] using ht) hne

/-- Replay reads the blobs of fitting entries back one by one, then goes on
with whatever follows them. -/
theorem replay_encodeLog_append (S : List WALEntry) (g : Bytes) (hS : ∀ x ∈ S, x.Fits) :
    replay (encodeLog S ++ g) = S ++ replay g := by
  induction S with
  | nil => rfl
  | cons e S ih =>
    rw [encodeLog_cons, List.append_assoc,
      replay_of_some (nextEntry_encodeEntry e _ (hS e (List.mem_cons_self _ _))),
      ih fun x hx => hS x (List.mem_cons_of_mem _ hx), List.cons_append]

theorem replay_encodeLog (S : List WALEntry) (hS : ∀ x ∈ S, x.Fits) :
    replay (encodeLog S) = S := by
  simpa [replay_of_none (show nextEntry [] = none from rfl)] using
    replay_encodeLog_append S [] hS

/-- **Encode/replay homomorphism.** Replay over the blobs of `S` followed by
any bytes `g` returns `S` followed by the replay of `g`; replay over a
proper prefix of one blob returns nothing. -/
theorem replay_encode_homomorphism (S : List WALEntry) (g : Bytes) (e : WALEntry) (p : Bytes) :
    ((∀ x ∈ S, x.Fits) → replay (encodeLog S ++ g) = S ++ replay g) ∧
    (e.Fits → p <+: encodeEntry e → p ≠ encodeEntry e → replay p = []) :=
  ⟨replay_encodeLog_append S g, fun he hp hne => replay_of_none (nextEntry_eq_none_of_torn he hp hne)⟩

/-- The valid PUT of the spec's corruption scenario. -/
def goodPut : WALEntry := ⟨.put, 100, Bytes.ofString "good", Bytes.ofString "v"⟩

/-- The spec's corruption scenario: one good PUT record followed by the five
bytes `1 2 3 4 5` replays to exactly that PUT, and the empty prefix of its
blob to nothing. -/
theorem replay_goodPut_then_garbage :
    (∀ x ∈ [goodPut], x.Fits) ∧ replay (encodeLog [goodPut] ++ [1, 2, 3, 4, 5]) = [goodPut] ∧
    goodPut.Fits ∧ [] <+: encodeEntry goodPut ∧ [] ≠ encodeEntry goodPut ∧ replay [] = [] := by
  have hS : ∀ x ∈ [goodPut], x.Fits := by decide
  have hg : replay [1, 2, 3, 4, 5] = [] := replay_of_none (by decide)
  have hne : [] ≠ encodeEntry goodPut := fun h => by have := congrArg List.length h; simp at this; omega
  refine ⟨hS, ?_, hS _ (List.mem_singleton_self _), List.nil_prefix, hne,
    (replay_encode_homomorphism [] [] goodPut []).2 (hS _ (List.mem_singleton_self _))
      List.nil_prefix hne⟩
  rw [(replay_encode_homomorphism [goodPut] [1, 2, 3, 4, 5] goodPut []).1 hS, hg, List.append_nil]

end KvStore.Storage
