/-
KvStore.Types — the data model of `common/types.h` and `common/config.h`,
and the big-endian byte codec every on-disk and on-wire integer uses.

`std::string` holds arbitrary bytes: keys, values, node ids and hosts all
arrive from the wire, so every string of the source is `Bytes`, a list of
`UInt8`. `Timestamp` is `uint64_t`, kept as `UInt64`; its order is the
order of `toNat`, and the bridging lemmas of §2 hand every timestamp
comparison to `omega`.

`OpType` and `StatusCode` are `enum class : uint8_t`. Such an enum holds
every byte, named or not (`Replay` keeps whatever op byte it reads through
`static_cast<OpType>`), so each is a structure around its byte, with the
enumerators the modelled code names as constants.

The codec of §3 is the shift-and-mask loop shared by `WriteUint32`,
`WriteUint64` and `WriteAheadLog::Append` (`(v >> 8 i) & 0xFF`, most
significant byte first) and the `(v << 8) | b` loop that reads it back;
`ofBytesBE_toBytesBE` is proved once for `n` bytes and used at 2, 4 and 8.
-/
import Mathlib.Data.Finmap

namespace KvStore

/-! ## 1. Bytes, timestamps, values -/

/-- `std::string` and `std::vector<uint8_t>`: a sequence of bytes. -/
abbrev Bytes := List UInt8

/-- The bytes of a string literal of the source (UTF-8). -/
def Bytes.ofString (s : String) : Bytes := s.toList.flatMap String.utf8EncodeChar

/-- `Timestamp`: milliseconds since the epoch, `uint64_t`. -/
abbrev Timestamp := UInt64

/-- `VersionedValue`: a value tagged with the timestamp that orders it and
the node that first accepted it. -/
structure VersionedValue where
  value : Bytes
  timestamp : Timestamp
  originNode : Bytes
  deriving DecidableEq, Repr

/-- `NodeInfo`: what a node knows about one cluster member. -/
structure NodeInfo where
  nodeId : Bytes
  host : Bytes
  port : UInt16
  isAlive : Bool
  lastHeartbeat : Timestamp
  deriving DecidableEq, Repr

/-- `enum class OpType : uint8_t`, the first byte of every request. -/
structure OpType where
  code : UInt8
  deriving DecidableEq, Repr

namespace OpType

def put : OpType := ⟨1⟩
def get : OpType := ⟨2⟩
def deleteOp : OpType := ⟨3⟩
def internalPut : OpType := ⟨10⟩
def internalGet : OpType := ⟨11⟩
def internalDelete : OpType := ⟨12⟩
def clusterInfo : OpType := ⟨22⟩
def gossip : OpType := ⟨40⟩

end OpType

/-- `enum class StatusCode : uint8_t`, the first byte of every response. -/
structure StatusCode where
  code : UInt8
  deriving DecidableEq, Repr

namespace StatusCode

def ok : StatusCode := ⟨0⟩
def notFound : StatusCode := ⟨1⟩
def error : StatusCode := ⟨2⟩

end StatusCode

/-! The constants of `config.h` that the modelled code reads. -/

namespace Config

/-- `VIRTUAL_NODES_PER_NODE`, the `V` main gives its ring. -/
def virtualNodesPerNode : Int := 150
/-- `MAX_MESSAGE_SIZE`: 64 MiB, the frame cap of `RecvMessage`. -/
def maxMessageSize : Nat := 64 * 1024 * 1024
/-- `FAILURE_TIMEOUT_MS`. -/
def failureTimeoutMs : UInt64 := 5000

end Config

/-! ## 2. The order of timestamps

`UInt64` compares by `toNat`; these three facts are the only way the
development looks inside it. -/

theorem ts_lt_iff {a b : Timestamp} : a < b ↔ a.toNat < b.toNat := Iff.rfl

theorem ts_le_iff {a b : Timestamp} : a ≤ b ↔ a.toNat ≤ b.toNat := Iff.rfl

theorem ts_eq_iff {a b : Timestamp} : a = b ↔ a.toNat = b.toNat :=
  ⟨congrArg _, UInt64.toNat.inj⟩

@[simp] theorem uInt64_ofNat_toNat (t : UInt64) : UInt64.ofNat t.toNat = t := by
  cases t; simp [UInt64.ofNat, UInt64.toNat]

@[simp] theorem uInt32_ofNat_toNat (t : UInt32) : UInt32.ofNat t.toNat = t := by
  cases t; simp [UInt32.ofNat, UInt32.toNat]

@[simp] theorem uInt16_ofNat_toNat (t : UInt16) : UInt16.ofNat t.toNat = t := by
  cases t; simp [UInt16.ofNat, UInt16.toNat]

/-! ## 3. Big-endian integers -/

/-- The `n` big-endian bytes of `x`: its low `8 n` bits, most significant
byte first. -/
def toBytesBE : Nat → Nat → Bytes
  | 0, _ => []
  | n + 1, x => toBytesBE n (x / 256) ++ [UInt8.ofNat x]

/-- Big-endian bytes back to a number: `v = (v << 8) | b` for each byte. -/
def ofBytesBE (bs : Bytes) : Nat := bs.foldl (fun v b => v * 256 + b.toNat) 0

@[simp] theorem length_toBytesBE (n x : Nat) : (toBytesBE n x).length = n := by
  induction n generalizing x with
  | zero => rfl
  | succ n ih => simp [toBytesBE, ih]

theorem ofBytesBE_append_singleton (bs : Bytes) (b : UInt8) :
    ofBytesBE (bs ++ [b]) = ofBytesBE bs * 256 + b.toNat := by
  simp [ofBytesBE, List.foldl_append]

theorem toNat_uInt8_ofNat (x : Nat) : (UInt8.ofNat x).toNat = x % 256 := by
  simp [UInt8.toNat, UInt8.ofNat]

/-- Decoding the `n` bytes of `x` gives `x` modulo `2 ^ (8 n)`. -/
theorem ofBytesBE_toBytesBE (n x : Nat) : ofBytesBE (toBytesBE n x) = x % 256 ^ n := by
  induction n generalizing x with
  | zero => simp [toBytesBE, ofBytesBE, Nat.mod_one]
  | succ n ih =>
    rw [toBytesBE, ofBytesBE_append_singleton, ih, toNat_uInt8_ofNat, Nat.pow_succ',
      Nat.mod_mul, Nat.mul_comm, Nat.add_comm]

theorem ofBytesBE_lt (bs : Bytes) : ofBytesBE bs < 256 ^ bs.length := by
  induction bs using List.reverseRecOn with
  | nil => simp [ofBytesBE]
  | append_singleton bs b ih =>
    have hb : b.toNat < 256 := b.toNat_lt_size
    have := Nat.mul_le_mul_right 256 (Nat.succ_le_of_lt ih)
    rw [ofBytesBE_append_singleton, List.length_append, List.length_singleton, Nat.pow_succ]
    omega

end KvStore
