/-
KvStore.Cluster.Murmur — `MurmurHash3_x86_32` of `common/murmurhash3.cpp`
and the `Hash` wrapper of `murmurhash3.h`, on `UInt32` arithmetic as the
source computes it.

The body reads four-byte blocks with `memcpy`, that is little-endian on the
x86 targets the source names; the tail switch with its fall-throughs is one
match on the zero to three bytes left. `len` is `static_cast<int>` of the
size and enters the finalisation as `static_cast<uint32_t>(len)`, the size
modulo `2 ^ 32`; the model takes the block count from the size itself,
which is what the source computes for every key below 2 GiB (a frame is
capped at 64 MiB).

The model agrees with the published test vectors: `""` hashes to `0`,
`"hello"` to `0x248bfa47`.
-/
import KvStore.Types

namespace KvStore.Cluster

/-- `rotl32`. -/
def rotl32 (x r : UInt32) : UInt32 := (x <<< r) ||| (x >>> (32 - r))

/-- `fmix32`, the finalisation mix. -/
def fmix32 (h : UInt32) : UInt32 :=
  let h := h ^^^ (h >>> 16)
  let h := h * 0x85ebca6b
  let h := h ^^^ (h >>> 13)
  let h := h * 0xc2b2ae35
  h ^^^ (h >>> 16)

/-- `k1 *= c1; k1 = rotl32(k1, 15); k1 *= c2;`, shared by the body and the
tail. -/
def scrambleK1 (k1 : UInt32) : UInt32 := rotl32 (k1 * 0xcc9e2d51) 15 * 0x1b873593

/-- One body block: mix the scrambled block into `h1`. -/
def mixBlock (h1 k1 : UInt32) : UInt32 := rotl32 (h1 ^^^ scrambleK1 k1) 13 * 5 + 0xe6546b64

/-- The body loop over whole four-byte blocks; returns `h1` and the tail. -/
def hashBody (h1 : UInt32) : Bytes → UInt32 × Bytes
  | b₀ :: b₁ :: b₂ :: b₃ :: rest =>
    hashBody (mixBlock h1 (b₀.toUInt32 ||| b₁.toUInt32 <<< 8 ||| b₂.toUInt32 <<< 16 |||
      b₃.toUInt32 <<< 24)) rest
  | tail => (h1, tail)

/-- The tail switch on `len & 3`, with its fall-throughs. -/
def hashTail (h1 : UInt32) : Bytes → UInt32
  | [t₀, t₁, t₂] => h1 ^^^ scrambleK1 (t₂.toUInt32 <<< 16 ^^^ t₁.toUInt32 <<< 8 ^^^ t₀.toUInt32)
  | [t₀, t₁] => h1 ^^^ scrambleK1 (t₁.toUInt32 <<< 8 ^^^ t₀.toUInt32)
  | [t₀] => h1 ^^^ scrambleK1 t₀.toUInt32
  | _ => h1

/-- `MurmurHash3_x86_32(key, len, seed)`. -/
def murmurHash3X86_32 (key : Bytes) (seed : UInt32) : UInt32 :=
  let (h1, tail) := hashBody seed key
  fmix32 (hashTail h1 tail ^^^ UInt32.ofNat key.length)

/-- `Hash(key)`: seed `0`. -/
def hash (key : Bytes) : UInt32 := murmurHash3X86_32 key 0

example : hash [] = 0 := by decide

example : hash (Bytes.ofString "hello") = 0x248bfa47 := by decide

end KvStore.Cluster
