/-
KvStore.Storage.Crc — what the CRC-32 of `WriteAheadLog::ComputeCRC`
detects, and so where `Replay` stops on a corrupted log.

  §1–§3 The table. `crc32_table` holds eight rounds of `InitCRC32Table`'s
        shift for each octet. A round is linear in exclusive or
        (`crcRound_xor`) and a register whose low bits are clear only moves
        down through it (`crcRounds_high`), so the table step of
        `ComputeCRC` is eight rounds of `crc ^ byte`
        (`toBitVec_crcUpdate`).
  §4    Bit by bit. Eight rounds of `crc ^ byte` are the eight bits of the
        byte fed one round each, least significant first
        (`toBitVec_crcUpdate_bits`), so the CRC of a byte string is its
        bits fed in that order (`toBitVec_foldl_crcUpdate`).
  §5    The CRC is affine: flipping the bits of a mask moves it by the
        register the mask's bits leave when fed from zero
        (`toBitVec_computeCRC_xorBytes`).
  §6    Bursts. Fed from zero, a run of at most 32 bits with one set leaves
        a set bit in the register's top places (`foldl_bitStep_topSet`),
        and a round takes no nonzero register to zero (`crcRound_ne_zero`):
        a burst never leaves the CRC as it was (`computeCRC_burst_ne`).
  §7    `Replay`. A burst in the record bytes of record `i`, or any flip in
        its CRC field, makes that turn break, and the turns before it read
        their records as written (`replay_stops_at_burst`).
  §8    The table is the bitwise CRC-32: a shift of the bit-at-a-time
        algorithm is a round (`toBitVec_crc32Shift`), so a byte's eight
        shifts are the table step and `ComputeCRC` is the reflected CRC-32
        with `0xEDB88320`, `0xFFFFFFFF` and `0xFFFFFFFF`
        (`computeCRC_eq_bitwise`).

The bit order is the CRC's: bit `k` of byte `j` is bit `8 j + k` of the
string (`bitsLSB`). Counted from the most significant bit of each byte, a
span of 31 bits can leave the CRC unchanged (`msb_span_undetected`). A span
that crosses from the record bytes into the CRC field is not covered either:
the CRC field holds the register big-endian, the reverse of the order the
register is fed.
-/
import KvStore.Storage.Wal

namespace KvStore.Storage

/-! ## 1. One round -/

/-- The round of `InitCRC32Table`, `c = (c >> 1) ^ ((c & 1) ? 0xEDB88320 : 0)`,
on bit vectors. -/
def crcRound (c : BitVec 32) : BitVec 32 :=
  (c >>> 1) ^^^ (if c.getLsbD 0 then 0xEDB88320#32 else 0#32)

theorem and_one_ne_zero (c : UInt32) : c &&& 1 ≠ 0 ↔ c.toBitVec.getLsbD 0 = true := by
  have h : (c &&& 1).toBitVec = BitVec.setWidth 32 (BitVec.ofBool (c.toBitVec.getLsbD 0)) :=
    BitVec.and_one_eq_setWidth_ofBool_getLsbD
  cases hb : c.toBitVec.getLsbD 0 <;> rw [hb] at h
  · exact iff_of_false (not_not.mpr (UInt32.eq_of_toBitVec_eq h)) Bool.false_ne_true
  · exact iff_of_true (fun he => absurd (he ▸ h) (by decide)) rfl

theorem toBitVec_crcRound (c : UInt32) :
    ((c >>> 1) ^^^ (if c &&& 1 ≠ 0 then 0xEDB88320 else 0)).toBitVec = crcRound c.toBitVec := by
  unfold crcRound
  by_cases h : c.toBitVec.getLsbD 0 = true
  · rw [if_pos ((and_one_ne_zero c).mpr h), if_pos h]; rfl
  · rw [if_neg (mt (and_one_ne_zero c).mp h), if_neg h]; rfl

theorem xor_xor_cancel (a b p : BitVec 32) : a ^^^ p ^^^ (b ^^^ p) = a ^^^ b := by
  rw [BitVec.xor_assoc a p (b ^^^ p), ← BitVec.xor_assoc p b p, BitVec.xor_comm p b,
    BitVec.xor_assoc b p p, BitVec.xor_self, BitVec.xor_zero]

/-- A round is linear in exclusive or. -/
theorem crcRound_xor (a b : BitVec 32) : crcRound (a ^^^ b) = crcRound a ^^^ crcRound b := by
  unfold crcRound
  simp only [BitVec.getLsbD_xor, BitVec.ushiftRight_xor_distrib]
  cases a.getLsbD 0 <;> cases b.getLsbD 0 <;> simp <;>
    first | ac_rfl | exact (xor_xor_cancel _ _ _).symm

/-- The top bit after a round is the low bit before it. -/
theorem getLsbD_crcRound_31 (c : BitVec 32) : (crcRound c).getLsbD 31 = c.getLsbD 0 := by
  unfold crcRound
  cases c.getLsbD 0 <;> simp [BitVec.getLsbD_ushiftRight, BitVec.getLsbD_ge]

theorem crcRound_of_low {c : BitVec 32} (h : c.getLsbD 0 = false) : crcRound c = c >>> 1 := by
  simp [crcRound, h]

/-- A round takes no nonzero register to zero. -/
theorem crcRound_ne_zero {c : BitVec 32} (hc : c ≠ 0#32) : crcRound c ≠ 0#32 := by
  intro h0
  have hlow : c.getLsbD 0 = false := by rw [← getLsbD_crcRound_31, h0, BitVec.getLsbD_zero]
  rw [crcRound_of_low hlow] at h0
  refine hc (BitVec.eq_of_getLsbD_eq fun ⟨i, hi⟩ => ?_)
  cases i with
  | zero => simpa using hlow
  | succ j =>
    have := congrArg (BitVec.getLsbD · j) h0
    simpa [BitVec.getLsbD_ushiftRight, Nat.add_comm] using this

/-! ## 2. Eight rounds and the table -/

/-- `n` rounds. -/
def crcRounds : Nat → BitVec 32 → BitVec 32
  | 0, c => c
  | n + 1, c => crcRounds n (crcRound c)

theorem crcRounds_xor (n : Nat) : ∀ a b : BitVec 32,
    crcRounds n (a ^^^ b) = crcRounds n a ^^^ crcRounds n b := by
  induction n with
  | zero => exact fun _ _ => rfl
  | succ n ih => intro a b; simp only [crcRounds, crcRound_xor, ih]

/-- A register whose low `k` bits are clear only moves down through `k` rounds. -/
theorem crcRounds_high (k : Nat) : ∀ y : BitVec 32, (∀ i, i < k → y.getLsbD i = false) →
    crcRounds k y = y >>> k := by
  induction k with
  | zero => intro y _; exact (BitVec.ushiftRight_zero y).symm
  | succ k ih =>
    intro y hy
    rw [crcRounds, crcRound_of_low (hy 0 (Nat.succ_pos k)),
      ih _ fun i hi => by simpa [BitVec.getLsbD_ushiftRight, Nat.add_comm] using hy (i + 1) (by omega),
      ← BitVec.shiftRight_add, Nat.add_comm]

theorem split_low (x : BitVec 32) : x = (x &&& 255#32) ^^^ (x &&& ~~~255#32) := by
  apply BitVec.eq_of_getLsbD_eq
  intro ⟨i, hi⟩
  simp only [BitVec.getLsbD_xor, BitVec.getLsbD_and, BitVec.getLsbD_not, hi, decide_True,
    Bool.true_and]
  cases x.getLsbD i <;> cases (255#32).getLsbD i <;> rfl

theorem testBit_255 (i : Nat) : (255 : Nat).testBit i = decide (i < 8) := by
  rw [show (255 : Nat) = 2 ^ 8 - 1 by rfl, Nat.testBit_two_pow_sub_one]

theorem high_clear (x : BitVec 32) (i : Nat) (hi : i < 8) : (x &&& ~~~255#32).getLsbD i = false := by
  simp only [BitVec.getLsbD_and, BitVec.getLsbD_not, BitVec.getLsbD_ofNat, testBit_255]
  simp [hi]

theorem high_shift (x : BitVec 32) : (x &&& ~~~255#32) >>> 8 = x >>> 8 := by
  apply BitVec.eq_of_getLsbD_eq
  intro ⟨i, hi⟩
  simp only [BitVec.getLsbD_ushiftRight, BitVec.getLsbD_and, BitVec.getLsbD_not,
    BitVec.getLsbD_ofNat, testBit_255]
  by_cases h : 8 + i < 32
  · simp [h]
  · simp [BitVec.getLsbD_ge x (8 + i) (by omega)]

/-- Eight rounds of `x`: those of its low octet, and the rest moved down. -/
theorem crcRounds_eight (x : BitVec 32) :
    crcRounds 8 x = crcRounds 8 (x &&& 255#32) ^^^ (x >>> 8) := by
  conv => lhs; rw [split_low x]
  rw [crcRounds_xor, crcRounds_high 8 _ (high_clear x), high_shift]

theorem toBitVec_foldl_round (l : List Nat) : ∀ i : UInt32,
    (l.foldl (fun (c : UInt32) _ => (c >>> 1) ^^^ (if c &&& 1 ≠ 0 then 0xEDB88320 else 0)) i).toBitVec =
      crcRounds l.length i.toBitVec := by
  induction l with
  | nil => exact fun _ => rfl
  | cons a l ih => intro i; rw [List.foldl_cons, ih, toBitVec_crcRound]; rfl

theorem toBitVec_crcTableEntry (i : UInt32) : (crcTableEntry i).toBitVec = crcRounds 8 i.toBitVec := by
  rw [crcTableEntry, toBitVec_foldl_round, List.length_range]

theorem getD_crc32Table (x : UInt32) :
    crc32Table.getD (x &&& 0xFF).toNat 0 = crcTableEntry (x &&& 0xFF) := by
  have hlt : (x &&& 0xFF).toNat < 256 :=
    Nat.lt_of_le_of_lt (BitVec.toNat_and x.toBitVec 255#32 ▸ Nat.and_le_right) (by decide)
  rw [crc32Table, List.getD_eq_getElem?_getD, List.getElem?_map, List.getElem?_range hlt,
    Option.map_some', Option.getD_some, uInt32_ofNat_toNat]

/-! ## 3. The byte step -/

/-- The step of `ComputeCRC`'s loop:
`crc = crc32_table[(crc ^ byte) & 0xFF] ^ (crc >> 8)`. -/
def crcUpdate (crc : UInt32) (b : UInt8) : UInt32 :=
  crc32Table.getD ((crc ^^^ b.toUInt32) &&& 0xFF).toNat 0 ^^^ (crc >>> 8)

theorem computeCRC_eq (data : Bytes) :
    computeCRC data = data.foldl crcUpdate 0xFFFFFFFF ^^^ 0xFFFFFFFF := rfl

/-- The table step is eight rounds of `crc ^ b`. -/
theorem toBitVec_crcUpdate (c : UInt32) (b : UInt8) :
    (crcUpdate c b).toBitVec = crcRounds 8 (c.toBitVec ^^^ b.toUInt32.toBitVec) := by
  have hb : b.toUInt32.toBitVec >>> 8 = 0#32 := by
    apply BitVec.eq_of_toNat_eq
    have : b.toNat < 256 := b.toNat_lt_size
    show b.toNat >>> 8 = 0
    rw [Nat.shiftRight_eq_div_pow]
    omega
  rw [crcRounds_eight, BitVec.ushiftRight_xor_distrib, hb, BitVec.xor_zero, crcUpdate,
    getD_crc32Table]
  show (crcTableEntry _).toBitVec ^^^ _ = _
  rw [toBitVec_crcTableEntry]
  rfl

/-! ## 4. Bit by bit -/

/-- One bit fed to the register: added at the low end, then one round. -/
def bitStep (c : BitVec 32) (β : Bool) : BitVec 32 := crcRound (c ^^^ if β then 1#32 else 0#32)

/-- The bits of a byte, least significant first, the order the CRC reads them in. -/
def bitsOf (b : UInt8) : List Bool := (List.range 8).map b.toBitVec.getLsbD

/-- The bits of a byte string in that order: bit `k` of byte `j` is bit `8 j + k`. -/
def bitsLSB (bs : Bytes) : List Bool := bs.flatMap bitsOf

/-- A round of `x ^ y`: the low bit of `y` fed to `x`, and the rest of `y` moved down. -/
theorem crcRound_xor_low (x y : BitVec 32) :
    crcRound (x ^^^ y) = bitStep x (y.getLsbD 0) ^^^ (y >>> 1) := by
  unfold bitStep
  cases h : y.getLsbD 0
  · rw [if_neg Bool.false_ne_true, BitVec.xor_zero, crcRound_xor, crcRound_of_low h]
  · have hy : (y ^^^ 1#32).getLsbD 0 = false := by simp [h]
    rw [if_pos rfl, ← xor_xor_cancel x y 1#32, crcRound_xor, crcRound_of_low hy,
      BitVec.ushiftRight_xor_distrib, show (1#32 : BitVec 32) >>> 1 = 0#32 by decide, BitVec.xor_zero]

/-- `k` rounds of `x ^ y`, for `y` below `2 ^ k`, are the bits of `y` fed one by one. -/
theorem crcRounds_xor_bits (k : Nat) : ∀ x y : BitVec 32, y.toNat < 2 ^ k →
    crcRounds k (x ^^^ y) = ((List.range k).map y.getLsbD).foldl bitStep x := by
  induction k with
  | zero =>
    intro x y hy
    rw [BitVec.eq_of_toNat_eq (show y.toNat = (0#32).toNat by simp at hy ⊢; omega), BitVec.xor_zero]
    rfl
  | succ k ih =>
    intro x y hy
    have hy' : (y >>> 1).toNat < 2 ^ k := by
      rw [BitVec.toNat_ushiftRight, Nat.shiftRight_eq_div_pow, Nat.pow_succ] at *; omega
    rw [crcRounds, crcRound_xor_low, ih _ _ hy', List.range_succ_eq_map, List.map_cons,
      List.foldl_cons, List.map_map]
    congr 1
    exact List.map_congr_left fun i _ => by simp [BitVec.getLsbD_ushiftRight, Nat.add_comm]

theorem toBitVec_crcUpdate_bits (c : UInt32) (b : UInt8) :
    (crcUpdate c b).toBitVec = (bitsOf b).foldl bitStep c.toBitVec := by
  rw [toBitVec_crcUpdate, crcRounds_xor_bits 8 _ _
    (show b.toUInt32.toBitVec.toNat < 2 ^ 8 from b.toNat_lt_size)]
  rfl

theorem toBitVec_foldl_crcUpdate (data : Bytes) : ∀ c : UInt32,
    (data.foldl crcUpdate c).toBitVec = (bitsLSB data).foldl bitStep c.toBitVec := by
  induction data with
  | nil => exact fun _ => rfl
  | cons b data ih =>
    intro c
    rw [List.foldl_cons, ih, toBitVec_crcUpdate_bits, ← List.foldl_append]
    rfl

/-! ## 5. The CRC of a corrupted record -/

/-- A byte string with the bits of `mask` flipped. -/
def xorBytes (data mask : Bytes) : Bytes := List.zipWith (· ^^^ ·) data mask

theorem bitStep_xor (c₁ c₂ : BitVec 32) (β₁ β₂ : Bool) :
    bitStep (c₁ ^^^ c₂) (β₁ ^^ β₂) = bitStep c₁ β₁ ^^^ bitStep c₂ β₂ := by
  unfold bitStep
  rw [← crcRound_xor]
  congr 1
  cases β₁ <;> cases β₂ <;> simp <;> first | ac_rfl | exact (xor_xor_cancel _ _ _).symm

/-- Feeding the register is linear: in the start and in the bits fed. -/
theorem foldl_bitStep_zipWith (u : List Bool) : ∀ (v : List Bool) (c₁ c₂ : BitVec 32),
    u.length = v.length →
    (List.zipWith (· ^^ ·) u v).foldl bitStep (c₁ ^^^ c₂) = u.foldl bitStep c₁ ^^^ v.foldl bitStep c₂ := by
  induction u with
  | nil => intro v c₁ c₂ h; cases v with
    | nil => rfl
    | cons _ _ => cases h
  | cons β u ih => intro v c₁ c₂ h; cases v with
    | nil => cases h
    | cons γ v =>
      rw [List.zipWith_cons_cons, List.foldl_cons, bitStep_xor, ih v _ _ (Nat.succ.inj h)]
      rfl

@[simp] theorem length_bitsOf (b : UInt8) : (bitsOf b).length = 8 := by simp [bitsOf]

@[simp] theorem length_bitsLSB (bs : Bytes) : (bitsLSB bs).length = 8 * bs.length := by
  induction bs with
  | nil => rfl
  | cons b bs ih => rw [bitsLSB, List.flatMap_cons, List.length_append, ← bitsLSB, ih]; simp; omega

theorem bitsOf_xor (a b : UInt8) :
    bitsOf (a ^^^ b) = List.zipWith (· ^^ ·) (bitsOf a) (bitsOf b) := by
  show (List.range 8).map (a.toBitVec ^^^ b.toBitVec).getLsbD = _
  simp only [bitsOf, List.range_succ, List.range_zero, List.nil_append, List.map_append,
    List.map_cons, List.map_nil, List.cons_append, List.zipWith_cons_cons, List.zipWith_nil_left,
    BitVec.getLsbD_xor]

theorem bitsLSB_xorBytes (r : Bytes) : ∀ e : Bytes, r.length = e.length →
    bitsLSB (xorBytes r e) = List.zipWith (· ^^ ·) (bitsLSB r) (bitsLSB e) := by
  induction r with
  | nil => intro e h; cases e with
    | nil => rfl
    | cons _ _ => cases h
  | cons a r ih => intro e h; cases e with
    | nil => cases h
    | cons b e =>
      simp only [xorBytes, List.zipWith_cons_cons, bitsLSB, List.flatMap_cons] at ih ⊢
      rw [bitsOf_xor, ih e (Nat.succ.inj h), List.zipWith_append _ _ _ _ _ (by simp)]

theorem toBitVec_computeCRC (data : Bytes) :
    (computeCRC data).toBitVec =
      (bitsLSB data).foldl bitStep (0xFFFFFFFF : UInt32).toBitVec ^^^ (0xFFFFFFFF : UInt32).toBitVec := by
  rw [computeCRC_eq, ← toBitVec_foldl_crcUpdate]
  rfl

/-- Flipping the bits of `e` moves the CRC by the register those bits leave
when fed from zero: the CRC is affine. -/
theorem toBitVec_computeCRC_xorBytes (r e : Bytes) (h : r.length = e.length) :
    (computeCRC (xorBytes r e)).toBitVec =
      (computeCRC r).toBitVec ^^^ (bitsLSB e).foldl bitStep 0#32 := by
  have hl := foldl_bitStep_zipWith (bitsLSB r) (bitsLSB e) (0xFFFFFFFF : UInt32).toBitVec 0#32
    (by simp [h])
  rw [BitVec.xor_zero] at hl
  rw [toBitVec_computeCRC, toBitVec_computeCRC, bitsLSB_xorBytes r e h, hl]
  ac_rfl

/-! ## 6. Bursts -/

/-- `d` has a set bit among its top `k` places. -/
def TopSet (k : Nat) (d : BitVec 32) : Prop := ∃ j, 32 - k ≤ j ∧ d.getLsbD j = true

theorem ne_zero_of_topSet {k : Nat} {d : BitVec 32} (h : TopSet k d) : d ≠ 0#32 := by
  obtain ⟨j, -, hj⟩ := h
  rintro rfl
  simp at hj

/-- Once the register has a set bit in its top `k` places, one more bit
leaves one in its top `k + 1`. -/
theorem topSet_bitStep {k : Nat} (hk : k < 32) {d : BitVec 32} (hd : TopSet k d) (β : Bool) :
    TopSet (k + 1) (bitStep d β) := by
  obtain ⟨j, hj, hdj⟩ := hd
  have hc : (d ^^^ if β then 1#32 else 0#32).getLsbD j = true := by
    cases β <;> simp [hdj, show j ≠ 0 by omega]
  unfold bitStep
  cases hlow : (d ^^^ if β then 1#32 else 0#32).getLsbD 0
  · refine ⟨j - 1, by omega, ?_⟩
    rw [crcRound_of_low hlow, BitVec.getLsbD_ushiftRight, show 1 + (j - 1) = j by omega, hc]
  · exact ⟨31, by omega, by rw [getLsbD_crcRound_31, hlow]⟩

theorem foldl_bitStep_topSet (w : List Bool) : ∀ (k : Nat) (d : BitVec 32),
    k + w.length ≤ 32 → TopSet k d → TopSet (k + w.length) (w.foldl bitStep d) := by
  induction w with
  | nil => exact fun k d _ h => h
  | cons β w ih =>
    intro k d hk hd
    rw [List.foldl_cons, List.length_cons, ← Nat.add_assoc, Nat.add_right_comm]
    exact ih (k + 1) _ (by simp at hk; omega) (topSet_bitStep (by simp at hk; omega) hd β)

/-- A span of at most 32 bits with one set leaves a nonzero register when fed from zero. -/
theorem foldl_bitStep_span (w : List Bool) (hw : w.length ≤ 32) (ht : true ∈ w) :
    w.foldl bitStep 0#32 ≠ 0#32 := by
  induction w with
  | nil => cases ht
  | cons β w ih =>
    rw [List.foldl_cons]
    cases β with
    | false =>
      exact ih (by simp at hw; omega) (by simpa using ht)
    | true =>
      have h₁ : TopSet 1 (bitStep 0#32 true) := ⟨31, by omega, by decide⟩
      have := foldl_bitStep_topSet w 1 _ (by simp at hw; omega) h₁
      exact ne_zero_of_topSet this

theorem foldl_bitStep_zeros_of_zero (n : Nat) :
    (List.replicate n false).foldl bitStep 0#32 = 0#32 := by
  induction n with
  | zero => rfl
  | succ n ih => rw [List.replicate_succ, List.foldl_cons, show bitStep 0#32 false = 0#32 by decide, ih]

theorem foldl_bitStep_zeros_ne (n : Nat) : ∀ d : BitVec 32, d ≠ 0#32 →
    (List.replicate n false).foldl bitStep d ≠ 0#32 := by
  induction n with
  | zero => exact fun _ h => h
  | succ n ih =>
    intro d hd
    rw [List.replicate_succ, List.foldl_cons]
    exact ih _ (by simpa [bitStep] using crcRound_ne_zero hd)

/-- A burst: clear bits, at most 32 bits not all clear, clear bits. Its
register is not zero. -/
theorem burst_register_ne_zero (p q : Nat) (w : List Bool) (hw : w.length ≤ 32) (ht : true ∈ w) :
    (List.replicate p false ++ w ++ List.replicate q false).foldl bitStep 0#32 ≠ 0#32 := by
  rw [List.foldl_append, List.foldl_append, foldl_bitStep_zeros_of_zero]
  exact foldl_bitStep_zeros_ne q _ (foldl_bitStep_span w hw ht)

/-- A record whose bytes carry such a burst has another CRC. -/
theorem computeCRC_burst_ne (r e : Bytes) (h : r.length = e.length) (p q : Nat) (w : List Bool)
    (hbits : bitsLSB e = List.replicate p false ++ w ++ List.replicate q false)
    (hw : w.length ≤ 32) (ht : true ∈ w) : computeCRC (xorBytes r e) ≠ computeCRC r := by
  intro heq
  have hx := congrArg UInt32.toBitVec heq
  rw [toBitVec_computeCRC_xorBytes r e h, hbits] at hx
  apply burst_register_ne_zero p q w hw ht
  have := congrArg ((computeCRC r).toBitVec ^^^ ·) hx
  simpa [← BitVec.xor_assoc] using this

/-! ## 7. `Replay` over a corrupted log -/

@[simp] theorem bitsLSB_cons (b : UInt8) (bs : Bytes) : bitsLSB (b :: bs) = bitsOf b ++ bitsLSB bs :=
  rfl

theorem bitsLSB_append (a b : Bytes) : bitsLSB (a ++ b) = bitsLSB a ++ bitsLSB b :=
  List.flatMap_append _ _ _

theorem bitsOf_eq_zeros_iff (b : UInt8) : bitsOf b = List.replicate 8 false ↔ b = 0 := by
  refine ⟨fun h => UInt8.eq_of_toBitVec_eq (BitVec.eq_of_getLsbD_eq fun ⟨i, hi⟩ => ?_), ?_⟩
  · have := (List.eq_replicate_iff.mp h).2 _ (List.mem_map_of_mem _ (List.mem_range.mpr hi))
    simpa using this
  · rintro rfl; rfl

theorem xor_eq_self_iff (a b : UInt8) : a ^^^ b = a ↔ b = 0 := by
  refine ⟨fun h => UInt8.eq_of_toBitVec_eq ?_, by rintro rfl; exact UInt8.eq_of_toBitVec_eq BitVec.xor_zero⟩
  have h' : a.toBitVec ^^^ b.toBitVec = a.toBitVec := congrArg UInt8.toBitVec h
  calc b.toBitVec = a.toBitVec ^^^ (a.toBitVec ^^^ b.toBitVec) := by
        rw [← BitVec.xor_assoc, BitVec.xor_self, BitVec.zero_xor]
    _ = 0#8 := by rw [h', BitVec.xor_self]

/-- A mask leaves a byte string as it is iff every bit of it is clear. -/
theorem xorBytes_eq_self_iff (a : Bytes) : ∀ m : Bytes, a.length = m.length →
    (xorBytes a m = a ↔ bitsLSB m = List.replicate (8 * m.length) false) := by
  induction a with
  | nil => intro m h; cases m with
    | nil => exact iff_of_true rfl rfl
    | cons _ _ => cases h
  | cons x a ih => intro m h; cases m with
    | nil => cases h
    | cons y m =>
      have hl : (List.replicate 8 false).length = (bitsOf y).length := by simp
      rw [xorBytes, List.zipWith_cons_cons, List.cons.injEq, xor_eq_self_iff, ← xorBytes,
        ih m (Nat.succ.inj h), List.length_cons, Nat.mul_succ, Nat.add_comm, List.replicate_add,
        bitsLSB_cons, ← bitsOf_eq_zeros_iff]
      exact ⟨fun ⟨h₁, h₂⟩ => by rw [h₁, h₂], fun h' => (List.append_inj h' hl.symm)⟩

/-- Cutting a burst in three: outer pieces inside the clear runs are clear,
and the burst is in the middle piece. -/
theorem burst_split {X Y W : List Bool} {p q : Nat} {w : List Bool}
    (h : X ++ Y ++ W = List.replicate p false ++ w ++ List.replicate q false)
    (hX : X.length ≤ p) (hW : W.length ≤ q) :
    X = List.replicate X.length false ∧ W = List.replicate W.length false ∧
      Y = List.replicate (p - X.length) false ++ w ++ List.replicate (q - W.length) false := by
  rw [show p = X.length + (p - X.length) by omega, List.replicate_add,
    show q = (q - W.length) + W.length by omega, List.replicate_add] at h
  simp only [List.append_assoc] at h
  obtain ⟨h₁, h₂⟩ := List.append_inj h (by simp)
  rw [← List.append_assoc, ← List.append_assoc] at h₂
  obtain ⟨h₃, h₄⟩ := List.append_inj' h₂ (by simp)
  exact ⟨h₁, h₄, by rw [h₃]⟩

theorem exists_split3 (E : Bytes) (a b c : Nat) (h : E.length = a + b + c) :
    ∃ E₁ E₂ E₃ : Bytes, E = E₁ ++ E₂ ++ E₃ ∧ E₁.length = a ∧ E₂.length = b ∧ E₃.length = c := by
  refine ⟨E.take a, (E.drop a).take b, E.drop (a + b), ?_, ?_, ?_, ?_⟩
  · rw [List.append_assoc, ← List.drop_drop, List.take_append_drop, List.take_append_drop]
  all_goals simp only [List.length_take, List.length_drop]; omega

theorem toBytesBE_ofBytesBE (bs : Bytes) : toBytesBE bs.length (ofBytesBE bs) = bs := by
  induction bs using List.reverseRecOn with
  | nil => rfl
  | append_singleton bs b ih =>
    have hb : b.toNat < 256 := b.toNat_lt_size
    rw [List.length_append, List.length_singleton, toBytesBE, ofBytesBE_append_singleton,
      show (ofBytesBE bs * 256 + b.toNat) / 256 = ofBytesBE bs by omega, ih]
    congr
    exact UInt8.toNat.inj (by rw [toNat_uInt8_ofNat]; omega)

/-- A turn of `Replay` whose CRC field does not match its record breaks. -/
theorem nextEntry_of_mismatch {record crc : Bytes} (g : Bytes) (hlen : record.length < 2 ^ 32)
    (hc : crc.length = 4) (h : computeCRC record ≠ UInt32.ofNat (ofBytesBE crc)) :
    nextEntry (toBytesBE 4 record.length ++ (record ++ (crc ++ g))) = none := by
  simp only [nextEntry, Option.bind_eq_bind, Option.some_bind,
    takeBytes_append_of_length _ (length_toBytesBE _ _), ofBytesBE_toBytesBE,
    Nat.mod_eq_of_lt (show record.length < 256 ^ 4 from hlen), takeBytes_append_of_length _ rfl,
    takeBytes_append_of_length _ hc, if_neg h]

/-- A blob whose record bytes carry a burst: the turn breaks. -/
theorem nextEntry_record_burst {record : Bytes} (hlen : record.length < 2 ^ 32) (E : Bytes)
    (hE : E.length = record.length) (p q : Nat) (w : List Bool)
    (hbits : bitsLSB E = List.replicate p false ++ w ++ List.replicate q false)
    (hw : w.length ≤ 32) (ht : true ∈ w) (g : Bytes) :
    nextEntry (toBytesBE 4 record.length ++
      (xorBytes record E ++ (toBytesBE 4 (computeCRC record).toNat ++ g))) = none := by
  have hl : (xorBytes record E).length = record.length := by simp [xorBytes, hE]
  rw [← hl]
  refine nextEntry_of_mismatch g (hl ▸ hlen) (length_toBytesBE _ _) ?_
  rw [ofBytesBE_toBytesBE,
    Nat.mod_eq_of_lt (show (computeCRC record).toNat < 256 ^ 4 from (computeCRC record).toNat_lt_size),
    uInt32_ofNat_toNat]
  exact computeCRC_burst_ne _ E hE.symm p q w hbits hw ht

/-- A blob whose CRC field has a bit flipped: the turn breaks. -/
theorem nextEntry_crc_flip {record : Bytes} (hlen : record.length < 2 ^ 32) (E : Bytes)
    (hE : E.length = 4) (hflip : bitsLSB E ≠ List.replicate (8 * E.length) false) (g : Bytes) :
    nextEntry (toBytesBE 4 record.length ++
      (record ++ (xorBytes (toBytesBE 4 (computeCRC record).toNat) E ++ g))) = none := by
  generalize hc : toBytesBE 4 (computeCRC record).toNat = crc
  have hl : (xorBytes crc E).length = 4 := by simp [xorBytes, ← hc, hE]
  refine nextEntry_of_mismatch g hlen hl fun h => hflip ?_
  have hlt : ofBytesBE (xorBytes crc E) < 2 ^ 32 := by
    have := ofBytesBE_lt (xorBytes crc E); rwa [hl] at this
  have hn : (computeCRC record).toNat = ofBytesBE (xorBytes crc E) := by
    rw [h, UInt32.toNat_ofNat_of_lt hlt]
  have hback : toBytesBE 4 (ofBytesBE (xorBytes crc E)) = xorBytes crc E := by
    have := toBytesBE_ofBytesBE (xorBytes crc E); rwa [hl] at this
  rw [← xorBytes_eq_self_iff crc E (by rw [← hc, length_toBytesBE, hE]), ← hback, ← hn, hc]

/-- The log of `S` is the blobs before record `i`, its blob, and those after. -/
theorem encodeLog_around (S : List WALEntry) (i : Nat) (hi : i < S.length) :
    encodeLog S = encodeLog (S.take i) ++ (encodeEntry S[i] ++ encodeLog (S.drop (i + 1))) := by
  conv_lhs => rw [← List.take_append_drop i S, List.drop_eq_getElem_cons hi]
  rw [encodeLog_append, encodeLog_cons]

/-- A mask over `X ++ Y ++ Z` whose burst lies inside `Y` flips bits of `Y`
only, by a mask of `Y`'s length carrying the same burst. -/
theorem xorBytes_burst_middle (X Y Z : Bytes) {E : Bytes}
    (hE : E.length = X.length + Y.length + Z.length) {p q : Nat} {w : List Bool}
    (hbits : bitsLSB E = List.replicate p false ++ w ++ List.replicate q false)
    (hX : 8 * X.length ≤ p) (hY : p + w.length ≤ 8 * (X.length + Y.length)) :
    ∃ E₂ : Bytes, E₂.length = Y.length ∧
      (∃ p' q' : Nat, bitsLSB E₂ = List.replicate p' false ++ w ++ List.replicate q' false) ∧
      xorBytes (X ++ Y ++ Z) E = X ++ xorBytes Y E₂ ++ Z := by
  have htotal := congrArg List.length hbits
  simp only [length_bitsLSB, List.length_append, List.length_replicate] at htotal
  obtain ⟨E₁, E₂, E₃, rfl, h₁, h₂, h₃⟩ := exists_split3 E _ _ _ hE
  rw [bitsLSB_append, bitsLSB_append] at hbits
  obtain ⟨z₁, z₃, hb₂⟩ := burst_split hbits (by simp [h₁]; omega)
    (by simp only [List.length_append] at htotal; simp [h₃]; omega)
  rw [length_bitsLSB] at z₁ z₃
  refine ⟨E₂, h₂, ⟨_, _, hb₂⟩, ?_⟩
  rw [xorBytes, List.zipWith_append _ _ _ _ _ (by simp [h₁, h₂]),
    List.zipWith_append _ _ _ _ _ h₁.symm, ← xorBytes, ← xorBytes, ← xorBytes,
    (xorBytes_eq_self_iff _ E₁ h₁.symm).mpr z₁, (xorBytes_eq_self_iff _ E₃ h₃.symm).mpr z₃]

theorem burst_ne_zeros {l w : List Bool} {p q : Nat}
    (h : l = List.replicate p false ++ w ++ List.replicate q false) (ht : true ∈ w) (n : Nat) :
    l ≠ List.replicate n false := by
  rintro rfl
  have hm := List.mem_append_left (List.replicate q false) (List.mem_append_right (List.replicate p false) ht)
  rw [← h] at hm
  exact Bool.noConfusion (List.eq_of_mem_replicate hm)

/-- **Replay stops at a burst.** Take entries whose records fit their size
field, and a mask over their log whose bits, least significant first in each
byte, are clear outside one span of at most 32 bits and not all clear, the
span lying inside the record bytes or inside the CRC field of record `i`.
`Replay` over the log with the mask's bits flipped returns the first `i`
entries. -/
theorem replay_stops_at_burst (S : List WALEntry) (hS : ∀ x ∈ S, x.Fits) (i : Nat)
    (hi : i < S.length) (E : Bytes) (hE : E.length = (encodeLog S).length) (p q : Nat)
    (w : List Bool) (hbits : bitsLSB E = List.replicate p false ++ w ++ List.replicate q false)
    (hw : w.length ≤ 32) (ht : true ∈ w)
    (hspan : 8 * ((encodeLog (S.take i)).length + 4) ≤ p ∧
        p + w.length ≤
          8 * ((encodeLog (S.take i)).length + 4 + (17 + S[i].key.length + S[i].value.length)) ∨
      8 * ((encodeLog (S.take i)).length + 4 + (17 + S[i].key.length + S[i].value.length)) ≤ p ∧
        p + w.length ≤
          8 * ((encodeLog (S.take i)).length + 8 + (17 + S[i].key.length + S[i].value.length))) :
    replay (xorBytes (encodeLog S) E) = S.take i := by
  have hfit : S[i].Fits := hS _ (List.getElem_mem hi)
  have hlog := encodeLog_around S i hi
  have hreplay : ∀ rest, replay (encodeLog (S.take i) ++ rest) = S.take i ++ replay rest :=
    fun rest => replay_encodeLog_append _ rest fun x hx => hS x (List.mem_of_mem_take hx)
  generalize S[i] = e at hfit hlog hspan
  generalize encodeLog (S.take i) = A at hlog hspan hreplay
  generalize encodeLog (S.drop (i + 1)) = B at hlog
  obtain ⟨op, ts, key, value⟩ := e
  have hrl := length_encodeRecord op key value ts
  simp only [encodeEntry, appendBlob, WALEntry.Fits] at hlog hfit hspan
  generalize encodeRecord op key value ts = rec at hlog hrl
  rw [← hrl] at hfit hspan
  rw [hlog] at hE ⊢
  simp only [List.length_append, length_toBytesBE] at hE
  rcases hspan with ⟨hp, hpw⟩ | ⟨hp, hpw⟩
  · -- the burst is in the record bytes
    obtain ⟨E₂, h₂, ⟨p', q', hb₂⟩, hx⟩ := xorBytes_burst_middle (A ++ toBytesBE 4 rec.length) rec
      (toBytesBE 4 (computeCRC rec).toNat ++ B) (by simp; omega) hbits (by simp; omega)
      (by simp; omega)
    rw [show A ++ (toBytesBE 4 rec.length ++ (rec ++ toBytesBE 4 (computeCRC rec).toNat) ++ B) =
      A ++ toBytesBE 4 rec.length ++ rec ++ (toBytesBE 4 (computeCRC rec).toNat ++ B) by
        simp only [List.append_assoc], hx]
    simp only [List.append_assoc]
    rw [hreplay, replay_of_none (nextEntry_record_burst hfit E₂ h₂ p' q' w hb₂ hw ht B),
      List.append_nil]
  · -- the burst is in the CRC field
    obtain ⟨E₂, h₂, ⟨p', q', hb₂⟩, hx⟩ := xorBytes_burst_middle (A ++ toBytesBE 4 rec.length ++ rec)
      (toBytesBE 4 (computeCRC rec).toNat) B (by simp; omega) hbits (by simp; omega)
      (by simp; omega)
    rw [show A ++ (toBytesBE 4 rec.length ++ (rec ++ toBytesBE 4 (computeCRC rec).toNat) ++ B) =
      A ++ toBytesBE 4 rec.length ++ rec ++ toBytesBE 4 (computeCRC rec).toNat ++ B by
        simp only [List.append_assoc], hx]
    simp only [List.append_assoc]
    rw [length_toBytesBE] at h₂
    rw [hreplay, replay_of_none (nextEntry_crc_flip hfit E₂ h₂ (burst_ne_zeros hb₂ ht _) B),
      List.append_nil]

/-- A mask flipping the 32 bits of log bytes 5 to 8, the first four
timestamp bytes of the record of `goodPut`. -/
def lsbMask : Bytes := List.replicate 5 0 ++ [0xff, 0xff, 0xff, 0xff] ++ List.replicate 21 0

set_option maxRecDepth 4000 in
/-- Replay over the log of `goodPut` with those bits flipped returns nothing. -/
theorem replay_burst_goodPut : replay (xorBytes (encodeLog [goodPut]) lsbMask) = [] :=
  replay_stops_at_burst [goodPut] (by decide) 0 (by decide) lsbMask (by decide) 40 168
    (List.replicate 32 true) (by decide) (by decide) (by decide) (Or.inl ⟨by decide, by decide⟩)

/-- The bits of a byte string counted from the most significant bit of each byte. -/
def bitsMSB (bs : Bytes) : List Bool :=
  bs.flatMap fun b => (List.range 8).map fun k => b.toBitVec.getLsbD (7 - k)

/-- A mask over the log of `goodPut` whose set bits, counted from the most
significant bit of each byte, span 31 bits of the record's timestamp. -/
def msbMask : Bytes := List.replicate 5 0 ++ [0x0a, 0x1e, 0xe9, 0xd5, 0xe0] ++ List.replicate 20 0

set_option maxRecDepth 20000 in
/-- In the other bit order a burst can hide: the 31-bit span of `msbMask`
lies in the record bytes of record 0, yet the record's CRC is unchanged and
`Replay` returns an entry. -/
theorem msb_span_undetected :
    ∃ p q : Nat, ∃ w : List Bool, bitsMSB msbMask = List.replicate p false ++ w ++ List.replicate q false ∧
      w.length ≤ 32 ∧ true ∈ w ∧ 8 * ((encodeLog ([goodPut].take 0)).length + 4) ≤ p ∧
      p + w.length ≤ 8 * ((encodeLog ([goodPut].take 0)).length + 4 + (17 + goodPut.key.length + goodPut.value.length)) ∧
      replay (xorBytes (encodeLog [goodPut]) msbMask) ≠ [goodPut].take 0 := by
  refine ⟨44, 165, [true, false, true, false, false, false, false, true, true, true, true, false,
    true, true, true, false, true, false, false, true, true, true, false, true, false, true, false,
    true, true, true, true], by decide, by decide, by decide, by decide, by decide, ?_⟩
  have h : (nextEntry (xorBytes (encodeLog [goodPut]) msbMask)).isSome = true := by decide
  obtain ⟨⟨e, rest⟩, he⟩ := Option.isSome_iff_exists.mp h
  rw [replay_of_some he]
  exact List.cons_ne_nil _ _

/-! ## 8. The bitwise CRC-32 -/

/-- One shift of the reflected CRC-32: the register moves down a place, and
`0xEDB88320` is xored in when the bit shifted out was set. -/
def crc32Shift (c : UInt32) : UInt32 :=
  if c % 2 = 1 then (c >>> 1) ^^^ 0xEDB88320 else c >>> 1

/-- The bit-at-a-time reflected CRC-32 with polynomial `0xEDB88320`,
initial value `0xFFFFFFFF` and final xor `0xFFFFFFFF`: each byte xored into
the low end of the register, then eight shifts. -/
def crc32Bitwise (data : Bytes) : UInt32 :=
  data.foldl (fun crc b => crc32Shift^[8] (crc ^^^ b.toUInt32)) 0xFFFFFFFF ^^^ 0xFFFFFFFF

theorem toBitVec_crc32Shift (c : UInt32) : (crc32Shift c).toBitVec = crcRound c.toBitVec := by
  have hlow : (c % 2 = 1) ↔ c.toBitVec.getLsbD 0 = true := by
    rw [BitVec.getLsbD, Nat.testBit_zero, decide_eq_true_iff]
    exact ⟨congrArg UInt32.toNat, fun h => UInt32.toNat.inj h⟩
  unfold crc32Shift crcRound
  by_cases h : c.toBitVec.getLsbD 0 = true
  · rw [if_pos (hlow.mpr h), if_pos h]; rfl
  · rw [if_neg (mt hlow.mp h), if_neg h, BitVec.xor_zero]; rfl

theorem toBitVec_iterate_crc32Shift (n : Nat) : ∀ c : UInt32,
    (crc32Shift^[n] c).toBitVec = crcRounds n c.toBitVec := by
  induction n with
  | zero => exact fun _ => rfl
  | succ n ih => intro c; rw [Function.iterate_succ_apply, ih, toBitVec_crc32Shift]; rfl

/-- `ComputeCRC` is the bitwise CRC-32. -/
theorem computeCRC_eq_bitwise (data : Bytes) : computeCRC data = crc32Bitwise data := by
  have hstep : (fun crc (b : UInt8) => crc32Shift^[8] (crc ^^^ b.toUInt32)) = crcUpdate :=
    funext₂ fun c b => UInt32.eq_of_toBitVec_eq (by
      rw [toBitVec_iterate_crc32Shift, toBitVec_crcUpdate]; rfl)
  rw [computeCRC_eq, crc32Bitwise, hstep]

set_option maxRecDepth 10000 in
example : crc32Bitwise (Bytes.ofString "123456789") = 0xCBF43926 := by decide

end KvStore.Storage
