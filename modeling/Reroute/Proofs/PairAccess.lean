import Reroute.Proofs.MemoryBytes
/-!
# One access of two bytes

An access of two bytes goes through the aligned word that holds them, wherever
one word holds both. What it reads and what it leaves is the same as if the two
bytes were accessed on their own: `pair_eq_value` and `swapPair_eq_store` say so
for every address. The word is taken apart into its bytes, and a byte into its
bits, where shifting and masking are plain.
-/

namespace Reroute

/-! ## The bytes of a number -/

namespace Bytes

/-- The digits of a number in base 256 are its bits, eight at a time. -/
theorem ofNat_eq_map (width n : Nat) :
    ofNat width n = (List.range width).map fun i => UInt8.ofNat (n >>> (8 * i)) := by
  induction width generalizing n with
  | zero => rfl
  | succ width ih =>
      have hshift : ∀ i, (n / 256) >>> (8 * i) = n >>> (8 * (i + 1)) := by
        intro i
        rw [Nat.mul_succ, Nat.add_comm, Nat.shiftRight_add, Nat.shiftRight_eq_div_pow n 8]
      rw [ofNat, ih, List.range_succ_eq_map]
      simp only [hshift, List.map_cons, List.map_map, Nat.mul_zero, Nat.shiftRight_zero]
      rfl

end Bytes

/-- One of the eight bytes of a word, the lowest first. -/
def byteOf (word : UInt64) (i : Nat) : UInt8 := UInt8.ofNat (word.toNat >>> (8 * i))

theorem toBytes_word (word : UInt64) :
    LittleEndian.toBytes word = (List.range 8).map (byteOf word) :=
  Bytes.ofNat_eq_map 8 word.toNat

theorem toBytes_pair (value : UInt16) :
    LittleEndian.toBytes value = (List.range 2).map (byteOf value.toUInt64) := by
  have h := Bytes.ofNat_eq_map 2 value.toNat
  rw [← UInt16.toNat_toUInt64 value] at h
  exact h

/-- A byte is its eight bits. -/
theorem byte_eq_of_bits {a b : UInt8}
    (h : ∀ j, j < 8 → a.toBitVec.getLsbD j = b.toBitVec.getLsbD j) : a = b :=
  UInt8.eq_of_toBitVec_eq (BitVec.eq_of_getLsbD_eq h)

/-- The bits of a byte are the bits of the word from its place on. -/
theorem getLsbD_byteOf (word : UInt64) (i : Nat) {j : Nat} (hj : j < 8) :
    (byteOf word i).toBitVec.getLsbD j = word.toBitVec.getLsbD (8 * i + j) := by
  show (BitVec.ofNat 8 (word.toNat >>> (8 * i))).getLsbD j = _
  rw [BitVec.getLsbD_ofNat, Nat.testBit_shiftRight]
  simp [hj, ← UInt64.toNat_toBitVec, BitVec.testBit_toNat]

theorem byteOf_shiftRight {word shift : UInt64} {off : Nat} (hshift : shift.toNat = 8 * off)
    (hoff : off < 8) (i : Nat) : byteOf (word >>> shift) i = byteOf word (off + i) := by
  have hmod : shift.toNat % 64 = 8 * off := by omega
  rw [byteOf, byteOf, UInt64.toNat_shiftRight, hmod, ← Nat.shiftRight_add, Nat.mul_add]

theorem byteOf_toUInt16 (word : UInt64) {i : Nat} (hi : i < 2) :
    byteOf word.toUInt16.toUInt64 i = byteOf word i := by
  refine byte_eq_of_bits fun j hj => ?_
  have h16 : 8 * i + j < 16 := by omega
  have h64 : 8 * i + j < 64 := by omega
  rw [getLsbD_byteOf _ _ hj, getLsbD_byteOf _ _ hj, UInt16.toBitVec_toUInt64,
    UInt64.toBitVec_toUInt16, BitVec.getLsbD_setWidth, BitVec.getLsbD_setWidth]
  simp [h16, h64]

theorem getLsbD_mask (p : Nat) : (0xFFFF : UInt64).toBitVec.getLsbD p = decide (p < 16) := by
  have h : (0xFFFF : UInt64).toBitVec.getLsbD p = (decide (p < 64) && Nat.testBit 65535 p) :=
    BitVec.getLsbD_ofNat ..
  have hbit : Nat.testBit 65535 p = decide (p < 16) := Nat.testBit_two_pow_sub_one 16 p
  rw [h, hbit]
  by_cases hp : p < 16
  · have : p < 64 := by omega
    simp [hp, this]
  · simp [hp]

/-- A word with two of its bytes replaced. -/
theorem byteOf_replace {word shift : UInt64} {off : Nat} (hshift : shift.toNat = 8 * off)
    (hoff : off ≤ 6) (value : UInt16) {i : Nat} (hi : i < 8) :
    byteOf ((word &&& ~~~(0xFFFF <<< shift)) ||| (value.toUInt64 <<< shift)) i =
      if off ≤ i ∧ i < off + 2 then byteOf value.toUInt64 (i - off) else byteOf word i := by
  refine byte_eq_of_bits fun j hj => ?_
  have hmod : (shift.toBitVec % 64).toNat = 8 * off := by
    rw [BitVec.toNat_umod, UInt64.toNat_toBitVec, hshift]
    exact Nat.mod_eq_of_lt (show 8 * off < 64 by omega)
  have h64 : 8 * i + j < 64 := by omega
  rw [getLsbD_byteOf _ _ hj]
  simp only [UInt64.toBitVec_or, UInt64.toBitVec_and, UInt64.toBitVec_not,
    UInt64.toBitVec_shiftLeft, BitVec.getLsbD_or, BitVec.getLsbD_and, BitVec.getLsbD_not,
    BitVec.shiftLeft_eq', BitVec.getLsbD_shiftLeft, hmod, getLsbD_mask, h64, decide_true,
    Bool.true_and]
  by_cases hin : off ≤ i ∧ i < off + 2
  · rw [if_pos hin, getLsbD_byteOf _ _ hj]
    have hplace : 8 * i + j - 8 * off = 8 * (i - off) + j := by omega
    have hlow : ¬ 8 * i + j < 8 * off := by omega
    have hpair : 8 * (i - off) + j < 16 := by omega
    simp [hplace, hlow, hpair]
  · rw [if_neg hin, getLsbD_byteOf _ _ hj]
    by_cases hlow : 8 * i + j < 8 * off
    · simp [hlow]
    · have hpair : 16 ≤ 8 * i + j - 8 * off := by omega
      have hnone : value.toBitVec.getLsbD (8 * i + j - 8 * off) = false :=
        BitVec.getLsbD_of_ge _ _ hpair
      have hmask : ¬ 8 * i + j - 8 * off < 16 := by omega
      simp [hlow, hmask, hnone]

/-! ## The pair in its word -/

namespace Memory

variable {m : Memory} {address base shift : UInt64}

/-- The word that covers a pair starts up to six bytes below it. -/
theorem covering?_eq_some (h : covering? address = some (base, shift)) :
    ∃ off, off ≤ 6 ∧ shift.toNat = 8 * off ∧ address = base + UInt64.ofNat off := by
  unfold covering? at h
  split at h
  · rename_i hle
    cases h
    have hle' : (address % 8).toNat ≤ 6 := UInt64.le_iff_toNat_le.mp hle
    refine ⟨(address % 8).toNat, hle', ?_, ?_⟩
    · rw [UInt64.toNat_mul, Nat.mul_comm]
      exact Nat.mod_eq_of_lt (show 8 * (address % 8).toNat < UInt64.size by
        simp only [UInt64.size]; omega)
    · rw [UInt64.ofNat_toNat, UInt64.sub_add_cancel]
  · cases h

theorem byteOf_value (m : Memory) (base : UInt64) {i : Nat} (hi : i < 8) :
    byteOf (m.value UInt64 base) i = m.byte (base + UInt64.ofNat i) := by
  have h : (List.range 8).map (byteOf (m.value UInt64 base)) = m.read base 8 := by
    rw [← toBytes_word]
    exact LittleEndian.toBytes_ofBytes _ (by simp [read, LittleEndian.width])
  exact List.map_inj_left.mp h i (List.mem_range.mpr hi)

theorem toBytes_covered (m : Memory) (h : covering? address = some (base, shift)) :
    LittleEndian.toBytes (m.value UInt64 base >>> shift).toUInt16 = m.read address 2 := by
  obtain ⟨off, hoff, hshift, rfl⟩ := covering?_eq_some h
  rw [toBytes_pair, read]
  refine List.map_inj_left.mpr fun i hi => ?_
  have hi2 : i < 2 := List.mem_range.mp hi
  rw [byteOf_toUInt16 _ hi2, byteOf_shiftRight hshift (by omega), byteOf_value m base (by omega),
    UInt64.ofNat_add, UInt64.add_assoc]

/-- Reading a pair in one access reads its two bytes. -/
theorem pair_eq_value (m : Memory) (address : UInt64) : m.pair address = m.value UInt16 address := by
  unfold pair
  split
  · rename_i base shift h
    rw [← LittleEndian.ofBytes_toBytes (m.value UInt64 base >>> shift).toUInt16,
      toBytes_covered m h]
    rfl
  · rfl

/-- Storing a covering word with the pair replaced stores the pair. -/
theorem store_covered (m : Memory) (value : UInt16) (h : covering? address = some (base, shift)) :
    m.store base ((m.value UInt64 base &&& ~~~(0xFFFF <<< shift)) ||| (value.toUInt64 <<< shift)) =
      m.store address value := by
  obtain ⟨off, hoff, hshift, rfl⟩ := covering?_eq_some h
  have hbyte : ∀ a, (m.store base ((m.value UInt64 base &&& ~~~(0xFFFF <<< shift)) |||
      (value.toUInt64 <<< shift))).byte a = (m.store (base + UInt64.ofNat off) value).byte a := by
    intro a
    have hplace := toNat_sub_behind a base (show off < UInt64.size by simp only [UInt64.size]; omega)
    have hsmall := (a - base).toNat_lt
    rw [store, store, toBytes_word, toBytes_pair, byte_write_map, byte_write_map, hplace]
    simp only [UInt64.size]
    by_cases hword : (a - base).toNat < 8
    · rw [if_pos hword, byteOf_replace hshift hoff value hword]
      by_cases hin : off ≤ (a - base).toNat ∧ (a - base).toNat < off + 2
      · have hwrap : (18446744073709551616 - off + (a - base).toNat) % 18446744073709551616 =
            (a - base).toNat - off := by omega
        rw [if_pos hin, hwrap, if_pos (by omega)]
      · rw [if_neg hin, if_neg (by omega), byteOf_value m base hword, add_ofNat_toNat_sub]
    · rw [if_neg hword, if_neg (by omega)]
  exact congrArg Memory.mk (funext hbyte)

/-- Replacing a pair in one access gives the pair that was there and stores
the two new bytes. -/
theorem swapPair_eq_store (m : Memory) (address : UInt64) (value : UInt16) :
    m.swapPair address value = (m.pair address, m.store address value) := by
  unfold swapPair pair
  split
  · rename_i base shift h
    exact Prod.ext rfl (store_covered m value h)
  · rfl

end Memory

end Reroute
