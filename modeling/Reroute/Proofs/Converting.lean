import Mathlib.Data.Int.ModEq
import Reroute.Proofs.Invoking
/-!
# What conversion does to numbers

A value is converted by way of a word of 64 bits, which is told to be signed on
one side and cut to a width on the other. What comes out has nothing to do with
the word: a number of any type becomes the number of the type asked for that is
congruent to it (`Value.Converted`). There is one such number, as a type of some
width has as many numbers in a row as there are words of that width
(`IntegerType.eq_of_modEq`).
-/

namespace Reroute

/-! ## Types of integers -/

/-- Integers of a width in bits, with or without a sign. -/
structure IntegerType where
  width : Nat
  signed : Bool
  deriving Repr, DecidableEq

namespace IntegerType

/-- The least number of the type. -/
def least (t : IntegerType) : Int := if t.signed then -2 ^ (t.width - 1) else 0

/-- The number is one of the type. -/
def Contains (t : IntegerType) (n : Int) : Prop := t.least ≤ n ∧ n < t.least + 2 ^ t.width

theorem eq_of_modEq {t : IntegerType} {n k : Int} (hn : t.Contains n) (hk : t.Contains k)
    (h : n ≡ k [ZMOD 2 ^ t.width]) : n = k := by
  obtain ⟨hn, hn'⟩ := hn
  obtain ⟨hk, hk'⟩ := hk
  have hdvd : (2 ^ t.width : Int) ∣ k - n := h.dvd
  have habs : |k - n| < 2 ^ t.width := abs_lt.mpr ⟨by omega, by omega⟩
  have hzero := Int.eq_zero_of_abs_lt_dvd hdvd habs
  omega

theorem unsigned_mod {width n k : Nat} (h : n = k % 2 ^ width) :
    Contains ⟨width, false⟩ n ∧ (n : Int) ≡ k [ZMOD 2 ^ width] := by
  have hlt : n < 2 ^ width := h ▸ Nat.mod_lt k (Nat.two_pow_pos width)
  refine ⟨⟨Int.natCast_nonneg n, ?_⟩, ?_⟩
  · rw [least, if_neg Bool.false_ne_true, Int.zero_add]
    exact_mod_cast hlt
  · rw [h]
    push_cast
    exact Int.mod_modEq _ _

theorem signed_bmod {width k : Nat} {n : Int} (hwidth : 0 < width)
    (h : n = (k : Int).bmod (2 ^ width)) :
    Contains ⟨width, true⟩ n ∧ n ≡ k [ZMOD 2 ^ width] := by
  obtain ⟨half, rfl⟩ := Nat.exists_eq_add_of_lt hwidth
  have hlow := Int.le_bmod (x := k) (m := 2 ^ (0 + half + 1)) (Nat.two_pow_pos _)
  have hhigh := Int.bmod_lt (x := k) (m := 2 ^ (0 + half + 1)) (Nat.two_pow_pos _)
  rw [← h] at hlow hhigh
  rw [Nat.pow_succ] at hlow hhigh
  refine ⟨⟨?_, ?_⟩, ?_⟩
  · rw [least, if_pos rfl, Nat.add_sub_cancel]
    push_cast at hlow ⊢
    omega
  · rw [least, if_pos rfl, Nat.add_sub_cancel]
    push_cast at hhigh ⊢
    rw [pow_succ]
    omega
  · rw [h]
    have := Int.bmod_emod (x := k) (m := 2 ^ (0 + half + 1))
    push_cast at this
    exact this

end IntegerType

/-- What the conversion to an element type is about. -/
inductive ElementKind where
  | void
  | boolean
  | integer (type : IntegerType)
  | float
  | handle
  deriving Repr, DecidableEq

/-- The kind of an element type. -/
def ElementType.kind : ElementType → ElementKind
  | .void => .void
  | .boolean => .boolean
  | .char | .u2 => .integer ⟨16, false⟩
  | .i1 => .integer ⟨8, true⟩
  | .u1 => .integer ⟨8, false⟩
  | .i2 => .integer ⟨16, true⟩
  | .i4 => .integer ⟨32, true⟩
  | .u4 => .integer ⟨32, false⟩
  | .i8 | .i => .integer ⟨64, true⟩
  | .u8 | .u => .integer ⟨64, false⟩
  | .r4 | .r8 => .float
  | .string | .ptr | .valueType | .classType | .fnPtr | .object | .szArray => .handle

namespace Value

/-! ## What values are -/

/-- The number that a character or an integer is. -/
def number? : Value → Option Int
  | .char value | .u2 value => some value.toNat
  | .i1 value => some value.toInt
  | .u1 value => some value.toNat
  | .i2 value => some value.toInt
  | .i4 value => some value.toInt
  | .u4 value => some value.toNat
  | .i8 value | .int value => some value.toInt
  | .u8 value | .uint value => some value.toNat
  | .null | .bool _ | .r4 _ | .r8 _ | .ref _ | .str _ => none

/-- The element type that a character or an integer is of. -/
def integerType? : Value → Option ElementType
  | .char _ => some .char
  | .i1 _ => some .i1
  | .u1 _ => some .u1
  | .i2 _ => some .i2
  | .u2 _ => some .u2
  | .i4 _ => some .i4
  | .u4 _ => some .u4
  | .i8 _ => some .i8
  | .u8 _ => some .u8
  | .int _ => some .i
  | .uint _ => some .u
  | .null | .bool _ | .r4 _ | .r8 _ | .ref _ | .str _ => none

/-- The value is the integer of an element type. -/
structure IsInteger (v : Value) (e : ElementType) (n : Int) : Prop where
  type : v.integerType? = some e
  number : v.number? = some n

/-- The value goes for a handle. -/
inductive IsHandle : Value → UInt64 → Prop where
  | null : IsHandle .null 0
  | ref (handle : UInt64) : IsHandle (.ref handle) handle
  | int (handle : Int64) : IsHandle (.int handle) handle.toUInt64
  | uint (handle : UInt64) : IsHandle (.uint handle) handle

/-- The value is a string where strings are kept. -/
def IsText (v : Value) (e : ElementType) : Prop :=
  (e = .string ∨ e = .object ∨ e = .classType) ∧ ∃ text, v = .str text

/-- A conversion by the kind of the type that is asked for. -/
structure Converted (v : Value) (e : ElementType) : Prop where
  void : e.kind = .void → v.convert e = .ok .null
  boolean : e.kind = .boolean → ∀ value, v = .bool value → v.convert e = .ok (.bool value)
  integer : ∀ t, e.kind = .integer t → ∀ n, v.number? = some n → ∃ w m, v.convert e = .ok w ∧
    w.IsInteger e m ∧ t.Contains m ∧ m ≡ n [ZMOD 2 ^ t.width] ∧
      ∀ k, t.Contains k → k ≡ n [ZMOD 2 ^ t.width] → k = m
  handle : e.kind = .handle → ∀ word, v.IsHandle word →
    v.convert e = .ok (if word = 0 then .null else .ref word)
  text : v.IsText e → v.convert e = .ok v
  mismatch : (e.kind = .boolean ∧ ∀ value, v ≠ .bool value) ∨
      (∃ t, e.kind = .integer t ∧ v.number? = none) ∨
      (e.kind = .handle ∧ (∀ word, ¬v.IsHandle word) ∧ ¬v.IsText e) →
    v.convert e = .error (.typeMismatch e v.typeName)

/-! ## Words -/

/-- The lowest bits of a word. -/
def lowBits (width : Nat) (word : UInt64) : UInt64 := UInt64.ofNat (word.toNat % 2 ^ width)

theorem toNat_lowBits (width : Nat) (word : UInt64) :
    (lowBits width word).toNat = word.toNat % 2 ^ width :=
  UInt64.toNat_ofNat_of_lt' (Nat.lt_of_le_of_lt (Nat.mod_le ..) word.toNat_lt)

theorem lowBits_eq_iff {width : Nat} {word word' : UInt64} :
    lowBits width word = lowBits width word' ↔ word.toNat ≡ word'.toNat [MOD 2 ^ width] := by
  rw [← UInt64.toNat_inj, toNat_lowBits, toNat_lowBits]
  rfl

theorem lowBits_of_le {width : Nat} (h : 64 ≤ width) (word : UInt64) :
    lowBits width word = word := by
  have hlt : word.toNat < 2 ^ width :=
    Nat.lt_of_lt_of_le word.toNat_lt (Nat.pow_le_pow_right (by decide) h)
  rw [lowBits, Nat.mod_eq_of_lt hlt, UInt64.ofNat_toNat]

theorem lowBits_lowBits (width : Nat) (word : UInt64) :
    lowBits width (lowBits width word) = lowBits width word := by
  rw [lowBits_eq_iff, toNat_lowBits]
  exact Nat.mod_modEq _ _

theorem and_eq_lowBits {mask : UInt64} {width : Nat} (h : mask.toNat = 2 ^ width - 1)
    (word : UInt64) : word &&& mask = lowBits width word := by
  rw [← UInt64.toNat_inj, UInt64.toNat_and, h, Nat.and_two_pow_sub_one_eq_mod, toNat_lowBits]

/-! ## Words of numbers -/

theorem modEq_toUInt64 (x : Int64) : (x.toUInt64.toNat : Int) ≡ x.toInt [ZMOD 2 ^ 64] := by
  have h : x.toInt = (x.toUInt64.toNat : Int).bmod (2 ^ 64) := BitVec.toInt_eq_toNat_bmod _
  rw [h]
  exact (Int.bmod_emod ..).symm

/-- Integers and characters have words, and nothing else has. -/
theorem integer?_cases (v : Value) : (v.number? = none ∧ v.integer? = none) ∨
    ∃ n word, v.number? = some n ∧ v.integer? = some word ∧
      (word.toNat : Int) ≡ n [ZMOD 2 ^ 64] := by
  cases v with
  | null | bool | r4 | r8 | ref | str => exact .inl ⟨rfl, rfl⟩
  | char x | u2 x => exact .inr ⟨_, _, rfl, rfl, by simp⟩
  | u1 x | u4 x | u8 x | uint x => exact .inr ⟨_, _, rfl, rfl, by simp⟩
  | i8 x | int x => exact .inr ⟨_, _, rfl, rfl, modEq_toUInt64 x⟩
  | i1 x => exact .inr ⟨_, _, rfl, rfl, x.toInt_toInt64 ▸ modEq_toUInt64 x.toInt64⟩
  | i2 x => exact .inr ⟨_, _, rfl, rfl, x.toInt_toInt64 ▸ modEq_toUInt64 x.toInt64⟩
  | i4 x => exact .inr ⟨_, _, rfl, rfl, x.toInt_toInt64 ▸ modEq_toUInt64 x.toInt64⟩

variable {e : ElementType} {t : IntegerType}

theorem width_le (h : e.kind = .integer t) : t.width ≤ 64 := by
  cases e <;> cases h <;> decide

theorem bits?_of_integer (h : e.kind = .integer t) (v : Value) :
    v.bits? e = v.integer?.map (lowBits t.width) := by
  have hwhole : (fun word => word) = lowBits 64 :=
    funext fun word => (lowBits_of_le (Nat.le_refl 64) word).symm
  cases e <;> cases h
  case i8 | u8 | i | u =>
    rw [← hwhole]
    exact Option.map_id'.symm
  all_goals exact congrArg v.integer?.map (funext fun word => and_eq_lowBits rfl word)

/-- A word holds the number of a type that is congruent to it. -/
theorem exists_number_ofBits (h : e.kind = .integer t) (word : UInt64) :
    ∃ m, (ofBits e word).IsInteger e m ∧ t.Contains m ∧ m ≡ word.toNat [ZMOD 2 ^ t.width] := by
  -- The unsigned types take the word modulo their width, the signed ones balance it around zero.
  cases e <;> cases h
  case char => exact ⟨_, ⟨rfl, rfl⟩, IntegerType.unsigned_mod word.toNat_toUInt16⟩
  case u2 => exact ⟨_, ⟨rfl, rfl⟩, IntegerType.unsigned_mod word.toNat_toUInt16⟩
  case u1 => exact ⟨_, ⟨rfl, rfl⟩, IntegerType.unsigned_mod word.toNat_toUInt8⟩
  case u4 => exact ⟨_, ⟨rfl, rfl⟩, IntegerType.unsigned_mod word.toNat_toUInt32⟩
  case u8 | u =>
    exact ⟨_, ⟨rfl, rfl⟩, IntegerType.unsigned_mod (Nat.mod_eq_of_lt word.toNat_lt).symm⟩
  case i1 | i2 | i4 =>
    exact ⟨_, ⟨rfl, rfl⟩,
      IntegerType.signed_bmod (by decide) (BitVec.toInt_setWidth word.toBitVec)⟩
  case i8 | i =>
    exact ⟨_, ⟨rfl, rfl⟩,
      IntegerType.signed_bmod (by decide) (BitVec.toInt_eq_toNat_bmod word.toBitVec)⟩

/-! ## Conversion -/

variable {v w : Value} {word : UInt64}

theorem bits_eq_ok_iff : v.bits e = .ok word ↔ v.bits? e = some word := by
  unfold bits
  cases v.bits? e with
  | none => simp
  | some word' => simp

theorem convert_of_bits (h : v.bits? e = some word) :
    v.convert e = .ok (ofBits e word) := by
  unfold convert
  split
  case h_4 =>
    rw [bits_eq_ok_iff.mpr h]
    rfl
  -- A string has no word as one of these types.
  all_goals cases h

theorem convert_of_text (h : v.IsText e) : v.convert e = .ok v := by
  obtain ⟨rfl | rfl | rfl, text, rfl⟩ := h <;> rfl

/-- What a value converts to is the string that it is, or what its word holds. -/
theorem convert_eq_ok_iff : v.convert e = .ok w ↔
    v.IsText e ∧ w = v ∨ ∃ word, v.bits? e = some word ∧ w = ofBits e word := by
  constructor
  · intro h
    unfold convert at h
    split at h
    case h_4 =>
      obtain ⟨word, hword, hw⟩ := answer_bind_eq_ok_iff.mp h
      exact .inr ⟨word, bits_eq_ok_iff.mp hword, (Except.ok.inj hw).symm⟩
    all_goals
      cases h
      exact .inl ⟨⟨by simp, _, rfl⟩, rfl⟩
  · rintro (⟨htext, rfl⟩ | ⟨word, hword, rfl⟩)
    · exact convert_of_text htext
    · exact convert_of_bits hword

theorem convert_of_none (hbits : v.bits? e = none) (htext : ¬v.IsText e) :
    v.convert e = .error (.typeMismatch e v.typeName) := by
  cases h : v.convert e with
  | error _ => rw [convert_eq_error h]
  | ok w =>
      rcases convert_eq_ok_iff.mp h with ⟨hv, -⟩ | ⟨word, hword, -⟩
      · exact absurd hv htext
      · rw [hbits] at hword
        cases hword

theorem handle?_eq_some_iff : v.handle? = some word ↔ v.IsHandle word := by
  constructor
  · intro h
    cases v <;> cases h <;> constructor
  · rintro ⟨⟩ <;> rfl

theorem bits?_of_handle (h : e.kind = .handle) (v : Value) : v.bits? e = v.handle? := by
  cases e <;> cases h <;> rfl

theorem ofBits_of_handle (h : e.kind = .handle) (word : UInt64) :
    ofBits e word = if word = 0 then .null else .ref word := by
  cases e <;> cases h <;> rfl

theorem bits?_boolean_eq_some_iff : v.bits? .boolean = some word ↔
    ∃ value, v = .bool value ∧ word = if value then 1 else 0 := by
  cases v <;> simp [bits?, eq_comm]

theorem not_isText (h : e.kind ≠ .handle) : ¬v.IsText e := by
  rintro ⟨rfl | rfl | rfl, -⟩ <;> exact h rfl

/-- A number becomes the one of the type that is congruent to it. -/
theorem exists_convert_of_number (h : e.kind = .integer t) {n : Int} (hn : v.number? = some n) :
    ∃ w m, v.convert e = .ok w ∧ w.IsInteger e m ∧ t.Contains m ∧ m ≡ n [ZMOD 2 ^ t.width] := by
  rcases integer?_cases v with ⟨hnone, -⟩ | ⟨k, word, hk, hword, hmod⟩
  · rw [hnone] at hn
    cases hn
  obtain rfl : k = n := Option.some.inj (hk.symm.trans hn)
  have hbits : v.bits? e = some (lowBits t.width word) := by
    rw [bits?_of_integer h, hword, Option.map_some]
  obtain ⟨m, hm, hcontains, hlow⟩ := exists_number_ofBits h (lowBits t.width word)
  -- The number, its word and what is left of the word are congruent modulo the width.
  have hcut : ((lowBits t.width word).toNat : Int) ≡ word.toNat [ZMOD 2 ^ t.width] := by
    rw [toNat_lowBits]
    push_cast
    exact Int.mod_modEq _ _
  have hdvd : (2 ^ t.width : Int) ∣ 2 ^ 64 := pow_dvd_pow 2 (width_le h)
  exact ⟨_, m, convert_of_bits hbits, hm, hcontains,
    (hlow.trans hcut).trans (hmod.of_dvd hdvd)⟩

theorem bits?_of_number?_eq_none (h : e.kind = .integer t) (hv : v.number? = none) :
    v.bits? e = none := by
  rcases integer?_cases v with ⟨-, hnone⟩ | ⟨n, word, hn, -⟩
  · rw [bits?_of_integer h, hnone, Option.map_none]
  · rw [hv] at hn
    cases hn

/-- Every value, as one of every type that is not a float. -/
theorem converted_by_kind (v : Value) (e : ElementType) : Converted v e where
  void h := by
    cases e <;> cases h
    exact convert_void v
  boolean h value hv := by
    cases e <;> cases h
    subst hv
    cases value <;> rfl
  integer t h n hn := by
    obtain ⟨w, m, hw, hm, hcontains, hmod⟩ := exists_convert_of_number h hn
    exact ⟨w, m, hw, hm, hcontains, hmod, fun k hk hk' =>
      IntegerType.eq_of_modEq hk hcontains (hk'.trans hmod.symm)⟩
  handle h word hv := by
    rw [convert_of_bits ((bits?_of_handle h v).trans (handle?_eq_some_iff.mpr hv)),
      ofBits_of_handle h]
  text := convert_of_text
  mismatch := by
    rintro (⟨h, hv⟩ | ⟨t, h, hv⟩ | ⟨h, hv, htext⟩)
    · refine convert_of_none (Option.eq_none_iff_forall_ne_some.mpr fun word hword => ?_)
        (not_isText (by rw [h]; decide))
      cases e <;> cases h
      obtain ⟨value, rfl, -⟩ := bits?_boolean_eq_some_iff.mp hword
      exact hv value rfl
    · exact convert_of_none (bits?_of_number?_eq_none h hv) (not_isText (by rw [h]; nofun))
    · refine convert_of_none (Option.eq_none_iff_forall_ne_some.mpr fun word hword => ?_) htext
      rw [bits?_of_handle h, handle?_eq_some_iff] at hword
      exact hv word hword

/-- A number above the signed ones of 64 bits, as one of 16 bits. -/
example : (Value.u8 0xFFFFFFFFFFFF8000).convert .i2 = .ok (.i2 (-0x8000)) := rfl

end Value

end Reroute
