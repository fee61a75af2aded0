import Reroute.Machine.Memory
/-!
# Bytes that are stored and read back

Memory is changed by storing bytes from an address on, and looked at by reading
bytes from an address on. An address is placed by its distance from another one,
modulo the size of the address space, so nothing here cares whether a range runs
around the end of it.
-/

namespace Reroute

namespace Memory

variable {m m' : Memory} {address : UInt64}

/-! ## Where an address lies -/

theorem toNat_add_sub (address : UInt64) {i : Nat} (hi : i < UInt64.size) :
    (address + UInt64.ofNat i - address).toNat = i := by
  have h : address + UInt64.ofNat i - address = UInt64.ofNat i := by grind
  rw [h, UInt64.toNat_ofNat_of_lt' hi]

theorem add_ofNat_toNat_sub (base a : UInt64) : base + UInt64.ofNat (a - base).toNat = a := by
  rw [UInt64.ofNat_toNat, UInt64.add_comm, UInt64.sub_add_cancel]

/-- The place of an address behind one that is itself some bytes behind a base. -/
theorem toNat_sub_behind (a base : UInt64) {off : Nat} (hoff : off < UInt64.size) :
    (a - (base + UInt64.ofNat off)).toNat =
      (UInt64.size - off + (a - base).toNat) % UInt64.size := by
  have hsplit : a - (base + UInt64.ofNat off) = a - base - UInt64.ofNat off := by grind
  rw [hsplit, UInt64.toNat_sub, UInt64.toNat_ofNat_of_lt' hoff]

/-- Ranges whose starts are far enough from each other, either way round, have
no address in common. -/
theorem apart_of_distance {base base' a : UInt64} {length length' : Nat}
    (h : length ≤ (base' - base).toNat) (h' : length' ≤ (base - base').toNat)
    (ha : (a - base).toNat < length) : length' ≤ (a - base').toNat := by
  have hsplit : base' - base = (a - base) - (a - base') := by grind
  have hsplit' : base - base' = (a - base') - (a - base) := by grind
  rw [hsplit, UInt64.toNat_sub] at h
  rw [hsplit', UInt64.toNat_sub] at h'
  have hlt := (a - base).toNat_lt
  have hlt' := (a - base').toNat_lt
  omega

/-! ## Stored bytes -/

theorem byte_write (m : Memory) (address a : UInt64) (bytes : Bytes) :
    (m.write address bytes).byte a = (bytes[(a - address).toNat]?).getD (m.byte a) := by
  simp only [write]
  cases bytes[(a - address).toNat]? <;> rfl

/-- What a store leaves at an address if its bytes are given by their places. -/
theorem byte_write_map (m : Memory) (address a : UInt64) (count : Nat) (f : Nat → UInt8) :
    (m.write address ((List.range count).map f)).byte a =
      if (a - address).toNat < count then f (a - address).toNat else m.byte a := by
  rw [byte_write]
  split <;> rename_i h <;> simp [h]

theorem byte_write_of_length_le {a : UInt64} {bytes : Bytes}
    (h : bytes.length ≤ (a - address).toNat) : (m.write address bytes).byte a = m.byte a := by
  rw [byte_write, List.getElem?_eq_none h]
  rfl

/-- Two memories that differ at most in some bytes from an address on. -/
def SameOutside (address : UInt64) (length : Nat) (m m' : Memory) : Prop :=
  ∀ a, length ≤ (a - address).toNat → m'.byte a = m.byte a

theorem sameOutside_write (m : Memory) (address : UInt64) {bytes : Bytes} {length : Nat}
    (h : bytes.length ≤ length) : SameOutside address length m (m.write address bytes) :=
  fun _ ha => byte_write_of_length_le (Nat.le_trans h ha)

theorem SameOutside.trans {m'' : Memory} {length : Nat} (h : SameOutside address length m m')
    (h' : SameOutside address length m' m'') : SameOutside address length m m'' :=
  fun a ha => (h' a ha).trans (h a ha)

/-! ## Bytes that are read -/

@[simp] theorem length_read (m : Memory) (address : UInt64) (count : Nat) :
    (m.read address count).length = count := by
  simp [read]

theorem read_congr {count : Nat}
    (h : ∀ i, i < count → m.byte (address + UInt64.ofNat i) = m'.byte (address + UInt64.ofNat i)) :
    m.read address count = m'.read address count :=
  List.map_inj_left.mpr fun i hi => h i (List.mem_range.mp hi)

theorem read_write (m : Memory) (address : UInt64) (bytes : Bytes)
    (h : bytes.length ≤ UInt64.size) : (m.write address bytes).read address bytes.length = bytes := by
  refine List.ext_getElem (by simp) fun i hi hi' => ?_
  simp only [read, List.getElem_map, List.getElem_range, byte_write]
  rw [toNat_add_sub address (by omega), List.getElem?_eq_getElem hi']
  rfl

theorem value_eq_iff {α : Type} [LittleEndian α] {value : α} :
    m.value α address = value ↔
      m.read address (LittleEndian.width α) = LittleEndian.toBytes value := by
  constructor
  · rintro rfl
    exact (LittleEndian.toBytes_ofBytes _ (length_read ..)).symm
  · intro h
    rw [Memory.value, h, LittleEndian.ofBytes_toBytes]

theorem value_store {α : Type} [LittleEndian α] (m : Memory) (address : UInt64) (value : α)
    (hwidth : LittleEndian.width α ≤ UInt64.size) : (m.store address value).value α address = value := by
  have hread := read_write m address (LittleEndian.toBytes value)
    (Nat.le_trans (Nat.le_of_eq (LittleEndian.length_toBytes value)) hwidth)
  rw [LittleEndian.length_toBytes] at hread
  exact value_eq_iff.mpr hread

theorem toNat_value_word (m : Memory) (address : UInt64) :
    (m.value UInt64 address).toNat = Bytes.toNat (m.read address 8) := by
  have h := Bytes.toNat_lt (m.read address 8)
  rw [length_read] at h
  exact UInt64.toNat_ofNat_of_lt' h

/-- A displacement is the number of its four bytes, balanced around zero. -/
theorem toInt_value (m : Memory) (address : UInt64) :
    (m.value Int32 address).toInt =
      (Bytes.toNat (m.read address 4) : Int).bmod UInt32.size :=
  BitVec.toInt_ofNat ..

end Memory

end Reroute
