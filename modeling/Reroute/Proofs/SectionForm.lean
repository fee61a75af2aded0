import Reroute.Body.Section
import Reroute.Proofs.Reading
/-!
# The written form of exception sections

A clause is read back from its bytes in either layout, apart from the bits
of its flags that have no meaning; those bits say nothing of its kind. In
the thin layout this needs that the clause fits (`Clause.Fits`). A section
announces its layout and its size in its header (`Section.header_eq`), and
from these follows how many clauses there are.
-/

namespace Reroute

/-! ## Kinds -/

/-- Bits without a meaning do not count for the kind of a region. -/
theorem RegionFlags.contains_defined {bits : UInt16} {flag : RegionFlags}
    (h : 7 &&& flag.bits = flag.bits) :
    (RegionFlags.defined bits).contains flag = (RegionFlags.mk bits).contains flag := by
  rw [contains, contains, defined, UInt16.and_assoc, h]

theorem Region.kind_defined {r r' : Region} (h : r'.flags = .defined r.flags.bits) :
    r'.kind = r.kind := by
  rw [kind, kind, h, RegionFlags.contains_defined rfl, RegionFlags.contains_defined rfl,
    RegionFlags.contains_defined rfl]

/-! ## Clauses -/

namespace Clause

open Section (Layout)

/-- Each field of a clause fits its width in a layout. -/
def Fits (layout : Layout) (k : Clause) : Prop :=
  layout = .thin → k.tryOffset.toNat ≤ 0xFFFF ∧ k.tryLength.toNat ≤ 0xFF ∧
    k.handlerOffset.toNat ≤ 0xFFFF ∧ k.handlerLength.toNat ≤ 0xFF

/-- A clause without the bits of its flags that have no meaning. -/
def defined (k : Clause) : Clause := { k with flags := .defined k.flags.bits }

theorem length_encode (layout : Layout) (k : Clause) :
    (k.encode layout).length = layout.clauseSize := by
  cases layout <;>
    simp only [encode, List.length_append, LittleEndian.length_toBytes] <;> rfl

theorem toUInt32_toUInt16 {v : UInt32} (h : v.toNat ≤ 0xFFFF) : v.toUInt16.toUInt32 = v := by
  apply UInt32.toNat.inj
  rw [UInt16.toNat_toUInt32, UInt32.toNat_toUInt16]
  exact Nat.mod_eq_of_lt (Nat.lt_succ_of_le h)

theorem toUInt32_toUInt8 {v : UInt32} (h : v.toNat ≤ 0xFF) : v.toUInt8.toUInt32 = v := by
  apply UInt32.toNat.inj
  rw [UInt8.toNat_toUInt32, UInt32.toNat_toUInt8]
  exact Nat.mod_eq_of_lt (Nat.lt_succ_of_le h)

theorem read_eq_ok {layout : Layout} {k : Clause} {c c' : Cursor} (hfits : k.Fits layout)
    (hpass : c.Passes (k.encode layout) c') : read layout c = (.ok k.defined, c') := by
  cases layout with
  | thin =>
      obtain ⟨htryOffset, htryLength, hhandlerOffset, hhandlerLength⟩ := hfits rfl
      simp only [encode, Cursor.passes_append_iff] at hpass
      obtain ⟨c₅, ⟨c₄, ⟨c₃, ⟨c₂, ⟨c₁, h₁, h₂⟩, h₃⟩, h₄⟩, h₅⟩, h₆⟩ := hpass
      simp only [read, bind_eq_ok_iff, Reader.value_eq_ok_iff, pure_eq_ok_iff]
      refine ⟨_, c₁, h₁, _, c₂, h₂, _, c₃, h₃, _, c₄, h₄, _, c₅, h₅, _, c', h₆, ?_, rfl⟩
      rw [toUInt32_toUInt16 htryOffset, toUInt32_toUInt8 htryLength,
        toUInt32_toUInt16 hhandlerOffset, toUInt32_toUInt8 hhandlerLength]
      rfl
  | fat =>
      simp only [encode, Cursor.passes_append_iff] at hpass
      obtain ⟨c₅, ⟨c₄, ⟨c₃, ⟨c₂, ⟨c₁, h₁, h₂⟩, h₃⟩, h₄⟩, h₅⟩, h₆⟩ := hpass
      simp only [read, bind_eq_ok_iff, Reader.value_eq_ok_iff, pure_eq_ok_iff]
      refine ⟨_, c₁, h₁, _, c₂, h₂, _, c₃, h₃, _, c₄, h₄, _, c₅, h₅, _, c', h₆, ?_, rfl⟩
      rw [UInt16.toUInt16_toUInt32]
      rfl

theorem toRegion_flags (k : Clause) : k.toRegion.flags = k.flags := by
  unfold toRegion
  dsimp only
  split <;> rfl

theorem toRegion_places (k : Clause) :
    k.toRegion.tryOffset = k.tryOffset ∧ k.toRegion.tryLength = k.tryLength ∧
      k.toRegion.handlerOffset = k.handlerOffset ∧
      k.toRegion.handlerLength = k.handlerLength := by
  unfold toRegion
  dsimp only
  split <;> exact ⟨rfl, rfl, rfl, rfl⟩

/-- The kind of a region is found before its last field is set. -/
theorem kind_toRegion (k : Clause) :
    k.toRegion.kind =
      (Region.ofFlags k.flags k.tryOffset k.tryLength k.handlerOffset k.handlerLength).kind := by
  rw [Region.kind, Region.kind, k.toRegion_flags]
  rfl

theorem toRegion_catchType {k : Clause} (h : k.toRegion.kind = .catchClause) :
    k.toRegion.catchType = some ⟨k.trailer⟩ := by
  rw [kind_toRegion] at h
  unfold toRegion
  dsimp only
  rw [h]

theorem toRegion_filterOffset {k : Clause} (h : k.toRegion.kind = .filterClause) :
    k.toRegion.filterOffset = k.trailer := by
  rw [kind_toRegion] at h
  unfold toRegion
  dsimp only
  rw [h]

theorem toRegion_catchType_eq_none {k : Clause} (h : k.toRegion.kind ≠ .catchClause) :
    k.toRegion.catchType = none := by
  rw [kind_toRegion] at h
  unfold toRegion
  dsimp only
  split
  all_goals first
    | contradiction
    | rfl

theorem toRegion_filterOffset_eq_zero {k : Clause} (h : k.toRegion.kind ≠ .filterClause) :
    k.toRegion.filterOffset = 0 := by
  rw [kind_toRegion] at h
  unfold toRegion
  dsimp only
  split
  all_goals first
    | contradiction
    | rfl

end Clause

/-! ## Sections -/

namespace Section

/-- The bytes of clauses behind each other. -/
def encodeClauses (layout : Layout) (clauses : List Clause) : Bytes :=
  (clauses.map (Clause.encode layout)).flatten

theorem length_encodeClauses (layout : Layout) (clauses : List Clause) :
    (encodeClauses layout clauses).length = clauses.length * layout.clauseSize := by
  induction clauses with
  | nil => rw [List.length_nil, Nat.zero_mul]; rfl
  | cons k rest ih =>
      have hcons : encodeClauses layout (k :: rest) =
          k.encode layout ++ encodeClauses layout rest := rfl
      rw [hcons, List.length_append, Clause.length_encode, ih, List.length_cons, Nat.succ_mul,
        Nat.add_comm]

/-- The byte that a header starts with. -/
def headerFlags : Layout → UInt8
  | .thin => tableFlag
  | .fat => tableFlag ||| fatFlag

/-- How many bytes of a header hold the size of the section. -/
def Layout.sizeWidth : Layout → Nat
  | .thin => 1
  | .fat => 3

theorem count_sizeWidth (layout : Layout) : Bytes.count layout.sizeWidth = layout.maxSize + 1 := by
  cases layout <;> rfl

/-- Behind the flags of a header is the size, and zeros up to four bytes. -/
theorem header_eq (layout : Layout) (count : Nat) :
    header layout count = headerFlags layout ::
      (Bytes.ofNat layout.sizeWidth (layout.sectionSize count) ++
        List.replicate (3 - layout.sizeWidth) 0) := by
  cases layout <;> simp [header, headerFlags, Layout.sizeWidth, Bytes.ofNat]

end Section

end Reroute
