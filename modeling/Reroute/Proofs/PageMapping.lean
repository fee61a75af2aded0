import Reroute.Machine.Pages
/-!
# Ranges that can be protected

Protection is changed page by page, and stops at the first page that is not
mapped. So it goes through exactly if the range has a page range at all and
every byte of it is mapped, where an empty range counts as the byte at its
address (`protect_ok_iff`). Changing the protection of a page neither maps nor
unmaps one, which is what carries the induction on the pages.
-/

namespace Reroute

namespace Pages

variable {p p' : Pages} {address : UInt64} {length : Nat} {protection : Protection}

/-- Every byte of a range is in a mapped page, and the end of the range can be
rounded up to a whole page. -/
structure Mapped (p : Pages) (address : UInt64) (length : Nat) : Prop where
  fits : address.toNat + length + (pageSize - 1) < UInt64.size
  mapped : ∀ i, i < length → (p.protection? (pageOf (address + UInt64.ofNat i))).isSome

theorem protection?_set (page n : Nat) :
    (p.set page protection).protection? n = if n = page then some protection else p.protection? n :=
  rfl

theorem isSome_set (page n : Nat) (h : (p.protection? page).isSome) :
    ((p.set page protection).protection? n).isSome = (p.protection? n).isSome := by
  rw [protection?_set]
  split
  · rename_i heq
    rw [heq, h]
    rfl
  · rfl

/-- Changing consecutive pages succeeds exactly if all of them are mapped. -/
theorem change_ok_iff (first count : Nat) :
    (∃ p', change protection first count p = (.ok (), p')) ↔
      ∀ n, first ≤ n → n < first + count → (p.protection? n).isSome := by
  induction count generalizing p first with
  | zero =>
      refine ⟨fun _ n hle hlt => by omega, fun _ => ⟨p, rfl⟩⟩
  | succ count ih =>
      simp only [change]
      split
      · rename_i old hold
        have hfirst : (p.protection? first).isSome := by simp [hold]
        simp only [ih, isSome_set first _ hfirst]
        constructor
        · intro h n hle hlt
          by_cases hn : n = first
          · rw [hn, hfirst]
          · exact h n (by omega) (by omega)
        · intro h n hle hlt
          exact h n (by omega) (by omega)
      · rename_i hnone
        constructor
        · rintro ⟨p', h⟩
          cases h
        · intro h
          have := h first (by omega) (by omega)
          simp [hnone] at this

/-- A page holds a byte of a range. -/
def Overlaps (address : UInt64) (length page : Nat) : Prop :=
  ∃ i < length, pageOf (address + UInt64.ofNat i) = page

/-- The pages that hold a byte of a range follow one another. -/
theorem overlaps_iff (hpos : 0 < length)
    (hfits : address.toNat + length + (pageSize - 1) < UInt64.size) {page : Nat} :
    Overlaps address length page ↔
      pageOf address ≤ page ∧ page < (address.toNat + length + (pageSize - 1)) / pageSize := by
  have hpage : ∀ i, i < length →
      pageOf (address + UInt64.ofNat i) = (address.toNat + i) / pageSize := by
    intro i hi
    have hi' : i < UInt64.size := by omega
    rw [pageOf, UInt64.toNat_add, UInt64.toNat_ofNat_of_lt' hi', Nat.mod_eq_of_lt]
    exact Nat.lt_of_le_of_lt (by omega) hfits
  have hfirst : pageOf address = address.toNat / pageSize := rfl
  simp only [pageSize] at *
  constructor
  · rintro ⟨i, hi, rfl⟩
    have := hpage i hi
    omega
  · rintro ⟨hle, hlt⟩
    -- the first byte of the range that lies in the page
    have hi : page * 4096 - address.toNat < length := by omega
    refine ⟨page * 4096 - address.toNat, hi, ?_⟩
    have := hpage _ hi
    omega

theorem forall_overlaps_iff {P : Nat → Prop} :
    (∀ page, Overlaps address length page → P page) ↔
      ∀ i, i < length → P (pageOf (address + UInt64.ofNat i)) := by
  constructor
  · intro h i hi
    exact h _ ⟨i, hi, rfl⟩
  · rintro h page ⟨i, hi, rfl⟩
    exact h i hi

theorem mapped_iff_overlaps : p.Mapped address length ↔
    address.toNat + length + (pageSize - 1) < UInt64.size ∧
      ∀ page, Overlaps address length page → (p.protection? page).isSome := by
  rw [forall_overlaps_iff]
  exact ⟨fun h => ⟨h.fits, h.mapped⟩, fun h => ⟨h.1, h.2⟩⟩

theorem pageOf_le_behind (address : UInt64) (length : Nat) :
    pageOf address ≤ (address.toNat + length + (pageSize - 1)) / pageSize :=
  Nat.div_le_div_right (by omega)

theorem range_eq_ok_iff {pages : Nat × Nat} :
    range address length = .ok pages ↔
      address.toNat + max length 1 + (pageSize - 1) < UInt64.size ∧
        pages = (pageOf address, (address.toNat + max length 1 + (pageSize - 1)) / pageSize) := by
  unfold range
  dsimp only
  split
  · rename_i hfits
    refine ⟨fun h => ⟨hfits, ?_⟩, fun h => by rw [h.2]⟩
    cases h
    rfl
  · rename_i hfits
    exact ⟨(fun h => by cases h), fun h => absurd h.1 hfits⟩

/-- The protection of a range can be changed exactly if the range is mapped,
where an empty one counts as the byte at its address. -/
theorem protect_ok_iff (p : Pages) (address : UInt64) (length : Nat) (protection : Protection) :
    (∃ p', p.protect address length protection = (.ok (), p')) ↔
      p.Mapped address (max length 1) := by
  unfold protect
  split
  · rename_i first behind h
    obtain ⟨hfits, hpages⟩ := range_eq_ok_iff.mp h
    cases hpages
    rw [change_ok_iff, Nat.add_sub_cancel' (pageOf_le_behind ..), mapped_iff_overlaps]
    simp only [overlaps_iff (show 0 < max length 1 by omega) hfits, and_imp]
    exact ⟨fun h => ⟨hfits, h⟩, And.right⟩
  · rename_i error h
    constructor
    · rintro ⟨p', hok⟩
      cases hok
    · intro hmapped
      have hok := range_eq_ok_iff.mpr ⟨hmapped.fits, rfl⟩
      rw [h] at hok
      cases hok

end Pages

namespace PageGuard

theorem unprotect_ok_iff (p : Pages) (address : UInt64) (length : Nat) (restore : Bool) :
    (∃ pageGuard p', unprotect address length restore p = (.ok pageGuard, p')) ↔
      p.Mapped address (max length 1) := by
  rw [← p.protect_ok_iff address length .all]
  unfold unprotect
  rcases p.protect address length .all with ⟨answer, p'⟩
  cases answer with
  | ok _ => simp
  | error error => simp

end PageGuard

end Reroute
