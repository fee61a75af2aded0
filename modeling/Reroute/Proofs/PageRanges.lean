import Mathlib.Order.Bounds.Basic
import Reroute.Machine.PageSize
import Reroute.Proofs.PageKeeping
/-!
# Ranges of whole pages

A page is the addresses from one multiple of the page size to the next, and it shares a
byte with a range if one of these is in it (`PageSize.Shares`). The pages that do are the
ones from the page of the first byte up to, not including, the page of the end rounded up
(`shares_iff`), so it is enough to know what clearing the low bits of a word does to the
number it denotes (`toNat_floor`).

Everything is said for any power of two. The pages that patches are made on have one
certain size, and for it the words of `PageSize` say what the numbers of `Pages` do.
-/

namespace Reroute

/-! ## Changing consecutive pages -/

namespace Pages

variable {p : Pages} {protection : Protection}

theorem change_ne_impossible (first count : Nat) (text : String) :
    (change protection first count p).1 ≠ .error (.impossible text) := by
  induction count generalizing p first with
  | zero =>
      intro h
      cases h
  | succ count ih =>
      simp only [change]
      split
      · exact ih _
      · intro h
        cases h

/-- Also if a page is met that cannot be changed. -/
theorem protection?_change_outside (first count : Nat) {page : Nat}
    (h : ¬ (first ≤ page ∧ page < first + count)) :
    (change protection first count p).2.protection? page = p.protection? page := by
  induction count generalizing p first with
  | zero => rfl
  | succ count ih =>
      simp only [change]
      split
      · rw [ih _ (by omega), protection?_set, if_neg (by omega)]
      · rfl

theorem protect_of_overflows {address : UInt64} {length : Nat}
    (h : UInt64.size ≤ address.toNat + max length 1 + (pageSize - 1)) :
    p.protect address length protection = (.error (.impossible
      ("range 0x" ++ Text.hex address.toNat ++ "+" ++ toString length ++ " overflows")), p) := by
  unfold protect range
  dsimp only
  rw [if_neg (Nat.not_lt.mpr h)]

end Pages

namespace PageSize

open Pages

variable {page : PageSize} {address length : UInt64} {protection : Protection} {p p' : Pages}

/-! ## Rounding down -/

theorem word_pos (page : PageSize) : 0 < page.word.toNat := by
  obtain ⟨exponent, h⟩ := page.isPower
  rw [h]
  exact Nat.two_pow_pos exponent

/-- What a mask keeps of a word and what it clears add up to the word. -/
theorem toNat_mask_partition (word mask : UInt64) :
    (word &&& ~~~mask).toNat + (word &&& mask).toNat = word.toNat := by
  have hdisjoint :
      (word.toBitVec &&& ~~~mask.toBitVec) &&& (word.toBitVec &&& mask.toBitVec) = 0 := by
    ext i
    simp only [BitVec.getElem_and, BitVec.getElem_not]
    cases word.toBitVec[i] <;> cases mask.toBitVec[i] <;> simp
  have hjoin : (word.toBitVec &&& ~~~mask.toBitVec) ||| (word.toBitVec &&& mask.toBitVec) =
      word.toBitVec := by
    ext i
    simp only [BitVec.getElem_or, BitVec.getElem_and, BitVec.getElem_not]
    cases word.toBitVec[i] <;> cases mask.toBitVec[i] <;> rfl
  have hsum := BitVec.toNat_add_of_and_eq_zero hdisjoint
  rw [BitVec.add_eq_or_of_and_eq_zero _ _ hdisjoint, hjoin] at hsum
  exact hsum.symm

theorem toNat_pred (page : PageSize) : (page.word - 1).toNat = page.word.toNat - 1 := by
  have hpos := page.word_pos
  exact UInt64.toNat_sub_of_le _ _ (UInt64.le_iff_toNat_le.mpr hpos)

/-- The low bits of a word are its remainder by the page size. -/
theorem toNat_floor (page : PageSize) (address : UInt64) :
    (page.floor address).toNat = address.toNat / page.word.toNat * page.word.toNat := by
  have hlow : (address &&& (page.word - 1)).toNat = address.toNat % page.word.toNat := by
    obtain ⟨exponent, h⟩ := page.isPower
    rw [UInt64.toNat_and, toNat_pred, h, Nat.and_two_pow_sub_one_eq_mod]
  have hsum := toNat_mask_partition address (page.word - 1)
  have hdiv := Nat.div_add_mod' address.toNat page.word.toNat
  rw [floor]
  omega

/-! ## The range of a change -/

/-- Rounding the end of a range up to a whole page leaves the address space. -/
def Overflows (page : PageSize) (address length : UInt64) : Prop :=
  UInt64.size ≤ address.toNat + max length.toNat 1 + (page.word.toNat - 1)

/-- The page with a number shares a byte with a range, where an empty range counts as the
byte at its address. -/
def Shares (page : PageSize) (address length : UInt64) (number : Nat) : Prop :=
  ∃ byte, (address.toNat ≤ byte ∧ byte < address.toNat + max length.toNat 1) ∧
    number * page.word.toNat ≤ byte ∧ byte < (number + 1) * page.word.toNat

/-- The page with a number lies between two addresses. -/
def Within (page : PageSize) (start stop : UInt64) (number : Nat) : Prop :=
  start.toNat ≤ number * page.word.toNat ∧ (number + 1) * page.word.toNat ≤ stop.toNat

/-- The number of the page behind the last one. -/
def behind (page : PageSize) (address length : UInt64) : Nat :=
  (address.toNat + max length.toNat 1 + (page.word.toNat - 1)) / page.word.toNat

theorem shares_iff {number : Nat} : page.Shares address length number ↔
    address.toNat / page.word.toNat ≤ number ∧ number < page.behind address length := by
  have hpos := page.word_pos
  have hfirst : address.toNat / page.word.toNat ≤ number ↔
      address.toNat < (number + 1) * page.word.toNat := by
    rw [← Nat.lt_add_one_iff, Nat.div_lt_iff_lt_mul hpos]
  have hlast : number < page.behind address length ↔ (number + 1) * page.word.toNat ≤
      address.toNat + max length.toNat 1 + (page.word.toNat - 1) :=
    Nat.le_div_iff_mul_le hpos
  rw [hfirst, hlast, Shares, Nat.add_one_mul]
  constructor
  · rintro ⟨byte, hrange, hpage⟩
    omega
  · rintro ⟨hstart, hstop⟩
    -- both are intervals, so one of them begins within the other
    exact ⟨max address.toNat (number * page.word.toNat), by omega, by omega⟩

theorem range?_eq_some_iff {start stop : UInt64} :
    page.range? address length = some (start, stop) ↔ ¬ page.Overflows address length ∧
      start.toNat = address.toNat / page.word.toNat * page.word.toNat ∧
      stop.toNat = page.behind address length * page.word.toNat := by
  have hmax : (max length 1).toNat = max length.toNat 1 := UInt64.toNat_max length 1
  rw [Overflows, Nat.not_le, behind]
  simp only [range?, Option.bind_eq_bind, Option.bind_eq_some_iff, Option.pure_def,
    Option.some.injEq, Prod.mk.injEq, Word.add?_eq_some_iff, hmax, toNat_pred]
  constructor
  · rintro ⟨middle, ⟨-, hmiddle⟩, rounded, ⟨hfits, hrounded⟩, rfl, rfl⟩
    rw [toNat_floor, toNat_floor, hrounded, hmiddle]
    exact ⟨hmiddle ▸ hfits, rfl, rfl⟩
  · rintro ⟨hfits, hstart, hstop⟩
    -- neither sum wraps around, as the greater one does not
    have hmiddle := UInt64.toNat_ofNat_of_lt'
      (show address.toNat + max length.toNat 1 < UInt64.size by omega)
    have hrounded := UInt64.toNat_ofNat_of_lt' hfits
    refine ⟨_, ⟨by omega, hmiddle⟩, _, ⟨hmiddle.symm ▸ hfits, hmiddle.symm ▸ hrounded⟩, ?_, ?_⟩
    · rw [← UInt64.toNat_inj, toNat_floor, hstart]
    · rw [← UInt64.toNat_inj, toNat_floor, hmiddle, hrounded, hstop]

theorem exists_range? (h : ¬ page.Overflows address length) :
    ∃ start stop, page.range? address length = some (start, stop) := by
  have hstart := Nat.div_mul_le_self address.toNat page.word.toNat
  have hstop := Nat.div_mul_le_self (address.toNat + max length.toNat 1 + (page.word.toNat - 1))
    page.word.toNat
  refine ⟨.ofNat (address.toNat / page.word.toNat * page.word.toNat),
    .ofNat (page.behind address length * page.word.toNat), range?_eq_some_iff.mpr ⟨h, ?_, ?_⟩⟩
  · exact UInt64.toNat_ofNat_of_lt' (Nat.lt_of_le_of_lt hstart address.toNat_lt)
  · exact UInt64.toNat_ofNat_of_lt' (Nat.lt_of_le_of_lt hstop (Nat.not_le.mp h))

theorem range?_eq_none_iff :
    page.range? address length = Option.none ↔ page.Overflows address length := by
  constructor
  · intro hnone
    by_contra h
    obtain ⟨start, stop, hsome⟩ := exists_range? h
    rw [hnone] at hsome
    cases hsome
  · intro h
    rcases hrange : page.range? address length with _ | ⟨start, stop⟩
    · rfl
    · exact absurd h (range?_eq_some_iff.mp hrange).1

/-! ## Changing a range -/

/-- A change goes over the pages that share a byte with its range. -/
theorem protect_eq_change (h : ¬ page.Overflows address length) :
    page.protect address length protection p =
      change protection (address.toNat / page.word.toNat)
        (page.behind address length - address.toNat / page.word.toNat) p := by
  have hpos := page.word_pos
  obtain ⟨start, stop, hrange⟩ := exists_range? h
  obtain ⟨-, hstart, hstop⟩ := range?_eq_some_iff.mp hrange
  have hle : start ≤ stop := by
    rw [UInt64.le_iff_toNat_le, hstart, hstop]
    exact Nat.mul_le_mul_right _ (Nat.div_le_div_right (by omega))
  have hfirst : (start / page.word).toNat = address.toNat / page.word.toNat := by
    rw [UInt64.toNat_div, hstart, Nat.mul_div_cancel _ hpos]
  have hcount : ((stop - start) / page.word).toNat =
      page.behind address length - address.toNat / page.word.toNat := by
    rw [UInt64.toNat_div, UInt64.toNat_sub_of_le _ _ hle, hstart, hstop, ← Nat.sub_mul,
      Nat.mul_div_cancel _ hpos]
  simp only [protect, hrange, hfirst, hcount]

theorem first_le_behind (page : PageSize) (address length : UInt64) :
    address.toNat / page.word.toNat ≤ page.behind address length :=
  Nat.div_le_div_right (by omega)

/-- The range is refused, and nothing has been changed. -/
def Refuses (page : PageSize) (address length : UInt64) (protection : Protection) (p : Pages) :
    Prop :=
  page.protect address length protection p =
    (.error (.impossible
      ("range 0x" ++ Text.hex address.toNat ++ "+" ++ toString length.toNat ++ " overflows")), p)

/-- What a change of protection does to the pages, of any size. -/
structure Protects (page : PageSize) (address length : UInt64) (protection : Protection)
    (p : Pages) : Prop where
  impossible_iff :
    (∃ text, (page.protect address length protection p).1 = .error (.impossible text)) ↔
      page.Overflows address length
  refuses : page.Overflows address length → page.Refuses address length protection p
  /-- The range that is changed begins and ends with a page. -/
  covers : ¬ page.Overflows address length →
    ∃ start stop, page.range? address length = some (start, stop) ∧
      page.protect address length protection p = change protection (start.toNat / page.word.toNat)
        ((stop.toNat - start.toNat) / page.word.toNat) p ∧
      page.word.toNat ∣ start.toNat ∧ page.word.toNat ∣ stop.toNat ∧
      ∀ number, page.Within start stop number ↔ page.Shares address length number
  succeeds_iff : (∃ p', page.protect address length protection p = (.ok (), p')) ↔
    ¬ page.Overflows address length ∧
      ∀ number, page.Shares address length number → (p.protection? number).isSome
  inside : ∀ p', page.protect address length protection p = (.ok (), p') →
    ∀ number, page.Shares address length number → p'.protection? number = some protection
  /-- Also if the system refuses a page of the range. -/
  outside : ∀ number, ¬ page.Shares address length number →
    (page.protect address length protection p).2.protection? number = p.protection? number

theorem refuses_of_overflows (h : page.Overflows address length) :
    page.Refuses address length protection p := by
  simp only [Refuses, protect, range?_eq_none_iff.mpr h]

theorem protects (page : PageSize) (address length : UInt64) (protection : Protection) (p : Pages) :
    page.Protects address length protection p := by
  have hcancel := Nat.add_sub_cancel' (page.first_le_behind address length)
  constructor
  case impossible_iff =>
    constructor
    · rintro ⟨text, h⟩
      by_contra hfits
      rw [protect_eq_change hfits] at h
      exact change_ne_impossible _ _ _ h
    · intro h
      rw [refuses_of_overflows h]
      exact ⟨_, rfl⟩
  case refuses => exact refuses_of_overflows
  case covers =>
    intro hfits
    obtain ⟨start, stop, hrange⟩ := exists_range? hfits
    obtain ⟨-, hstart, hstop⟩ := range?_eq_some_iff.mp hrange
    refine ⟨start, stop, hrange, ?_, ?_, ?_, fun number => ?_⟩
    · rw [protect_eq_change hfits, hstart, hstop, ← Nat.sub_mul,
        Nat.mul_div_cancel _ page.word_pos, Nat.mul_div_cancel _ page.word_pos]
    · exact ⟨_, hstart.trans (Nat.mul_comm ..)⟩
    · exact ⟨_, hstop.trans (Nat.mul_comm ..)⟩
    · rw [shares_iff, Within, hstart, hstop, Nat.mul_le_mul_right_iff page.word_pos,
        Nat.mul_le_mul_right_iff page.word_pos, Nat.lt_iff_add_one_le]
  case succeeds_iff =>
    by_cases hfits : page.Overflows address length
    · rw [refuses_of_overflows hfits]
      simp [hfits]
    · simp only [protect_eq_change hfits, change_ok_iff, hcancel, shares_iff, hfits,
        not_false_eq_true, true_and, and_imp]
  case inside =>
    intro p' h number hshares
    by_cases hfits : page.Overflows address length
    · rw [refuses_of_overflows hfits] at h
      cases h
    · rw [protect_eq_change hfits] at h
      rw [protection?_of_change _ _ h, hcancel, if_pos (shares_iff.mp hshares)]
  case outside =>
    intro number hshares
    by_cases hfits : page.Overflows address length
    · rw [refuses_of_overflows hfits]
    · rw [protect_eq_change hfits]
      exact protection?_change_outside _ _ (hcancel.symm ▸ mt shares_iff.mpr hshares)

theorem toNat_host : host.word.toNat = pageSize := rfl

theorem host_protect (address length : UInt64) (protection : Protection) (p : Pages) :
    host.protect address length protection p = p.protect address length.toNat protection := by
  by_cases h : host.Overflows address length
  · have hrefuses : host.Refuses address length protection p := refuses_of_overflows h
    rw [Overflows, toNat_host] at h
    rw [hrefuses, protect_of_overflows h]
  · have hchange : host.protect address length protection p = _ := protect_eq_change h
    rw [Overflows, toNat_host, Nat.not_le] at h
    have hrange : range address length.toNat = .ok (pageOf address,
        (address.toNat + max length.toNat 1 + (pageSize - 1)) / pageSize) :=
      range_eq_ok_iff.mpr ⟨h, rfl⟩
    unfold Pages.protect
    rw [hchange, hrange, behind, toNat_host, pageOf]

/-! ## The size of a mapping -/

/-- The sizes of whole pages, at least one, that hold `length` bytes. -/
def mappings (size length : Nat) : Set Nat := {bytes | 0 < bytes ∧ size ∣ bytes ∧ length ≤ bytes}

theorem isLeast_mappings {size : Nat} (hpos : 0 < size) (length : Nat) :
    IsLeast (mappings size length) ((max length 1 + (size - 1)) / size * size) := by
  have hdiv := Nat.div_add_mod' (max length 1 + (size - 1)) size
  have hmod := Nat.mod_lt (max length 1 + (size - 1)) hpos
  constructor
  · exact ⟨by omega, Nat.dvd_mul_left .., by omega⟩
  · rintro bytes ⟨hbytes, ⟨pages, rfl⟩, hlength⟩
    have hlt : (max length 1 + (size - 1)) / size < pages + 1 := by
      rw [Nat.div_lt_iff_lt_mul hpos, Nat.add_one_mul, Nat.mul_comm]
      omega
    rw [Nat.mul_comm]
    exact Nat.mul_le_mul_left _ (Nat.le_of_lt_add_one hlt)

/-- Rounding up adds a page exactly if one is begun. -/
theorem add_pred_div {size : Nat} (hpos : 0 < size) (n : Nat) :
    (n + (size - 1)) / size = if n % size = 0 then n / size else n / size + 1 := by
  have hmod := Nat.mod_lt n hpos
  have hsum : n + (size - 1) = n % size + (size - 1) + size * (n / size) := by
    have := Nat.div_add_mod n size
    omega
  rw [hsum, Nat.add_mul_div_left _ _ hpos]
  split
  · rename_i heven
    rw [heven, Nat.div_eq_of_lt (by omega), Nat.zero_add]
  · rename_i hbegun
    rw [Nat.div_eq_of_lt_le (k := 1) (by omega) (by omega), Nat.add_comm]

theorem pages_le_bytes {size n : Nat} (hsize : 0 < size) (hn : 0 < n) :
    (n + (size - 1)) / size ≤ n := by
  obtain ⟨size, rfl⟩ := Nat.exists_eq_add_one.mpr hsize
  obtain ⟨n, rfl⟩ := Nat.exists_eq_add_one.mpr hn
  refine Nat.div_le_of_le_mul ?_
  rw [Nat.add_one_mul, Nat.mul_add_one]
  omega

theorem toNat_count (page : PageSize) (length : UInt64) : (page.count length).toNat =
    (max length.toNat 1 + (page.word.toNat - 1)) / page.word.toNat := by
  have hmax : (max length 1).toNat = max length.toNat 1 := UInt64.toNat_max length 1
  have hzero : max length 1 % page.word = 0 ↔ max length.toNat 1 % page.word.toNat = 0 := by
    rw [← UInt64.toNat_inj, UInt64.toNat_mod, hmax]
    rfl
  rw [add_pred_div page.word_pos]
  simp only [count, hzero]
  split
  · rw [UInt64.toNat_div, hmax]
  · rename_i hbegun
    have hle := pages_le_bytes page.word_pos (show 0 < max length.toNat 1 by omega)
    rw [add_pred_div page.word_pos, if_neg hbegun, ← hmax] at hle
    rw [UInt64.toNat_add, UInt64.toNat_div, ← hmax]
    exact Nat.mod_eq_of_lt (Nat.lt_of_le_of_lt hle (max length 1).toNat_lt)

theorem word_dvd_size (page : PageSize) : page.word.toNat ∣ UInt64.size := by
  obtain ⟨exponent, h⟩ := page.isPower
  have hlt : 2 ^ exponent < 2 ^ 64 := h ▸ page.word.toNat_lt
  rw [h]
  exact Nat.pow_dvd_pow 2 (Nat.le_of_lt ((Nat.pow_lt_pow_iff_right Nat.one_lt_two).mp hlt))

/-- What is mapped for some code, by pages of any size. -/
structure MapsWhole (page : PageSize) (length : UInt64) : Prop where
  fits_iff : (page.count length).toNat * page.word.toNat < UInt64.size ↔
    length.toNat + page.word.toNat ≤ UInt64.size
  least : (page.count length).toNat * page.word.toNat < UInt64.size →
    IsLeast (mappings page.word.toNat length.toNat) (page.mappingSize length).toNat

theorem mapsWhole (page : PageSize) (length : UInt64) : page.MapsWhole length := by
  have hpos := page.word_pos
  have hleast := isLeast_mappings hpos length.toNat
  rw [← toNat_count] at hleast
  constructor
  case fits_iff =>
    have hup := Nat.div_mul_le_self (max length.toNat 1 + (page.word.toNat - 1)) page.word.toNat
    rw [← toNat_count] at hup
    have hword : page.word.toNat < UInt64.size := page.word.toNat_lt
    constructor
    · intro h
      -- both are multiples of the page size, so a whole page lies between them
      have hpage := Nat.le_of_dvd (Nat.sub_pos_of_lt h)
        (Nat.dvd_sub page.word_dvd_size (Nat.dvd_mul_left ..))
      have hlength := hleast.1.2.2
      omega
    · intro h
      omega
  case least =>
    intro h
    rwa [mappingSize, UInt64.toNat_mul, Nat.mod_eq_of_lt h]

theorem host_mappingSize (length : UInt64) :
    host.mappingSize length = .ofNat (AddressSpace.mappingSize length.toNat) := by
  rw [← UInt64.toNat_inj, mappingSize, UInt64.toNat_mul, toNat_count, toNat_host,
    UInt64.toNat_ofNat', AddressSpace.mappingSize]

/-- Whatever the size of the pages, the range of a change is made of the pages that share
a byte with what is asked for, and a mapping has the least size that whole pages can have.
The pages that patches are made on are no exception. -/
theorem changes_and_maps_whole_pages :
    (∀ (page : PageSize) (address length : UInt64) (protection : Protection) (p : Pages),
      page.Protects address length protection p) ∧
    (∀ (page : PageSize) (length : UInt64), page.MapsWhole length) ∧
    (∀ (address length : UInt64) (protection : Protection) (p : Pages),
      host.protect address length protection p = p.protect address length.toNat protection) ∧
    (∀ length, host.mappingSize length = .ofNat (AddressSpace.mappingSize length.toNat)) ∧
    ∀ length, IsLeast (mappings pageSize length) (AddressSpace.mappingSize length) :=
  ⟨protects, mapsWhole, host_protect, host_mappingSize, isLeast_mappings (by decide)⟩

/-- Two bytes on the two sides of a boundary are in two pages. -/
example : host.range? 0x1FFF 2 = some (0x1000, 0x3000) := rfl

end PageSize

end Reroute
