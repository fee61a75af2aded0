import Reroute.Proofs.Converting
/-!
# Floats between two formats

Rounding gives the pattern of a number, and does not depend on how the number is told:
the same number in smaller units is rounded to the same pattern (`FloatFormat.round_scale`).
A number of a format is rounded to its own pattern (`Canonical.round_eq_pattern`), any
other one to the nearest (`Binary64.rounded_narrow`).

So a number goes unharmed through any format that has it, in smaller units if need be
(`FloatFormat.Extends`). It is the same number there, and rounded back it has the pattern
that it had. The format of 64 bits has the numbers of the one of 32 bits, as a significand
can be shifted until it has all its digits.
-/

namespace Reroute

/-- The same magnitude, in units that are smaller by a power of two. -/
def Magnitude.scale (places : Nat) : Magnitude → Magnitude
  | .finite significand exponent => .finite (significand * 2 ^ places) (exponent - places)
  | .infinite => .infinite
  | .nan fraction => .nan fraction

namespace FloatFormat

variable {f g : FloatFormat} {bits significand binade : Nat}

/-! ## Rounding -/

theorem twoTo_eq (exponent : Nat) : twoTo exponent = 2 ^ exponent := rfl

/-- No integer is nearer to `n / 2 ^ places`, and if another one is as near, it is odd. -/
structure NearestEven (n places nearest : Nat) : Prop where
  below : 2 * n ≤ (2 * nearest + 1) * 2 ^ places
  above : 2 * nearest * 2 ^ places ≤ 2 * n + 2 ^ places
  even : 2 * n = (2 * nearest + 1) * 2 ^ places ∨ 2 * nearest * 2 ^ places = 2 * n + 2 ^ places →
    nearest % 2 = 0

/-- Digits are rounded off to the nearest, a tie going to the even neighbour. -/
theorem nearestEven_shiftNearest (n places : Nat) :
    NearestEven n places (shiftNearest n places) := by
  have hsum := Nat.div_add_mod' n (2 ^ places)
  have hrest := Nat.mod_lt n (Nat.two_pow_pos places)
  unfold shiftNearest
  dsimp only
  split
  · rename_i hup
    rw [twoTo_eq] at hup ⊢
    constructor <;> simp only [Nat.mul_add, Nat.add_mul, Nat.mul_assoc] <;> omega
  · rename_i hdown
    rw [twoTo_eq] at hdown ⊢
    constructor <;> simp only [Nat.add_mul, Nat.mul_assoc] <;> omega

theorem shiftNearest_zero (n : Nat) : shiftNearest n 0 = n := by
  simp [shiftNearest, twoTo_eq, Nat.mod_one]

/-- What is rounded off is compared to a half, and both have been multiplied. -/
theorem shiftNearest_scale (n places more : Nat) :
    shiftNearest (n * 2 ^ more) (places + more) = shiftNearest n places := by
  have hpos : 0 < 2 ^ more := Nat.two_pow_pos more
  have hwhole : n * 2 ^ more / 2 ^ (places + more) = n / 2 ^ places := by
    rw [Nat.pow_add, Nat.mul_div_mul_right _ _ hpos]
  have hrest : 2 * (n * 2 ^ more % 2 ^ (places + more)) = 2 * (n % 2 ^ places) * 2 ^ more := by
    rw [Nat.pow_add, Nat.mul_mod_mul_right, Nat.mul_assoc]
  have hless : 2 ^ (places + more) < 2 * (n % 2 ^ places) * 2 ^ more ↔
      2 ^ places < 2 * (n % 2 ^ places) := by
    rw [Nat.pow_add, Nat.mul_lt_mul_right hpos]
  have hhalf : 2 * (n % 2 ^ places) * 2 ^ more = 2 ^ (places + more) ↔
      2 * (n % 2 ^ places) = 2 ^ places := by
    rw [Nat.pow_add, Nat.mul_left_inj (Nat.ne_of_gt hpos)]
  simp only [shiftNearest, twoTo_eq, hwhole, hrest]
  exact if_congr (or_congr hless (and_congr_left' hhalf)) rfl rfl

theorem log2_scale (h : significand ≠ 0) (places : Nat) :
    (significand * 2 ^ places).log2 = significand.log2 + places := by
  have hpos : 0 < 2 ^ places := Nat.two_pow_pos places
  rw [Nat.log2_eq_iff (Nat.mul_ne_zero h (Nat.ne_of_gt hpos))]
  constructor
  · rw [Nat.pow_add]
    exact Nat.mul_le_mul_right _ (Nat.log2_self_le h)
  · rw [Nat.add_right_comm, Nat.pow_add]
    exact (Nat.mul_lt_mul_right hpos).mpr Nat.lt_log2_self

/-- The exponent of the last place of a rounded number. -/
def unit (f : FloatFormat) (significand : Nat) (exponent : Int) : Int :=
  max f.leastExponent (exponent + (significand.log2 : Int) - f.fractionBits)

/-- A number as an integer times a power of two, rounded. -/
def digits (significand : Nat) (exponent unit : Int) : Nat :=
  if unit ≤ exponent then significand * twoTo (exponent - unit).toNat
  else shiftNearest significand (unit - exponent).toNat

theorem round_eq (h : significand ≠ 0) (exponent : Int) : f.round significand exponent =
    min f.infinityBits ((f.unit significand exponent - f.leastExponent).toNat * 2 ^ f.fractionBits +
      digits significand exponent (f.unit significand exponent)) :=
  if_neg h

/-- The digits of a number are the nearest ones, whether some are rounded off or not. -/
theorem nearestEven_digits (significand : Nat) (exponent unit : Int) :
    NearestEven (significand * 2 ^ (exponent - unit).toNat) (unit - exponent).toNat
      (digits significand exponent unit) := by
  unfold digits
  split
  · have hnone : (unit - exponent).toNat = 0 := by omega
    have hwhole := nearestEven_shiftNearest (significand * 2 ^ (exponent - unit).toNat) 0
    rwa [shiftNearest_zero, ← hnone] at hwhole
  · have hnone : (exponent - unit).toNat = 0 := by omega
    rw [hnone, Nat.pow_zero, Nat.mul_one]
    exact nearestEven_shiftNearest significand _

/-- How the pattern of a number is found: of the multiples of the unit in its last place
the nearest one is taken, of two that are as near the even one, and infinity if the format
does not go as far. -/
def Rounded (f : FloatFormat) (significand : Nat) (exponent : Int) (low : Nat) : Prop :=
  ∃ nearest, low = min f.infinityBits
      ((f.unit significand exponent - f.leastExponent).toNat * 2 ^ f.fractionBits + nearest) ∧
    NearestEven (significand * 2 ^ (exponent - f.unit significand exponent).toNat)
      (f.unit significand exponent - exponent).toNat nearest

theorem rounded_round (f : FloatFormat) (h : significand ≠ 0) (exponent : Int) :
    f.Rounded significand exponent (f.round significand exponent) :=
  ⟨_, round_eq h exponent, nearestEven_digits significand exponent _⟩

theorem round_le_infinityBits (f : FloatFormat) (significand : Nat) (exponent : Int) :
    f.round significand exponent ≤ f.infinityBits := by
  by_cases hzero : significand = 0
  · simp [round, hzero]
  · rw [round_eq hzero]
    exact Nat.min_le_left _ _

theorem unit_scale (f : FloatFormat) (h : significand ≠ 0) (places : Nat) (exponent : Int) :
    f.unit (significand * 2 ^ places) exponent = f.unit significand (exponent + places) := by
  rw [unit, unit, log2_scale h]
  push_cast
  omega

theorem digits_scale (significand places : Nat) (exponent unit : Int) :
    digits (significand * 2 ^ places) exponent unit =
      digits significand (exponent + places) unit := by
  simp only [digits, twoTo_eq]
  by_cases hfine : unit ≤ exponent
  · have hsum : (exponent + places - unit).toNat = places + (exponent - unit).toNat := by omega
    rw [if_pos hfine, if_pos (by omega), hsum, Nat.pow_add, Nat.mul_assoc]
  · rw [if_neg hfine]
    split
    · -- what is shifted out are some of the zeros that were shifted in
      obtain ⟨kept, hkept⟩ : ∃ kept, places = kept + (unit - exponent).toNat :=
        ⟨(exponent + places - unit).toNat, by omega⟩
      have hleft : (exponent + places - unit).toNat = kept := by omega
      have hzero := shiftNearest_scale (significand * 2 ^ kept) 0 (unit - exponent).toNat
      rw [Nat.zero_add, shiftNearest_zero, Nat.mul_assoc, ← Nat.pow_add, ← hkept] at hzero
      rw [hzero, hleft]
    · have hshift : (unit - exponent).toNat = (unit - (exponent + places)).toNat + places := by
        omega
      rw [hshift, shiftNearest_scale]

/-- The same number in units that are smaller by a power of two is rounded to the same. -/
theorem round_scale (f : FloatFormat) (significand places : Nat) (exponent : Int) :
    f.round (significand * 2 ^ places) exponent = f.round significand (exponent + places) := by
  by_cases hzero : significand = 0
  · simp [round, hzero]
  · have hscaled : significand * 2 ^ places ≠ 0 :=
      Nat.mul_ne_zero hzero (Nat.ne_of_gt (Nat.two_pow_pos places))
    rw [round_eq hzero, round_eq hscaled, unit_scale f hzero, digits_scale]

/-! ## The numbers of a format -/

/-- The exponent of the last place in a binade, counted from the smallest numbers. -/
def exponentOf (f : FloatFormat) (binade : Nat) : Int := f.leastExponent + binade

/-- A number of a format, with all digits that it can have there: only in the first binade
are there numbers with fewer. -/
structure Canonical (f : FloatFormat) (significand binade : Nat) : Prop where
  short : significand < 2 ^ (f.fractionBits + 1)
  finite : binade + 2 < 2 ^ f.exponentBits
  full : binade = 0 ∨ 2 ^ f.fractionBits ≤ significand

/-- The bits of a number of a format, without a sign. -/
def pattern (f : FloatFormat) (significand binade : Nat) : Nat :=
  binade * 2 ^ f.fractionBits + significand

theorem infinityBits_eq (f : FloatFormat) :
    f.infinityBits = (2 ^ f.exponentBits - 1) * 2 ^ f.fractionBits := rfl

theorem signWeight_eq (f : FloatFormat) :
    f.signWeight = 2 ^ f.fractionBits * 2 ^ f.exponentBits := Nat.pow_add ..

theorem infinityBits_lt (f : FloatFormat) : f.infinityBits < f.signWeight := by
  have hexponent := Nat.two_pow_pos f.exponentBits
  rw [infinityBits_eq, signWeight_eq, Nat.mul_comm]
  exact (Nat.mul_lt_mul_left (Nat.two_pow_pos _)).mpr (by omega)

theorem Canonical.pattern_lt (h : f.Canonical significand binade) :
    f.pattern significand binade < f.infinityBits := by
  have hshort := h.short
  have hfinite := h.finite
  have hmul := Nat.mul_le_mul_right (2 ^ f.fractionBits)
    (show binade + 2 ≤ 2 ^ f.exponentBits - 1 by omega)
  rw [Nat.pow_succ] at hshort
  rw [Nat.add_mul] at hmul
  rw [infinityBits_eq, pattern]
  omega

theorem Canonical.unit_eq (h : f.Canonical significand binade) (hzero : significand ≠ 0) :
    f.unit significand (f.exponentOf binade) = f.exponentOf binade := by
  have hshort := (Nat.log2_lt hzero).mpr h.short
  have hfull := h.full
  rw [← Nat.le_log2 hzero] at hfull
  unfold unit exponentOf
  omega

/-- A number of a format is rounded to its pattern. -/
theorem Canonical.round_eq_pattern (h : f.Canonical significand binade) :
    f.round significand (f.exponentOf binade) = f.pattern significand binade := by
  by_cases hzero : significand = 0
  · have hfirst : binade = 0 := h.full.resolve_right (hzero ▸ Nat.not_le.mpr (Nat.two_pow_pos _))
    simp [round, pattern, hzero, hfirst]
  · have hbinade : (f.exponentOf binade - f.leastExponent).toNat = binade := by
      unfold exponentOf
      omega
    have hlt : binade * 2 ^ f.fractionBits + significand < f.infinityBits := h.pattern_lt
    rw [round_eq hzero, h.unit_eq hzero, hbinade, digits, if_pos (Int.le_refl _), Int.sub_self,
      Int.toNat_zero, twoTo_eq, Nat.pow_zero, Nat.mul_one, Nat.min_eq_right (Nat.le_of_lt hlt),
      pattern]

/-! ## What patterns denote -/

/-- Above infinity, its sign apart, a pattern is not a number. -/
def IsNaN (f : FloatFormat) (bits : Nat) : Prop := f.infinityBits < bits % f.signWeight

instance (f : FloatFormat) (bits : Nat) : Decidable (f.IsNaN bits) :=
  inferInstanceAs (Decidable (_ < _))

/-- What an exponent field and a fraction denote. -/
def ofFields (f : FloatFormat) (field fraction : Nat) : Magnitude :=
  if field = 2 ^ f.exponentBits - 1 then
    if fraction = 0 then .infinite else .nan fraction
  else if field = 0 then .finite fraction f.leastExponent
  else .finite (fraction + 2 ^ f.fractionBits) (f.exponentOf (field - 1))

theorem magnitude_eq (f : FloatFormat) (bits : Nat) : f.magnitude bits =
    f.ofFields (bits / 2 ^ f.fractionBits % 2 ^ f.exponentBits) (bits % 2 ^ f.fractionBits) := rfl

theorem magnitude_mod (f : FloatFormat) (bits : Nat) :
    f.magnitude (bits % f.signWeight) = f.magnitude bits := by
  rw [signWeight_eq, magnitude_eq, magnitude_eq, Nat.mod_mul_right_div_self, Nat.mod_mod,
    Nat.mod_mul_right_mod]

theorem magnitude_fields {field fraction : Nat} (hfield : field < 2 ^ f.exponentBits)
    (hfraction : fraction < 2 ^ f.fractionBits) :
    f.magnitude (field * 2 ^ f.fractionBits + fraction) = f.ofFields field fraction := by
  rw [magnitude_eq, Nat.mul_add_mod', Nat.mod_eq_of_lt hfraction, Nat.add_comm,
    Nat.add_mul_div_right _ _ (Nat.two_pow_pos _), Nat.div_eq_of_lt hfraction, Nat.zero_add,
    Nat.mod_eq_of_lt hfield]

theorem magnitude_infinityBits (f : FloatFormat) : f.magnitude f.infinityBits = .infinite := by
  have hfield : 2 ^ f.exponentBits - 1 < 2 ^ f.exponentBits :=
    Nat.sub_lt (Nat.two_pow_pos _) Nat.one_pos
  have h := magnitude_fields hfield (Nat.two_pow_pos f.fractionBits)
  rwa [ofFields, if_pos rfl, if_pos rfl] at h

/-- The pattern of a number denotes it. -/
theorem Canonical.magnitude_pattern (h : f.Canonical significand binade) :
    f.magnitude (f.pattern significand binade) =
      .finite significand (f.exponentOf binade) := by
  have hshort := h.short
  have hfinite := h.finite
  rw [Nat.pow_succ] at hshort
  by_cases hfull : 2 ^ f.fractionBits ≤ significand
  · -- the leading digit is not written down, but counts as one in the exponent field
    obtain ⟨fraction, rfl⟩ := Nat.exists_eq_add_of_le' hfull
    have hfields : f.pattern (fraction + 2 ^ f.fractionBits) binade =
        (binade + 1) * 2 ^ f.fractionBits + fraction := by
      rw [pattern, Nat.add_one_mul]
      omega
    rw [hfields, magnitude_fields (by omega) (by omega), ofFields, if_neg (by omega),
      if_neg (by omega), Nat.add_sub_cancel]
  · obtain rfl : binade = 0 := h.full.resolve_right hfull
    have hfields : f.pattern significand 0 = 0 * 2 ^ f.fractionBits + significand := rfl
    rw [hfields, magnitude_fields (by omega) (by omega), ofFields, if_neg (by omega), if_pos rfl]
    simp [exponentOf]

/-- A pattern that is no NaN is one of a number or of infinity. -/
theorem pattern_cases (hexponent : 2 ≤ f.exponentBits) (h : ¬ f.IsNaN bits) :
    bits % f.signWeight = f.infinityBits ∨ ∃ significand binade,
      f.Canonical significand binade ∧ bits % f.signWeight = f.pattern significand binade := by
  rcases Nat.lt_or_eq_of_le (Nat.not_lt.mp h) with hlt | heq
  · have hpos := Nat.two_pow_pos f.fractionBits
    have hfraction := Nat.mod_lt (bits % f.signWeight) hpos
    have hfield : bits % f.signWeight / 2 ^ f.fractionBits < 2 ^ f.exponentBits - 1 :=
      (Nat.div_lt_iff_lt_mul hpos).mpr hlt
    have hbits := Nat.div_add_mod' (bits % f.signWeight) (2 ^ f.fractionBits)
    have hbinades : 2 ^ 2 ≤ 2 ^ f.exponentBits := Nat.pow_le_pow_right (by decide) hexponent
    right
    generalize bits % f.signWeight / 2 ^ f.fractionBits = field at hfield hbits
    generalize bits % f.signWeight % 2 ^ f.fractionBits = fraction at hfraction hbits
    rcases field with _ | binade
    · refine ⟨fraction, 0, ⟨?_, by omega, .inl rfl⟩, hbits.symm⟩
      rw [Nat.pow_succ]
      omega
    · refine ⟨fraction + 2 ^ f.fractionBits, binade, ⟨?_, by omega, .inr (by omega)⟩, ?_⟩
      · rw [Nat.pow_succ]
        omega
      · rw [pattern, ← hbits, Nat.add_one_mul]
        omega
  · exact .inl heq

/-! ## Signs -/

/-- A pattern's sign in its place. -/
def signBits (f : FloatFormat) (negative : Bool) : Nat := if negative then f.signWeight else 0

theorem signBits_add_mod {negative : Bool} {low : Nat} (h : low < f.signWeight) :
    (f.signBits negative + low) % f.signWeight = low := by
  cases negative with
  | false => simp [signBits, Nat.mod_eq_of_lt h]
  | true => simp [signBits, Nat.mod_eq_of_lt h]

theorem magnitude_signBits_add {negative : Bool} {low : Nat} (h : low < f.signWeight) :
    f.magnitude (f.signBits negative + low) = f.magnitude low := by
  rw [← magnitude_mod, signBits_add_mod h]

theorem isNegative_signBits_add {negative : Bool} {low : Nat} (h : low < f.signWeight) :
    f.isNegative (f.signBits negative + low) = negative := by
  have hpos : 0 < f.signWeight := Nat.two_pow_pos _
  cases negative with
  | false => simp [signBits, isNegative, Nat.div_eq_of_lt h]
  | true => simp [signBits, isNegative, Nat.add_div_left _ hpos, Nat.div_eq_of_lt h]

theorem signBits_add_lt {negative : Bool} {low : Nat} (h : low < f.signWeight) :
    f.signBits negative + low < 2 * f.signWeight := by
  cases negative <;> simp only [signBits, if_true, Bool.false_eq_true, if_false] <;> omega

theorem signBits_isNegative_add (h : bits < 2 * f.signWeight) :
    f.signBits (f.isNegative bits) + bits % f.signWeight = bits := by
  have hpos : 0 < f.signWeight := Nat.two_pow_pos _
  have hsign : bits / f.signWeight < 2 := (Nat.div_lt_iff_lt_mul hpos).mpr h
  have hbits := Nat.div_add_mod' bits f.signWeight
  obtain hzero | hone := Nat.le_one_iff_eq_zero_or_eq_one.mp (Nat.le_of_lt_succ hsign)
  · rw [hzero] at hbits
    simpa [signBits, isNegative, hzero] using hbits
  · rw [hone] at hbits
    simpa [signBits, isNegative, hone] using hbits

/-! ## Conversion to a format with more numbers -/

/-- The bits that a magnitude is rounded to, without a sign. A NaN is not rounded. -/
def nearest? (f : FloatFormat) : Magnitude → Option Nat
  | .finite significand exponent => some (f.round significand exponent)
  | .infinite => some f.infinityBits
  | .nan _ => none

theorem convert_of_nearest {low : Nat} (h : g.nearest? (f.magnitude bits) = some low) :
    convert f g bits = g.signBits (f.isNegative bits) + low := by
  unfold convert
  cases hmagnitude : f.magnitude bits with
  | finite | infinite =>
      rw [hmagnitude] at h
      cases h
      rfl
  | nan =>
      rw [hmagnitude] at h
      cases h

/-- Every number of the one format is one of the other, if its significand is shifted. -/
def Extends (f g : FloatFormat) : Prop :=
  ∀ significand binade, f.Canonical significand binade → ∃ places wide : Nat,
    g.Canonical (significand * 2 ^ places) wide ∧
      g.exponentOf wide = f.exponentOf binade - (places : Int)

/-- Rounding a number of the one format to the other one does not change it. -/
theorem Canonical.round_scaled {places wide : Nat} (h : g.Canonical (significand * 2 ^ places) wide)
    (hexponent : g.exponentOf wide = f.exponentOf binade - (places : Int)) :
    g.round significand (f.exponentOf binade) = g.pattern (significand * 2 ^ places) wide := by
  rw [← h.round_eq_pattern, round_scale, hexponent, Int.sub_add_cancel]

/-- Patterns of two formats denote the same number, and have the same sign if it is zero. -/
structure SameNumber (f g : FloatFormat) (bits wide : Nat) : Prop where
  sign : g.isNegative wide = f.isNegative bits
  number : ∃ places, g.magnitude wide = (f.magnitude bits).scale places

/-- A pattern is converted to one that denotes the same, and back to what it was. -/
structure Survives (f g : FloatFormat) (bits : Nat) : Prop where
  same : SameNumber f g bits (convert f g bits)
  back : convert g f (convert f g bits) = bits
  fits : convert f g bits < 2 * g.signWeight

/-- What is not a NaN is rounded to the same magnitude, and that one back to the pattern. -/
theorem Extends.exists_nearest (hextends : f.Extends g) (hexponent : 2 ≤ f.exponentBits)
    (h : ¬ f.IsNaN bits) : ∃ low places, g.nearest? (f.magnitude bits) = some low ∧
      low < g.signWeight ∧ g.magnitude low = (f.magnitude bits).scale places ∧
      f.nearest? ((f.magnitude bits).scale places) = some (bits % f.signWeight) := by
  rw [← f.magnitude_mod bits]
  rcases pattern_cases hexponent h with hpattern | ⟨significand, binade, hcanonical, hpattern⟩
  · rw [hpattern, magnitude_infinityBits]
    exact ⟨g.infinityBits, 0, rfl, g.infinityBits_lt, g.magnitude_infinityBits, rfl⟩
  · obtain ⟨places, wide, hscaled, hexponent⟩ := hextends significand binade hcanonical
    rw [hpattern, hcanonical.magnitude_pattern]
    refine ⟨g.pattern (significand * 2 ^ places) wide, places, ?_, ?_, ?_, ?_⟩
    · rw [nearest?, hscaled.round_scaled hexponent]
    · exact Nat.lt_trans hscaled.pattern_lt g.infinityBits_lt
    · rw [hscaled.magnitude_pattern, Magnitude.scale, hexponent]
    · rw [Magnitude.scale, nearest?, round_scale, Int.sub_add_cancel, hcanonical.round_eq_pattern]

theorem Extends.survives (hextends : f.Extends g) (hexponent : 2 ≤ f.exponentBits)
    (hbits : bits < 2 * f.signWeight) (h : ¬ f.IsNaN bits) : f.Survives g bits := by
  obtain ⟨low, places, hnearest, hlow, hscale, hback⟩ := hextends.exists_nearest hexponent h
  have hwide := convert_of_nearest hnearest
  have hsign : g.isNegative (convert f g bits) = f.isNegative bits := by
    rw [hwide, isNegative_signBits_add hlow]
  have hmagnitude : g.magnitude (convert f g bits) = (f.magnitude bits).scale places := by
    rw [hwide, magnitude_signBits_add hlow, hscale]
  rw [← hmagnitude] at hback
  constructor
  case same => exact ⟨hsign, places, hmagnitude⟩
  case back => rw [convert_of_nearest hback, hsign, signBits_isNegative_add hbits]
  case fits =>
    rw [hwide]
    exact signBits_add_lt hlow

/-- The format of 64 bits has the numbers of the one of 32 bits. -/
theorem single_extends_double : single.Extends double := by
  intro significand binade h
  have hshort : significand < 2 ^ 24 := h.short
  have hfinite : binade + 2 < 256 := h.finite
  have hfull := h.full
  have hleast : single.leastExponent = -149 := rfl
  have hleast' : double.leastExponent = -1074 := rfl
  by_cases hzero : significand = 0
  · have hfirst : binade = 0 := hfull.resolve_right (hzero ▸ Nat.not_le.mpr (Nat.two_pow_pos _))
    rw [hzero, hfirst]
    -- zero has no digits that could be shifted, but a last place it has
    refine ⟨925, 0, ⟨?_, by decide, .inl rfl⟩, rfl⟩
    rw [Nat.zero_mul]
    exact Nat.two_pow_pos _
  · have hlog : significand.log2 < 24 := (Nat.log2_lt hzero).mpr hshort
    have hdigits := log2_scale hzero (52 - significand.log2)
    rw [Nat.add_sub_cancel' (by omega), Nat.log2_eq_iff
      (Nat.mul_ne_zero hzero (Nat.ne_of_gt (Nat.two_pow_pos _)))] at hdigits
    refine ⟨52 - significand.log2, binade + 873 + significand.log2,
      ⟨hdigits.2, ?_, .inr hdigits.1⟩, ?_⟩
    · have hfields : 2 ^ double.exponentBits = 2048 := rfl
      omega
    · simp only [exponentOf, hleast, hleast']
      omega

end FloatFormat

namespace Binary32

theorem survives {x : Binary32} (h : ¬ FloatFormat.single.IsNaN x.bits.toNat) :
    FloatFormat.single.Survives .double x.bits.toNat :=
  FloatFormat.single_extends_double.survives (by decide) x.bits.toNat_lt h

theorem toNat_widen {x : Binary32} (h : ¬ FloatFormat.single.IsNaN x.bits.toNat) :
    x.widen.bits.toNat = FloatFormat.convert .single .double x.bits.toNat :=
  UInt64.toNat_ofNat_of_lt' (survives h).fits

theorem narrow_widen {x : Binary32} (h : ¬ FloatFormat.single.IsNaN x.bits.toNat) :
    x.widen.narrow = x := by
  rw [Binary64.narrow, toNat_widen h, (survives h).back, UInt32.ofNat_toNat]

end Binary32

namespace Binary64

/-- Narrowing rounds to the nearest, a tie to the even neighbour. -/
theorem rounded_narrow (x : Binary64) {significand : Nat} {exponent : Int}
    (hnumber : FloatFormat.double.magnitude x.bits.toNat = .finite significand exponent)
    (hzero : significand ≠ 0) :
    FloatFormat.single.Rounded significand exponent
      (x.narrow.bits.toNat % FloatFormat.single.signWeight) := by
  have hnearest : FloatFormat.single.nearest? (FloatFormat.double.magnitude x.bits.toNat) =
      some (FloatFormat.single.round significand exponent) := by
    rw [hnumber]
    rfl
  have hlow : FloatFormat.single.round significand exponent < FloatFormat.single.signWeight :=
    Nat.lt_of_le_of_lt (FloatFormat.round_le_infinityBits _ _ _) (FloatFormat.infinityBits_lt _)
  have hbits : x.narrow.bits.toNat =
      FloatFormat.single.signBits (FloatFormat.double.isNegative x.bits.toNat) +
        FloatFormat.single.round significand exponent := by
    rw [narrow, FloatFormat.convert_of_nearest hnearest]
    exact UInt32.toNat_ofNat_of_lt' (FloatFormat.signBits_add_lt hlow)
  rw [hbits, FloatFormat.signBits_add_mod hlow]
  exact FloatFormat.rounded_round _ hzero _

end Binary64

namespace Value

/-- A float of 32 bits keeps its bits, also by way of the same number among the floats of
64 bits, although the way back rounds the numbers that only these have. -/
theorem float_survives {bits : UInt32} (h : ¬ FloatFormat.single.IsNaN bits.toNat) :
    ((ofBits .r4 bits.toUInt64).bits .r4 = .ok bits.toUInt64 ∧
      ∃ wide : Binary64, (ofBits .r4 bits.toUInt64).convert .r8 = .ok (.r8 wide) ∧
        FloatFormat.SameNumber .single .double bits.toNat wide.bits.toNat ∧
        (Value.r8 wide).bits .r4 = .ok bits.toUInt64 ∧
        (Value.r8 wide).convert .r4 = .ok (.r4 ⟨bits⟩)) ∧
    ∀ (x : Binary64) (significand : Nat) (exponent : Int),
      FloatFormat.double.magnitude x.bits.toNat = .finite significand exponent →
      significand ≠ 0 → FloatFormat.single.Rounded significand exponent
        (x.narrow.bits.toNat % FloatFormat.single.signWeight) := by
  have hvalue : ofBits .r4 bits.toUInt64 = .r4 ⟨bits⟩ := by
    rw [ofBits, UInt32.toUInt32_toUInt64]
  have hback := Binary32.narrow_widen (x := ⟨bits⟩) h
  have hsame := (Binary32.survives (x := ⟨bits⟩) h).same
  rw [← Binary32.toNat_widen h] at hsame
  have hshort : (Value.r4 ⟨bits⟩).bits? .r4 = some bits.toUInt64 := by
    rw [bits?, float?, Option.map_some, hback]
  have hlong : (Value.r8 (Binary32.widen ⟨bits⟩)).bits? .r4 = some bits.toUInt64 := by
    rw [bits?, float?, Option.map_some, hback]
  rw [hvalue]
  refine ⟨⟨bits_eq_ok_iff.mpr hshort, Binary32.widen ⟨bits⟩, ?_, hsame, bits_eq_ok_iff.mpr hlong,
    ?_⟩, fun x _ _ => x.rounded_narrow⟩
  · exact convert_of_bits rfl
  · rw [convert_of_bits hlong, hvalue]

/-- Half of the smallest float of 32 bits. -/
def tie : Binary64 := ⟨0x3690000000000000⟩

/-- The negative number next to zero, which has one digit here and all of them there. Half
of it is as near to zero, which is even. -/
theorem least_float_survives : ¬ FloatFormat.single.IsNaN (0x80000001 : UInt32).toNat ∧
    ((ofBits .r4 (0x80000001 : UInt32).toUInt64).bits .r4 = .ok (0x80000001 : UInt32).toUInt64 ∧
      ∃ wide : Binary64,
        (ofBits .r4 (0x80000001 : UInt32).toUInt64).convert .r8 = .ok (.r8 wide) ∧
        FloatFormat.SameNumber .single .double (0x80000001 : UInt32).toNat wide.bits.toNat ∧
        (Value.r8 wide).bits .r4 = .ok (0x80000001 : UInt32).toUInt64 ∧
        (Value.r8 wide).convert .r4 = .ok (.r4 ⟨0x80000001⟩)) ∧
    tie.narrow.bits = 0 ∧ FloatFormat.single.Rounded 0x10000000000000 (-202)
      (tie.narrow.bits.toNat % FloatFormat.single.signWeight) :=
  have h : ¬ FloatFormat.single.IsNaN (0x80000001 : UInt32).toNat := by decide
  have hnumber : FloatFormat.double.magnitude tie.bits.toNat =
      .finite 0x10000000000000 (-202) := rfl
  ⟨h, (float_survives h).1, rfl, (float_survives h).2 tie _ _ hnumber (by decide)⟩

/-- The smallest number, which gets an exponent of its own among the floats of 64 bits. -/
example : (ofBits .r4 1).convert .r8 = .ok (.r8 ⟨0x36A0000000000000⟩) := rfl

end Value

end Reroute
