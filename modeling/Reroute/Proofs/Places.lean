import Reroute.Proofs.Reading
/-!
# Bytes by their places

A format is told by what stands where: a slice of the bytes, or the number
that a slice spells (`Bytes.numberAt`). A cursor that passes some bytes passes
the slice at its position, so what a reader of fixed fields comes to is known
by the offsets of the fields, and that there are enough bytes for them
(`Reader.value_bind_eq_ok_iff`). What is inside of a string of bytes stays
where it is when more bytes follow.
-/

namespace Reroute

namespace Bytes

variable {bytes : Bytes} {offset place amount width : Nat}

/-- The bytes from an offset on, as many of them as are asked for. -/
def slice (bytes : Bytes) (offset amount : Nat) : Bytes := (bytes.drop offset).take amount

/-- The number that the bytes from an offset on spell. -/
def numberAt (bytes : Bytes) (offset width : Nat) : Nat := toNat (slice bytes offset width)

theorem length_slice (h : offset + amount ≤ bytes.length) :
    (slice bytes offset amount).length = amount := by
  rw [slice, List.length_take, List.length_drop]
  omega

theorem slice_append (more : Bytes) (h : offset + amount ≤ bytes.length) :
    slice (bytes ++ more) offset amount = slice bytes offset amount := by
  have hoffset : offset ≤ bytes.length := by omega
  rw [slice, slice, List.drop_append_of_le_length hoffset,
    List.take_append_of_le_length (by rw [List.length_drop]; omega)]

theorem slice_slice (h : offset + amount ≤ width) :
    slice (slice bytes place width) offset amount = slice bytes (place + offset) amount := by
  rw [slice, slice, slice, List.drop_take, List.take_take, List.drop_drop,
    Nat.min_eq_left (by omega)]

theorem numberAt_slice (h : offset + amount ≤ width) :
    numberAt (slice bytes place width) offset amount = numberAt bytes (place + offset) amount := by
  rw [numberAt, slice_slice h, numberAt]

theorem numberAt_append (more : Bytes) (h : offset + width ≤ bytes.length) :
    numberAt (bytes ++ more) offset width = numberAt bytes offset width := by
  rw [numberAt, slice_append more h, numberAt]

theorem numberAt_lt : numberAt bytes offset width < count width := by
  have hlength : (slice bytes offset width).length ≤ width := List.length_take_le ..
  exact Nat.lt_of_lt_of_le (toNat_lt _) (Nat.pow_le_pow_right (by decide) hlength)

end Bytes

open Bytes (slice numberAt)

namespace Cursor

variable {c c' : Cursor} {taken : Bytes}

theorem passes_iff :
    c.Passes taken c' ↔ ∃ h : c.position + taken.length ≤ c.data.length,
      taken = slice c.data c.position taken.length ∧
        c' = ⟨c.data, c.position + taken.length, h⟩ := by
  constructor
  · intro hpass
    have hinside := c'.inside
    rw [hpass.position, hpass.data] at hinside
    refine ⟨hinside, ?_, Cursor.ext hpass.data hpass.position⟩
    show taken = c.ahead.take taken.length
    rw [hpass.ahead, List.take_left]
  · rintro ⟨hinside, htaken, rfl⟩
    refine ⟨rfl, ?_⟩
    show c.data.drop c.position = taken ++ c.data.drop (c.position + taken.length)
    rw [← List.drop_drop]
    calc c.data.drop c.position
        = slice c.data c.position taken.length ++
            (c.data.drop c.position).drop taken.length := (List.take_append_drop ..).symm
      _ = taken ++ (c.data.drop c.position).drop taken.length := by rw [← htaken]

/-- To pass bytes of a length is to pass those that stand there. -/
theorem exists_passes_iff_slice {count : Nat} {P : Bytes → Prop} :
    (∃ taken, taken.length = count ∧ P taken ∧ c.Passes taken c') ↔
      ∃ h : c.position + count ≤ c.data.length,
        P (slice c.data c.position count) ∧ c' = ⟨c.data, c.position + count, h⟩ := by
  simp only [passes_iff]
  constructor
  · rintro ⟨taken, rfl, hP, h, htaken, hc'⟩
    exact ⟨h, htaken ▸ hP, hc'⟩
  · rintro ⟨h, hP, rfl⟩
    have hlength := Bytes.length_slice h
    refine ⟨_, hlength, hP, ?_⟩
    rw [hlength]
    exact ⟨h, rfl, rfl⟩

end Cursor

namespace Reader

variable {α β : Type} {c c' : Cursor} {count : Nat}

theorem bytes_eq_ok_iff_slice {taken : Bytes} :
    bytes count c = (.ok taken, c') ↔ ∃ h : c.position + count ≤ c.data.length,
      taken = slice c.data c.position count ∧ c' = ⟨c.data, c.position + count, h⟩ := by
  rw [bytes_eq_ok_iff, Cursor.passes_iff]
  constructor
  · rintro ⟨rfl, h⟩
    exact h
  · rintro ⟨h, rfl, rfl⟩
    rw [Bytes.length_slice h]
    exact ⟨rfl, h, rfl, rfl⟩

theorem value_eq_ok_iff_slice [LittleEndian α] {v : α} :
    value α c = (.ok v, c') ↔ ∃ h : c.position + LittleEndian.width α ≤ c.data.length,
      v = LittleEndian.ofBytes (slice c.data c.position (LittleEndian.width α)) ∧
        c' = ⟨c.data, c.position + LittleEndian.width α, h⟩ := by
  rw [value_eq_ok_iff, Cursor.passes_iff]
  simp only [LittleEndian.length_toBytes]
  refine exists_congr fun h => and_congr_left fun _ => ⟨fun hv => ?_, fun hv => ?_⟩
  · rw [← hv, LittleEndian.ofBytes_toBytes]
  · rw [hv, LittleEndian.toBytes_ofBytes _ (Bytes.length_slice h)]

/-- A reader that is described like this goes on with what it has found. -/
theorem bind_eq_ok_iff_of_place {r : Reader α} {f : α → Reader β} {b : β} {P : Prop} {v : α}
    {behind : P → Cursor} (h : ∀ a c₁, r c = (.ok a, c₁) ↔ ∃ p : P, a = v ∧ c₁ = behind p) :
    (r >>= f) c = (.ok b, c') ↔ ∃ p : P, f v (behind p) = (.ok b, c') := by
  rw [bind_eq_ok_iff]
  constructor
  · rintro ⟨a, c₁, hr, hf⟩
    obtain ⟨p, rfl, rfl⟩ := (h a c₁).mp hr
    exact ⟨p, hf⟩
  · rintro ⟨p, hf⟩
    exact ⟨v, behind p, (h v (behind p)).mpr ⟨p, rfl, rfl⟩, hf⟩

theorem value_bind_eq_ok_iff [LittleEndian α] {f : α → Reader β} {b : β} :
    (value α >>= f) c = (.ok b, c') ↔ ∃ h : c.position + LittleEndian.width α ≤ c.data.length,
      f (LittleEndian.ofBytes (slice c.data c.position (LittleEndian.width α)))
        ⟨c.data, c.position + LittleEndian.width α, h⟩ = (.ok b, c') :=
  bind_eq_ok_iff_of_place fun _ _ => value_eq_ok_iff_slice

theorem bytes_bind_eq_ok_iff {f : Bytes → Reader β} {b : β} :
    (bytes count >>= f) c = (.ok b, c') ↔ ∃ h : c.position + count ≤ c.data.length,
      f (slice c.data c.position count) ⟨c.data, c.position + count, h⟩ = (.ok b, c') :=
  bind_eq_ok_iff_of_place fun _ _ => bytes_eq_ok_iff_slice

theorem advance_bind_eq_ok_iff {f : Unit → Reader β} {b : β} :
    (advance count >>= f) c = (.ok b, c') ↔ ∃ h : c.position + count ≤ c.data.length,
      f () ⟨c.data, c.position + count, h⟩ = (.ok b, c') := by
  refine bind_eq_ok_iff_of_place fun _ c₁ => ?_
  have hskip : (∃ taken, taken.length = count ∧ True ∧ c.Passes taken c₁) ↔
      ∃ h : c.position + count ≤ c.data.length,
        True ∧ c₁ = ⟨c.data, c.position + count, h⟩ :=
    Cursor.exists_passes_iff_slice (P := fun _ => True)
  rw [advance_eq_ok_iff]
  simpa using hskip

theorem seek_bind_eq_ok_iff {place : Nat} {f : Unit → Reader β} {b : β} :
    (seek place >>= f) c = (.ok b, c') ↔
      ∃ h : place ≤ c.data.length, f () ⟨c.data, place, h⟩ = (.ok b, c') := by
  refine bind_eq_ok_iff_of_place fun _ c₁ => ?_
  rw [seek_eq_ok_iff]
  constructor
  · rintro ⟨hdata, rfl⟩
    exact ⟨hdata ▸ c₁.inside, rfl, Cursor.ext hdata rfl⟩
  · rintro ⟨h, -, rfl⟩
    exact ⟨rfl, rfl⟩

end Reader

end Reroute
