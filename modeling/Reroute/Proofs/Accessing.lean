import Reroute.Bytes.Access
import Reroute.Proofs.Places
/-!
# Values that are kept in buffers

A value is written where all of its bytes fit (`Buffer.Fits`), and nowhere else
does an access change anything. What is stored are the digits of its bits, lowest
first, over as many bytes and over no others. So a value that was written is read
back, and one that was read can be written back without a trace.

`Access.read` and `Access.write` change their buffer in steps; what they come to is
`Bytes.readAt?` and `Bytes.writeAt?`, which say it at once.
-/

namespace Reroute

/-! ## Bytes that are stored one after the other -/

namespace Bytes

variable {buffer bytes : Bytes} {place i width : Nat}

/-- The digits of a number in base 256. -/
def digit (n i : Nat) : UInt8 := UInt8.ofNat (n / count i)

theorem getElem?_ofNat (n : Nat) (h : i < width) : (ofNat width n)[i]? = some (digit n i) := by
  induction width generalizing n i with
  | zero => exact absurd h (Nat.not_lt_zero i)
  | succ width ih =>
      cases i with
      | zero => exact congrArg (fun n => some (UInt8.ofNat n)) (Nat.div_one n).symm
      | succ i =>
          rw [ofNat, List.getElem?_cons_succ, ih _ (Nat.lt_of_succ_lt_succ h), digit, digit,
            count_succ, Nat.div_div_eq_div_mul]

theorem storeFrom_eq (h : place + bytes.length ≤ buffer.length) :
    buffer.storeFrom place bytes =
      buffer.take place ++ bytes ++ buffer.drop (place + bytes.length) := by
  induction bytes generalizing buffer place with
  | nil => simp [storeFrom]
  | cons byte rest ih =>
      rw [List.length_cons] at h
      have hset : buffer.set place byte = buffer.take place ++ byte :: buffer.drop (place + 1) := by
        rw [List.set_eq_take_append_cons_drop, if_pos (by omega)]
      have hfront : (buffer.take place).length = place := List.length_take_of_le (by omega)
      have hlength : place + 1 + rest.length ≤ (buffer.set place byte).length := by
        rw [List.length_set]
        omega
      -- the first byte is stored; the rest leaves it and what is in front of it alone
      have htake : (buffer.set place byte).take (place + 1) = buffer.take place ++ [byte] := by
        rw [hset, List.take_append, hfront, List.take_of_length_le (by omega)]
        simp
      have hdrop : (buffer.set place byte).drop (place + 1 + rest.length) =
          buffer.drop (place + (byte :: rest).length) := by
        rw [List.drop_set_of_lt (by omega), List.length_cons]
        congr 1
        omega
      rw [storeFrom, ih hlength, htake, hdrop]
      simp

theorem length_storeFrom (h : place + bytes.length ≤ buffer.length) :
    (buffer.storeFrom place bytes).length = buffer.length := by
  rw [storeFrom_eq h]
  simp
  omega

theorem slice_storeFrom (h : place + bytes.length ≤ buffer.length) :
    slice (buffer.storeFrom place bytes) place bytes.length = bytes := by
  have hfront : (buffer.take place).length = place := List.length_take_of_le (by omega)
  rw [storeFrom_eq h, slice, List.append_assoc, List.drop_left' hfront, List.take_left' rfl]

theorem getElem?_storeFrom_inside (h : place + bytes.length ≤ buffer.length)
    (hi : i < bytes.length) : (buffer.storeFrom place bytes)[place + i]? = bytes[i]? := by
  have hslice := congrArg (·[i]?) (slice_storeFrom h)
  rwa [slice, List.getElem?_take_of_lt hi, List.getElem?_drop] at hslice

theorem getElem?_storeFrom_outside (h : place + bytes.length ≤ buffer.length)
    (hi : i < place ∨ place + bytes.length ≤ i) :
    (buffer.storeFrom place bytes)[i]? = buffer[i]? := by
  have hfront : (buffer.take place).length = place := List.length_take_of_le (by omega)
  rw [storeFrom_eq h]
  rcases hi with hbefore | hbehind
  · rw [List.append_assoc, List.getElem?_append_left (by omega), List.getElem?_take_of_lt hbefore]
  · have hlength : (buffer.take place ++ bytes).length = place + bytes.length := by
      rw [List.length_append, hfront]
    rw [List.getElem?_append_right (by omega), hlength, List.getElem?_drop,
      Nat.add_sub_cancel' hbehind]

/-- Storing what is there changes nothing. -/
theorem storeFrom_slice (h : place + width ≤ buffer.length) :
    buffer.storeFrom place (slice buffer place width) = buffer := by
  have hlength := length_slice h
  rw [storeFrom_eq (by rwa [hlength]), hlength, List.append_assoc, slice, ← List.drop_drop,
    List.take_append_drop, List.take_append_drop]

end Bytes

/-! ## Accesses that succeed -/

/-- There are so many bytes at the offset, and the offset behind them is a word. -/
def Buffer.Fits (b : Buffer) (width : Nat) : Prop :=
  b.offset.toNat + width < UInt64.size ∧ b.offset.toNat + width ≤ b.bytes.length

namespace Access

open Bytes (slice)

variable {α : Type} [LittleEndian α] {v : α} {b b' : Buffer} {width : Nat}

theorem stop_of_fits (h : b.Fits width) :
    stop width b = (.ok (UInt64.ofNat (b.offset.toNat + width)), b) := by
  have hwidth : (UInt64.ofNat width).toNat = width := UInt64.toNat_ofNat_of_lt' (by
    have := h.1
    omega)
  have hsum : (UInt64.ofNat (b.offset.toNat + width)).toNat = b.offset.toNat + width :=
    UInt64.toNat_ofNat_of_lt' h.1
  have hadd : Word.add? b.offset (UInt64.ofNat width) =
      some (UInt64.ofNat (b.offset.toNat + width)) := by
    rw [Word.add?_eq_some_iff, hwidth]
    exact ⟨h.1, hsum⟩
  rw [stop, hadd]
  dsimp only
  rw [hsum, if_neg (Nat.not_lt_of_le h.2)]

theorem stop_of_not_fits (hwidth : width < UInt64.size) (h : ¬b.Fits width) :
    stop width b = (.error .outOfBounds, b) := by
  unfold stop
  split
  · rename_i stop hadd
    rw [Word.add?_eq_some_iff, UInt64.toNat_ofNat_of_lt' hwidth] at hadd
    rw [if_pos]
    rw [hadd.2]
    exact Nat.lt_of_not_le fun hle => h ⟨hadd.1, hle⟩
  · rfl

/-- The buffer with the offset behind some of its bytes. -/
def passed (b : Buffer) (width : Nat) : Buffer :=
  { b with offset := UInt64.ofNat (b.offset.toNat + width) }

theorem read_of_fits (h : b.Fits (LittleEndian.width α)) : read α b =
    (.ok (LittleEndian.ofBytes (slice b.bytes b.offset.toNat (LittleEndian.width α))),
      passed b (LittleEndian.width α)) := by
  have htaken : upTo (UInt64.ofNat (b.offset.toNat + LittleEndian.width α)) b =
      (.ok (slice b.bytes b.offset.toNat (LittleEndian.width α)), b) := by
    rw [upTo, UInt64.toNat_ofNat_of_lt' h.1, Nat.add_sub_cancel_left]
    rfl
  rw [read, bind_of_ok (stop_of_fits h), bind_of_ok htaken]
  rfl

theorem write_of_fits (h : b.Fits (LittleEndian.width α)) : write v b =
    (.ok (), { passed b (LittleEndian.width α) with
      bytes := b.bytes.storeFrom b.offset.toNat (LittleEndian.toBytes v) }) := by
  rw [write, bind_of_ok (stop_of_fits h)]
  rfl

section

variable (hwidth : LittleEndian.width α < UInt64.size)
include hwidth

theorem read_of_not_fits (h : ¬b.Fits (LittleEndian.width α)) :
    read α b = (.error .outOfBounds, b) :=
  bind_of_error (stop_of_not_fits hwidth h)

theorem write_of_not_fits (h : ¬b.Fits (LittleEndian.width α)) :
    write v b = (.error .outOfBounds, b) :=
  bind_of_error (stop_of_not_fits hwidth h)

theorem read_eq_ok_iff : read α b = (.ok v, b') ↔ b.Fits (LittleEndian.width α) ∧
    slice b.bytes b.offset.toNat (LittleEndian.width α) = LittleEndian.toBytes v ∧
      b' = passed b (LittleEndian.width α) := by
  by_cases h : b.Fits (LittleEndian.width α)
  · have hlength := Bytes.length_slice h.2
    rw [read_of_fits h, Prod.mk.injEq, Except.ok.injEq, eq_comm (b := b')]
    refine ⟨fun ⟨hv, hb'⟩ => ⟨h, ?_, hb'⟩, fun ⟨_, hv, hb'⟩ => ⟨?_, hb'⟩⟩
    · rw [← hv, LittleEndian.toBytes_ofBytes _ hlength]
    · rw [hv, LittleEndian.ofBytes_toBytes]
  · rw [read_of_not_fits hwidth h]
    exact ⟨(fun hok => by cases hok), fun hok => absurd hok.1 h⟩

theorem write_eq_ok_iff : write v b = (.ok (), b') ↔ b.Fits (LittleEndian.width α) ∧
    b' = { passed b (LittleEndian.width α) with
      bytes := b.bytes.storeFrom b.offset.toNat (LittleEndian.toBytes v) } := by
  by_cases h : b.Fits (LittleEndian.width α)
  · rw [write_of_fits h, Prod.mk.injEq, eq_comm (b := b')]
    exact ⟨fun hb' => ⟨h, hb'.2⟩, fun hb' => ⟨rfl, hb'.2⟩⟩
  · rw [write_of_not_fits hwidth h]
    exact ⟨(fun hok => by cases hok), fun hok => absurd hok.1 h⟩

theorem exists_read_iff :
    (∃ v b', read α b = (.ok v, b')) ↔ b.Fits (LittleEndian.width α) := by
  constructor
  · rintro ⟨v, b', h⟩
    exact ((read_eq_ok_iff hwidth).mp h).1
  · intro h
    exact ⟨_, _, read_of_fits h⟩

theorem exists_write_iff : (∃ b', write v b = (.ok (), b')) ↔ b.Fits (LittleEndian.width α) := by
  constructor
  · rintro ⟨b', h⟩
    exact ((write_eq_ok_iff hwidth).mp h).1
  · intro h
    exact ⟨_, write_of_fits h⟩

theorem untouched_of_read_error {e : Error} (h : read α b = (.error e, b')) :
    e = .outOfBounds ∧ b' = b := by
  by_cases hfits : b.Fits (LittleEndian.width α)
  · rw [read_of_fits hfits] at h
    cases h
  · rw [read_of_not_fits hwidth hfits] at h
    cases h
    exact ⟨rfl, rfl⟩

theorem untouched_of_write_error {e : Error} (h : write v b = (.error e, b')) :
    e = .outOfBounds ∧ b' = b := by
  by_cases hfits : b.Fits (LittleEndian.width α)
  · rw [write_of_fits hfits] at h
    cases h
  · rw [write_of_not_fits hwidth hfits] at h
    cases h
    exact ⟨rfl, rfl⟩

/-! ## Reading and writing -/

theorem read_of_write (h : write v b = (.ok (), b')) :
    read α { b' with offset := b.offset } = (.ok v, b') := by
  obtain ⟨⟨hword, hinside⟩, rfl⟩ := (write_eq_ok_iff hwidth).mp h
  have hroom : b.offset.toNat + (LittleEndian.toBytes v).length ≤ b.bytes.length := by
    rwa [LittleEndian.length_toBytes]
  have hslice := Bytes.slice_storeFrom hroom
  rw [LittleEndian.length_toBytes] at hslice
  refine (read_eq_ok_iff hwidth).mpr ⟨⟨hword, ?_⟩, hslice, rfl⟩
  rw [Bytes.length_storeFrom hroom]
  exact hinside

theorem write_of_read (h : read α b = (.ok v, b')) : write v b = (.ok (), b') := by
  obtain ⟨hfits, hslice, rfl⟩ := (read_eq_ok_iff hwidth).mp h
  refine (write_eq_ok_iff hwidth).mpr ⟨hfits, ?_⟩
  rw [← hslice, Bytes.storeFrom_slice hfits.2]
  rfl

theorem read_emit (bytes : Bytes) (v : α) (h : (bytes.emit v).length < UInt64.size) :
    read α ⟨bytes.emit v, UInt64.ofNat bytes.length⟩ =
      (.ok v, ⟨bytes.emit v, UInt64.ofNat (bytes.emit v).length⟩) := by
  have hlength : (bytes.emit v).length = bytes.length + LittleEndian.width α := by
    rw [Bytes.emit, List.length_append, LittleEndian.length_toBytes]
  have hstart : (UInt64.ofNat bytes.length).toNat = bytes.length :=
    UInt64.toNat_ofNat_of_lt' (by omega)
  refine (read_eq_ok_iff hwidth).mpr ⟨⟨?_, ?_⟩, ?_, ?_⟩
  · rwa [hstart, ← hlength]
  · rw [hstart]
    exact Nat.le_of_eq hlength.symm
  · rw [hstart, Bytes.emit, slice, List.drop_left' rfl,
      List.take_of_length_le (Nat.le_of_eq (LittleEndian.length_toBytes v))]
  · rw [passed, hstart, hlength]

theorem read_eq_ok_iff_readAt? : read α b = (.ok v, b') ↔
    b.bytes.readAt? α b.offset = some (v, b'.offset) ∧ b'.bytes = b.bytes := by
  by_cases h : b.Fits (LittleEndian.width α)
  · have hread : b.bytes.readAt? α b.offset =
        some (LittleEndian.ofBytes (slice b.bytes b.offset.toNat (LittleEndian.width α)),
          (passed b (LittleEndian.width α)).offset) := if_pos h
    rw [read_of_fits h, hread]
    constructor
    · intro hok
      cases hok
      exact ⟨rfl, rfl⟩
    · rintro ⟨hsome, hbytes⟩
      obtain ⟨rfl, hoffset⟩ := Prod.mk.injEq .. |>.mp (Option.some.inj hsome)
      exact Prod.ext rfl (Buffer.ext hbytes.symm hoffset)
  · have hread : b.bytes.readAt? α b.offset = none := if_neg h
    rw [read_of_not_fits hwidth h, hread]
    exact ⟨(fun hok => by cases hok), fun hok => by cases hok.1⟩

theorem write_eq_ok_iff_writeAt? : write v b = (.ok (), b') ↔
    b.bytes.writeAt? b.offset v = some (b'.bytes, b'.offset) := by
  by_cases h : b.Fits (LittleEndian.width α)
  · have hroom : b.offset.toNat + (LittleEndian.toBytes v).length ≤ b.bytes.length := by
      rw [LittleEndian.length_toBytes]
      exact h.2
    have hwrite : b.bytes.writeAt? b.offset v =
        some (b.bytes.storeFrom b.offset.toNat (LittleEndian.toBytes v),
          (passed b (LittleEndian.width α)).offset) := by
      rw [Bytes.storeFrom_eq hroom, LittleEndian.length_toBytes]
      exact if_pos h
    rw [write_of_fits h, hwrite]
    constructor
    · intro hok
      cases hok
      rfl
    · intro hsome
      obtain ⟨hbytes, hoffset⟩ := Prod.mk.injEq .. |>.mp (Option.some.inj hsome)
      exact Prod.ext rfl (Buffer.ext hbytes hoffset)
  · have hwrite : b.bytes.writeAt? b.offset v = none := if_neg h
    rw [write_of_not_fits hwidth h, hwrite]
    exact ⟨(fun hok => by cases hok), fun hsome => by cases hsome⟩

end

end Access

/-! ## The ten types -/

namespace Primitive

variable (t : Primitive)

theorem width_eq : LittleEndian.width t.Carrier = t.width := by
  cases t <;> rfl

theorem width_lt : LittleEndian.width t.Carrier < UInt64.size := by
  cases t <;> decide

theorem toBytes_eq (v : t.Carrier) :
    LittleEndian.toBytes v = Bytes.ofNat t.width (t.pattern v) := by
  cases t <;> rfl

theorem getElem?_toBytes (v : t.Carrier) {i : Nat} (h : i < t.width) :
    (LittleEndian.toBytes v)[i]? = some (Bytes.digit (t.pattern v) i) := by
  rw [toBytes_eq, Bytes.getElem?_ofNat _ h]

end Primitive

open Access in
/-- What reading and writing a value at the offset of a buffer come to. -/
structure LawfulAccess (t : Primitive) (v : t.Carrier) (b : Buffer) : Prop where
  reads_iff : (∃ w b', read t.Carrier b = (.ok w, b')) ↔ b.Fits t.width
  writes_iff : (∃ b', write v b = (.ok (), b')) ↔ b.Fits t.width
  unread : ∀ e b', read t.Carrier b = (.error e, b') → e = .outOfBounds ∧ b' = b
  unwritten : ∀ e b', write v b = (.error e, b') → e = .outOfBounds ∧ b' = b
  length : ∀ b', write v b = (.ok (), b') → b'.bytes.length = b.bytes.length
  moved : ∀ b', write v b = (.ok (), b') → b'.offset.toNat = b.offset.toNat + t.width
  inside : ∀ b', write v b = (.ok (), b') → ∀ i < t.width,
    b'.bytes[b.offset.toNat + i]? = some (Bytes.digit (t.pattern v) i)
  outside : ∀ b', write v b = (.ok (), b') → ∀ i,
    i < b.offset.toNat ∨ b.offset.toNat + t.width ≤ i → b'.bytes[i]? = b.bytes[i]?
  readBack : ∀ b', write v b = (.ok (), b') →
    read t.Carrier { b' with offset := b.offset } = (.ok v, b')
  /-- What is read is in the buffer already. -/
  writeBack : ∀ w b', read t.Carrier b = (.ok w, b') →
    b'.bytes = b.bytes ∧ write w b = (.ok (), b')
  appended : ∀ i < t.width,
    (b.bytes.emit v)[b.bytes.length + i]? = some (Bytes.digit (t.pattern v) i)
  appendedTo : (b.bytes.emit v).length = b.bytes.length + t.width ∧
    ∀ i < b.bytes.length, (b.bytes.emit v)[i]? = b.bytes[i]?
  appendedBack : (b.bytes.emit v).length < UInt64.size →
    read t.Carrier ⟨b.bytes.emit v, UInt64.ofNat b.bytes.length⟩ =
      (.ok v, ⟨b.bytes.emit v, UInt64.ofNat (b.bytes.emit v).length⟩)
  /-- The same at once, without the steps in between. -/
  reading : ∀ w b', read t.Carrier b = (.ok w, b') ↔
    b.bytes.readAt? t.Carrier b.offset = some (w, b'.offset) ∧ b'.bytes = b.bytes
  writing : ∀ b', write v b = (.ok (), b') ↔
    b.bytes.writeAt? b.offset v = some (b'.bytes, b'.offset)

namespace Access

/-- **Reading and writing undo each other**, in the bytes of the value and nowhere
else, or do nothing at all: for each of the ten types, every value, every buffer
and every offset. -/
theorem lawful_at_every_offset (t : Primitive) (v : t.Carrier) (b : Buffer) :
    LawfulAccess t v b := by
  have hwidth := t.width_lt
  have hlength : (LittleEndian.toBytes v).length = t.width :=
    (LittleEndian.length_toBytes v).trans t.width_eq
  have hroom : ∀ b', write v b = (.ok (), b') →
      b.offset.toNat + (LittleEndian.toBytes v).length ≤ b.bytes.length := by
    intro b' h
    rw [LittleEndian.length_toBytes]
    exact ((write_eq_ok_iff hwidth).mp h).1.2
  have hbytes : ∀ b', write v b = (.ok (), b') →
      b'.bytes = b.bytes.storeFrom b.offset.toNat (LittleEndian.toBytes v) := by
    intro b' h
    rw [((write_eq_ok_iff hwidth).mp h).2]
  constructor
  case reads_iff =>
    rw [← t.width_eq]
    exact exists_read_iff hwidth
  case writes_iff =>
    rw [← t.width_eq]
    exact exists_write_iff hwidth
  case unread => exact fun e b' => untouched_of_read_error hwidth
  case unwritten => exact fun e b' => untouched_of_write_error hwidth
  case length =>
    intro b' h
    rw [hbytes b' h, Bytes.length_storeFrom (hroom b' h)]
  case moved =>
    intro b' h
    obtain ⟨hfits, rfl⟩ := (write_eq_ok_iff hwidth).mp h
    rw [← t.width_eq]
    exact UInt64.toNat_ofNat_of_lt' hfits.1
  case inside =>
    intro b' h i hi
    rw [hbytes b' h, Bytes.getElem?_storeFrom_inside (hroom b' h) (hlength.symm ▸ hi)]
    exact t.getElem?_toBytes v hi
  case outside =>
    intro b' h i hi
    rw [← hlength] at hi
    rw [hbytes b' h, Bytes.getElem?_storeFrom_outside (hroom b' h) hi]
  case readBack => exact fun b' h => read_of_write hwidth h
  case writeBack =>
    intro w b' h
    refine ⟨?_, write_of_read hwidth h⟩
    rw [((read_eq_ok_iff hwidth).mp h).2.2]
    rfl
  case appended =>
    intro i hi
    rw [Bytes.emit, List.getElem?_append_right (Nat.le_add_right ..), Nat.add_sub_cancel_left]
    exact t.getElem?_toBytes v hi
  case appendedTo =>
    refine ⟨by rw [Bytes.emit, List.length_append, hlength], fun i hi => ?_⟩
    exact List.getElem?_append_left hi
  case appendedBack => exact read_emit hwidth b.bytes v
  case reading => exact fun w b' => read_eq_ok_iff_readAt? hwidth
  case writing => exact fun b' => write_eq_ok_iff_writeAt? hwidth

/-- A NaN keeps its payload, and an offset at the end of all words does not wrap
around to the start. -/
example :
    write (⟨0x7FC01234⟩ : Binary32) ⟨[1, 2, 3, 4, 5, 6], 1⟩ =
      (.ok (), ⟨[1, 0x34, 0x12, 0xC0, 0x7F, 6], 5⟩) ∧
    read UInt16 ⟨[1, 2], 0xFFFFFFFFFFFFFFFF⟩ =
      (.error .outOfBounds, ⟨[1, 2], 0xFFFFFFFFFFFFFFFF⟩) :=
  ⟨rfl, rfl⟩

end Access

end Reroute
