import Reroute.Bytes.Cursor
import Reroute.Proofs.Run
/-!
# What readers take off their cursor

A reader that succeeds has moved its cursor over some bytes.
`Cursor.Passes` says which, and every step that readers are built from is
described by it: the step succeeds with a value exactly if the next bytes
are a form of that value, and the cursor then stands behind them. The
description goes both ways, so it answers for decoding what was encoded and
for encoding what was decoded.
-/

namespace Reroute

/-- A byte is its own form. -/
@[simp] theorem toBytes_uint8 (byte : UInt8) : LittleEndian.toBytes byte = [byte] := by
  show [UInt8.ofNat byte.toNat] = [byte]
  rw [UInt8.ofNat_toNat]

namespace Cursor

@[ext] theorem ext {c c' : Cursor} (data : c.data = c'.data)
    (position : c.position = c'.position) : c = c' := by
  cases c
  cases c'
  cases data
  cases position
  rfl

theorem length_ahead (c : Cursor) : c.ahead.length = c.remaining := List.length_drop

theorem remaining_add_position (c : Cursor) : c.remaining + c.position = c.data.length :=
  Nat.sub_add_cancel c.inside

/-- The first byte is at a multiple of everything. -/
theorem padding_start (data : Bytes) (alignment : Nat) : (start data).padding alignment = 0 := by
  simp [padding, start]

theorem hasMore_eq_true_iff {c : Cursor} : c.hasMore = true ↔ c.ahead ≠ [] := by
  rw [hasMore, decide_eq_true_eq, ← List.length_pos_iff, length_ahead, remaining]
  omega

theorem ahead_eq_nil_iff {c : Cursor} : c.ahead = [] ↔ c.remaining = 0 := by
  rw [← length_ahead, List.length_eq_zero_iff]

theorem hasMore_eq_false_iff {c : Cursor} : c.hasMore = false ↔ c.ahead = [] := by
  rw [Bool.eq_false_iff, ne_eq, hasMore_eq_true_iff, ne_eq, Decidable.not_not]

/-- The cursor `c'` stands behind `bytes`, which are the next bytes of `c`. -/
structure Passes (c : Cursor) (bytes : Bytes) (c' : Cursor) : Prop where
  data : c'.data = c.data
  ahead : c.ahead = bytes ++ c'.ahead

namespace Passes

variable {c c' c'' : Cursor} {bytes front back : Bytes}

theorem remaining (h : c.Passes bytes c') : c.remaining = bytes.length + c'.remaining := by
  rw [← length_ahead, ← length_ahead, h.ahead, List.length_append]

theorem position (h : c.Passes bytes c') : c'.position = c.position + bytes.length := by
  have hlen := h.remaining
  have hc := c.remaining_add_position
  have hc' := c'.remaining_add_position
  rw [h.data] at hc'
  omega

theorem trans (h : c.Passes front c') (h' : c'.Passes back c'') :
    c.Passes (front ++ back) c'' :=
  ⟨h'.data.trans h.data, by rw [h.ahead, h'.ahead, List.append_assoc]⟩

end Passes

@[simp] theorem passes_nil_iff {c c' : Cursor} : c.Passes [] c' ↔ c' = c := by
  constructor
  · intro h
    exact Cursor.ext h.data (by simpa using h.position)
  · rintro rfl
    exact ⟨rfl, rfl⟩

/-- A cursor can be moved over any bytes that are ahead of it. -/
theorem exists_passes {c : Cursor} {bytes rest : Bytes} (h : c.ahead = bytes ++ rest) :
    ∃ c', c.Passes bytes c' ∧ c'.ahead = rest := by
  have hlen := congrArg List.length h
  rw [length_ahead, List.length_append] at hlen
  have hinside := c.remaining_add_position
  have hahead : c.data.drop (c.position + bytes.length) = rest := by
    rw [← List.drop_drop]
    show c.ahead.drop bytes.length = rest
    rw [h, List.drop_left]
  refine ⟨⟨c.data, c.position + bytes.length, by omega⟩, ⟨rfl, ?_⟩, hahead⟩
  exact h.trans (congrArg (bytes ++ ·) hahead.symm)

theorem exists_passes_start (data : Bytes) :
    ∃ c, (start data).Passes data c ∧ c.position = data.length := by
  have hahead : (start data).ahead = data ++ [] := (List.append_nil data).symm
  obtain ⟨c, hpass, -⟩ := exists_passes hahead
  exact ⟨c, hpass, hpass.position.trans (Nat.zero_add _)⟩

theorem passes_append_iff {c c'' : Cursor} {front back : Bytes} :
    c.Passes (front ++ back) c'' ↔ ∃ c', c.Passes front c' ∧ c'.Passes back c'' := by
  constructor
  · intro h
    obtain ⟨c', hfront, hahead⟩ :=
      exists_passes (h.ahead.trans (List.append_assoc front back c''.ahead))
    exact ⟨c', hfront, h.data.trans hfront.data.symm, hahead⟩
  · rintro ⟨c', hfront, hback⟩
    exact hfront.trans hback

/-- The bytes that lie between two places. -/
theorem take?_eq_some_iff {c c' : Cursor} {count : Nat} {bytes : Bytes} :
    c.take? count = some (bytes, c') ↔ bytes.length = count ∧ c.Passes bytes c' := by
  unfold take? advance? seek?
  constructor
  · intro h
    split at h
    · rename_i hinside
      simp only [Option.map_some, Option.some.injEq, Prod.mk.injEq] at h
      obtain ⟨rfl, rfl⟩ := h
      have hlen := length_ahead c
      have hc := c.remaining_add_position
      refine ⟨by rw [List.length_take]; omega, rfl, ?_⟩
      show c.ahead = c.ahead.take count ++ c.data.drop (c.position + count)
      rw [← List.drop_drop]
      exact (List.take_append_drop count c.ahead).symm
    · cases h
  · rintro ⟨rfl, h⟩
    have hposition := h.position
    have hinside : c.position + bytes.length ≤ c.data.length := by
      rw [← hposition, ← h.data]
      exact c'.inside
    have hc' : c' = ⟨c.data, c.position + bytes.length, hinside⟩ := Cursor.ext h.data hposition
    rw [dif_pos hinside, Option.map_some, h.ahead, List.take_left, hc']

end Cursor

namespace Reader

variable {α : Type}

/-! ## Steps that move the cursor -/

theorem ofStep_eq_ok_iff {step : Cursor → Option (α × Cursor)} {v : α} {c c' : Cursor} :
    ofStep step c = (.ok v, c') ↔ step c = some (v, c') := by
  unfold ofStep
  cases step c with
  | none => constructor <;> intro h <;> cases h
  | some moved =>
      constructor <;> intro h <;> cases h <;> rfl

/-- A fixed-width value is read exactly where its form is ahead. -/
@[simp] theorem value_eq_ok_iff [LittleEndian α] {v : α} {c c' : Cursor} :
    value α c = (.ok v, c') ↔ c.Passes (LittleEndian.toBytes v) c' := by
  rw [value, ofStep_eq_ok_iff, Option.map_eq_some_iff]
  constructor
  · rintro ⟨⟨bytes, behind⟩, htake, heq⟩
    obtain ⟨rfl, rfl⟩ := Prod.mk.injEq .. |>.mp heq
    obtain ⟨hlen, hpass⟩ := Cursor.take?_eq_some_iff.mp htake
    rwa [LittleEndian.toBytes_ofBytes bytes hlen]
  · intro hpass
    refine ⟨(LittleEndian.toBytes v, c'), Cursor.take?_eq_some_iff.mpr ⟨?_, hpass⟩, ?_⟩
    · exact LittleEndian.length_toBytes v
    · rw [LittleEndian.ofBytes_toBytes]

@[simp] theorem bytes_eq_ok_iff {count : Nat} {taken : Bytes} {c c' : Cursor} :
    bytes count c = (.ok taken, c') ↔ taken.length = count ∧ c.Passes taken c' := by
  rw [bytes, ofStep_eq_ok_iff, Cursor.take?_eq_some_iff]

@[simp] theorem seek_eq_ok_iff {position : Nat} {c c' : Cursor} :
    seek position c = (.ok (), c') ↔ c'.data = c.data ∧ c'.position = position := by
  rw [seek, ofStep_eq_ok_iff, Option.map_eq_some_iff]
  unfold Cursor.seek?
  constructor
  · rintro ⟨moved, hseek, heq⟩
    obtain ⟨-, rfl⟩ := Prod.mk.injEq .. |>.mp heq
    split at hseek
    · cases hseek
      exact ⟨rfl, rfl⟩
    · cases hseek
  · rintro ⟨hdata, rfl⟩
    refine ⟨c', ?_, rfl⟩
    rw [dif_pos (hdata ▸ c'.inside)]
    exact congrArg some (Cursor.ext hdata.symm rfl)

/-- Bytes that are skipped can be any. -/
@[simp] theorem advance_eq_ok_iff {count : Nat} {c c' : Cursor} :
    advance count c = (.ok (), c') ↔ ∃ skipped, skipped.length = count ∧ c.Passes skipped c' := by
  have htake : advance count c = (.ok (), c') ↔ ∃ taken, c.take? count = some (taken, c') := by
    rw [advance, ofStep_eq_ok_iff, Cursor.take?]
    cases c.advance? count with
    | none => simp
    | some moved => simp
  simp only [htake, Cursor.take?_eq_some_iff]

@[simp] theorem align_eq_ok_iff {alignment : Nat} {c c' : Cursor} :
    align alignment c = (.ok (), c') ↔
      ∃ skipped, skipped.length = c.padding alignment ∧ c.Passes skipped c' :=
  advance_eq_ok_iff

@[simp] theorem u24_eq_ok_iff {v : UInt32} {c c' : Cursor} :
    u24 c = (.ok v, c') ↔
      ∃ taken, taken.length = 3 ∧ UInt32.ofNat (Bytes.toNat taken) = v ∧ c.Passes taken c' := by
  rw [u24, ofStep_eq_ok_iff, Option.map_eq_some_iff]
  constructor
  · rintro ⟨⟨taken, behind⟩, htake, heq⟩
    obtain ⟨rfl, rfl⟩ := Prod.mk.injEq .. |>.mp heq
    obtain ⟨hlen, hpass⟩ := Cursor.take?_eq_some_iff.mp htake
    exact ⟨taken, hlen, rfl, hpass⟩
  · rintro ⟨taken, hlen, rfl, hpass⟩
    exact ⟨(taken, c'), Cursor.take?_eq_some_iff.mpr ⟨hlen, hpass⟩, rfl⟩

/-! ## Steps that look only -/

@[simp] theorem position_eq_ok_iff {n : Nat} {c c' : Cursor} :
    position c = (.ok n, c') ↔ c.position = n ∧ c = c' :=
  ⟨fun h => by cases h; exact ⟨rfl, rfl⟩, by rintro ⟨rfl, rfl⟩; rfl⟩

@[simp] theorem remaining_eq_ok_iff {n : Nat} {c c' : Cursor} :
    remaining c = (.ok n, c') ↔ c.remaining = n ∧ c = c' :=
  ⟨fun h => by cases h; exact ⟨rfl, rfl⟩, by rintro ⟨rfl, rfl⟩; rfl⟩

@[simp] theorem hasMore_eq_ok_iff {more : Bool} {c c' : Cursor} :
    hasMore c = (.ok more, c') ↔ c.hasMore = more ∧ c = c' :=
  ⟨fun h => by cases h; exact ⟨rfl, rfl⟩, by rintro ⟨rfl, rfl⟩; rfl⟩

@[simp] theorem peek_eq_ok_iff {byte : UInt8} {c c' : Cursor} :
    peek c = (.ok byte, c') ↔ c.ahead.head? = some byte ∧ c = c' := by
  rw [peek, ofStep_eq_ok_iff, Option.map_eq_some_iff, Cursor.ahead, List.head?_drop]
  constructor
  · rintro ⟨found, hfound, heq⟩
    cases heq
    exact ⟨hfound, rfl⟩
  · rintro ⟨hfound, rfl⟩
    exact ⟨byte, hfound, rfl⟩

@[simp] theorem fail_ne_ok {error : Error} {v : α} {c c' : Cursor} :
    fail error c ≠ (.ok v, c') := fun h => by cases h

@[simp] theorem namingDefect_eq_ok_iff {defect : Cursor → Defect} {r : Reader α} {v : α}
    {c c' : Cursor} : r.namingDefect defect c = (.ok v, c') ↔ r c = (.ok v, c') := by
  unfold namingDefect
  split
  · rename_i behind hr
    rw [hr]
    constructor <;> intro h <;> cases h
  · exact Iff.rfl

theorem runOn_eq_ok_iff {r : Reader α} {data : Bytes} {v : α} :
    (r.runOn data).1 = .ok v ↔ ∃ c, r (.start data) = (.ok v, c) :=
  ⟨fun h => ⟨_, Prod.ext h rfl⟩, fun ⟨_, h⟩ => congrArg Prod.fst h⟩

/-! ## Errors -/

theorem ofStep_failsOnly {step : Cursor → Option (α × Cursor)} :
    FailsOnly (· = Error.outOfBounds) (ofStep step) := by
  intro c e c' h
  unfold ofStep at h
  split at h
  · cases h
  · cases h
    rfl

theorem position_failsOnly {P : Error → Prop} : FailsOnly P position := fun _ _ _ h => by cases h

theorem remaining_failsOnly {P : Error → Prop} : FailsOnly P remaining := fun _ _ _ h => by cases h

theorem hasMore_failsOnly {P : Error → Prop} : FailsOnly P hasMore := fun _ _ _ h => by cases h

theorem fail_failsOnly {P : Error → Prop} {error : Error} (h : P error) :
    FailsOnly P (fail error : Reader α) := by
  intro c e c' hfail
  cases hfail
  exact h

/-- A reader that can only run out of bytes has only malformed input to
complain about once that defect has a name. -/
theorem namingDefect_failsOnly {defect : Cursor → Defect} {r : Reader α}
    (h : FailsOnly (fun e => e = .outOfBounds ∨ e.isMalformed) r) :
    FailsOnly (fun e => e.isMalformed) (r.namingDefect defect) := by
  intro c e c' hfail
  unfold namingDefect at hfail
  split at hfail
  · cases hfail
    rfl
  · rename_i hne
    rcases h c e c' hfail with rfl | hmalformed
    · exact absurd hfail (hne c')
    · exact hmalformed

end Reader

end Reroute
