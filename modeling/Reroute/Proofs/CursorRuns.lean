import Mathlib.Order.Bounds.Basic
import Reroute.Bytes.Command
import Reroute.Proofs.Places
/-!
# Runs of a cursor

Whatever is asked of a cursor, and however often it refuses, it stays inside of its
bytes. `Command.Grants` says by the bytes and the place alone what a command comes
to; a command either comes to that or runs out of bytes and moves nothing
(`perform_eq_ok_iff`, `perform_movesOrRefuses`).

The cursor that computes in machine words stands at the same place all the way
(`WordCursor.Tracks.after`): as it compares before it adds, none of its sums wraps.
-/

namespace Reroute

/-! ## Three bytes as a number -/

theorem toNat_three_bytes (low middle high : UInt8) :
    (UInt32.ofNat (Bytes.toNat [low, middle, high])).toNat =
      low.toNat + 256 * middle.toNat + 65536 * high.toNat := by
  have hlow := low.toNat_lt
  have hmiddle := middle.toNat_lt
  have hhigh := high.toNat_lt
  rw [UInt32.toNat_ofNat']
  simp only [Bytes.toNat]
  omega

/-- No bit of a byte is shifted out of a word. -/
theorem toNat_shiftLeft_byte (byte : UInt8) {shift : UInt32} (h : shift.toNat ≤ 24) :
    (byte.toUInt32 <<< shift).toNat = byte.toNat <<< shift.toNat := by
  have hpow : 2 ^ shift.toNat ≤ 2 ^ 24 := Nat.pow_le_pow_right (by decide) h
  have hshift : shift.toNat < 32 := by omega
  rw [UInt32.toNat_shiftLeft, UInt8.toNat_toUInt32, Nat.mod_eq_of_lt hshift]
  refine Nat.mod_eq_of_lt ?_
  rw [Nat.shiftLeft_eq]
  calc byte.toNat * 2 ^ shift.toNat
      < 2 ^ 8 * 2 ^ 24 := Nat.mul_lt_mul_of_lt_of_le byte.toNat_lt hpow (by decide)
    _ = 2 ^ 32 := rfl

/-- Bytes that are shifted next to each other do not overlap. -/
theorem or_shiftLeft_bytes (low middle high : UInt8) :
    low.toUInt32 ||| middle.toUInt32 <<< 8 ||| high.toUInt32 <<< 16 =
      UInt32.ofNat (Bytes.toNat [low, middle, high]) := by
  have hlow := low.toNat_lt
  have hmiddle := middle.toNat_lt
  have hhigh := high.toNat_lt
  have hpair : low.toNat ||| middle.toNat <<< 8 = low.toNat + 256 * middle.toNat := by
    rw [Nat.or_comm, ← Nat.shiftLeft_add_eq_or_of_lt hlow, Nat.shiftLeft_eq]
    omega
  have htriple : (low.toNat + 256 * middle.toNat) ||| high.toNat <<< 16 =
      low.toNat + 256 * middle.toNat + 65536 * high.toNat := by
    rw [Nat.or_comm, ← Nat.shiftLeft_add_eq_or_of_lt (by omega), Nat.shiftLeft_eq]
    omega
  apply UInt32.toNat.inj
  rw [UInt32.toNat_or, UInt32.toNat_or, toNat_shiftLeft_byte middle (by decide),
    toNat_shiftLeft_byte high (by decide), UInt8.toNat_toUInt32, toNat_three_bytes]
  exact (congrArg (· ||| high.toNat <<< 16) hpair).trans htriple

/-! ## Places -/

theorem toNat_pos_of_ne_zero {word : UInt64} (h : word ≠ 0) : 0 < word.toNat :=
  Nat.pos_of_ne_zero fun hzero => h (UInt64.toNat.inj hzero)

namespace Cursor

variable {c c' : Cursor} {taken : Bytes}

theorem passes_iff_prefix : c.Passes taken c' ↔
    c'.data = c.data ∧ taken <+: c.ahead ∧ c'.position = c.position + taken.length := by
  constructor
  · intro h
    exact ⟨h.data, ⟨c'.ahead, h.ahead.symm⟩, h.position⟩
  · rintro ⟨hdata, ⟨rest, hrest⟩, hposition⟩
    obtain ⟨behind, hpass, -⟩ := exists_passes hrest.symm
    have hbehind : c' = behind :=
      Cursor.ext (hdata.trans hpass.data.symm) (hposition.trans hpass.position.symm)
    rwa [hbehind]

/-- The padding leads to the least multiple that is not behind the cursor. -/
theorem isLeast_add_padding (c : Cursor) {alignment : Nat} (h : 0 < alignment) :
    IsLeast {m | alignment ∣ m ∧ c.position ≤ m} (c.position + c.padding alignment) := by
  have hsplit := Nat.div_add_mod c.position alignment
  have hmod := Nat.mod_lt c.position h
  unfold padding
  rcases Nat.eq_zero_or_pos (c.position % alignment) with hzero | hpos
  · rw [hzero, Nat.sub_zero, Nat.mod_self, Nat.add_zero]
    exact ⟨⟨Nat.dvd_of_mod_eq_zero hzero, Nat.le_refl _⟩, fun m hm => hm.2⟩
  · rw [Nat.mod_eq_of_lt (Nat.sub_lt h hpos)]
    have hplace : c.position + (alignment - c.position % alignment) =
        alignment * (c.position / alignment + 1) := by
      rw [Nat.mul_succ]
      omega
    rw [hplace]
    refine ⟨⟨Nat.dvd_mul_right .., by rw [Nat.mul_succ]; omega⟩, ?_⟩
    rintro m ⟨⟨q, rfl⟩, hle⟩
    -- a smaller quotient is at most that of the position, which is no multiple
    refine Nat.mul_le_mul_left _ (Nat.succ_le_of_lt (Nat.lt_of_not_le fun hq => ?_))
    have hsmall := Nat.mul_le_mul_left alignment hq
    omega

end Cursor

namespace Reader

variable {α : Type} {c c' : Cursor}

theorem move_eq_ok_iff {place : Nat} :
    seek place c = (.ok (), c') ↔
      c'.data = c.data ∧ c'.position = place ∧ c'.position ≤ c.data.length := by
  rw [seek_eq_ok_iff]
  constructor
  · rintro ⟨hdata, hposition⟩
    exact ⟨hdata, hposition, hdata ▸ c'.inside⟩
  · rintro ⟨hdata, hposition, -⟩
    exact ⟨hdata, hposition⟩

theorem align_eq_ok_iff_least {alignment : UInt64} (nonzero : alignment ≠ 0) :
    align alignment.toNat c = (.ok (), c') ↔ c'.data = c.data ∧
      IsLeast {m | alignment.toNat ∣ m ∧ c.position ≤ m} c'.position ∧
        c'.position ≤ c.data.length := by
  have hleast := c.isLeast_add_padding (toNat_pos_of_ne_zero nonzero)
  refine move_eq_ok_iff.trans (and_congr_right fun _ => and_congr_left fun _ => ?_)
  constructor
  · intro h
    rwa [h]
  · intro h
    exact h.unique hleast

theorem u24_eq_ok_iff_bytes {v : UInt32} :
    u24 c = (.ok v, c') ↔ c'.data = c.data ∧
      ∃ low middle high : UInt8, [low, middle, high] <+: c.ahead ∧
        v.toNat = low.toNat + 256 * middle.toNat + 65536 * high.toNat ∧
          c'.position = c.position + 3 := by
  rw [u24_eq_ok_iff]
  constructor
  · rintro ⟨taken, hlen, rfl, hpass⟩
    obtain ⟨hdata, hhere, hposition⟩ := Cursor.passes_iff_prefix.mp hpass
    obtain ⟨low, middle, high, rfl⟩ := List.length_eq_three.mp hlen
    exact ⟨hdata, low, middle, high, hhere, toNat_three_bytes low middle high, hposition⟩
  · rintro ⟨hdata, low, middle, high, hhere, hv, hposition⟩
    refine ⟨[low, middle, high], rfl, UInt32.toNat.inj ?_, ?_⟩
    · rw [toNat_three_bytes, hv]
    · exact Cursor.passes_iff_prefix.mpr ⟨hdata, hhere, hposition⟩

/-- Where a reader does not succeed, it runs out of bytes and moves nothing. -/
def MovesOrRefuses (r : Reader α) : Prop :=
  ∀ c, (∃ v c', r c = (.ok v, c')) ∨ r c = (.error .outOfBounds, c)

theorem MovesOrRefuses.ofStep {step : Cursor → Option (α × Cursor)} :
    MovesOrRefuses (Reader.ofStep step) := by
  intro c
  unfold Reader.ofStep
  split
  · exact .inl ⟨_, _, rfl⟩
  · exact .inr rfl

theorem MovesOrRefuses.advance (count : Nat) : MovesOrRefuses (Reader.advance count) :=
  MovesOrRefuses.ofStep

theorem MovesOrRefuses.bytes (count : Nat) : MovesOrRefuses (Reader.bytes count) :=
  MovesOrRefuses.ofStep

theorem MovesOrRefuses.u24 : MovesOrRefuses Reader.u24 := MovesOrRefuses.ofStep

end Reader

/-! ## What commands come to -/

namespace Command

/-- The answer to a command at a place in some bytes, and the place behind it. -/
def Grants (data : Bytes) (place : Nat) : {α : Type} → Command α → α → Nat → Prop
  | _, .seek position, _, behind => behind = position.toNat ∧ behind ≤ data.length
  | _, .reset, _, behind => behind = 0
  | _, .advance count, _, behind => behind = place + count.toNat ∧ behind ≤ data.length
  | _, .align alignment _, _, behind =>
    IsLeast {m | alignment.toNat ∣ m ∧ place ≤ m} behind ∧ behind ≤ data.length
  | _, .peek, byte, behind => [byte] <+: data.drop place ∧ behind = place
  | _, .bytes count, taken, behind =>
    taken.length = count.toNat ∧ taken <+: data.drop place ∧ behind = place + taken.length
  | _, @Command.value _ _, v, behind =>
    LittleEndian.toBytes v <+: data.drop place ∧
      behind = place + (LittleEndian.toBytes v).length
  | _, .u24, v, behind => ∃ low middle high : UInt8, [low, middle, high] <+: data.drop place ∧
      v.toNat = low.toNat + 256 * middle.toNat + 65536 * high.toNat ∧ behind = place + 3

variable {α : Type} {command : Command α} {v : α} {c c' : Cursor}

/-- **A command succeeds exactly with what it grants**, and the cursor then stands
at the place behind it, in the same bytes. -/
theorem perform_eq_ok_iff : command.perform c = (.ok v, c') ↔
    c'.data = c.data ∧ Grants c.data c.position command v c'.position := by
  cases command with
  | seek position => exact Reader.move_eq_ok_iff
  | reset =>
      constructor
      · intro h
        cases h
        exact ⟨rfl, rfl⟩
      · rintro ⟨hdata, hposition⟩
        exact Prod.ext rfl (Cursor.ext hdata.symm hposition.symm)
  | advance count => exact Reader.move_eq_ok_iff
  | align alignment nonzero => exact Reader.align_eq_ok_iff_least nonzero
  | peek =>
      refine Reader.peek_eq_ok_iff.trans ?_
      rw [List.head?_eq_some_iff]
      constructor
      · rintro ⟨⟨rest, hrest⟩, rfl⟩
        exact ⟨rfl, ⟨rest, hrest.symm⟩, rfl⟩
      · rintro ⟨hdata, ⟨rest, hrest⟩, hposition⟩
        exact ⟨⟨rest, hrest.symm⟩, Cursor.ext hdata.symm hposition.symm⟩
  | bytes count =>
      refine Reader.bytes_eq_ok_iff.trans ?_
      rw [Cursor.passes_iff_prefix, and_left_comm]
      exact Iff.rfl
  | value α => exact Reader.value_eq_ok_iff.trans Cursor.passes_iff_prefix
  | u24 => exact Reader.u24_eq_ok_iff_bytes

theorem perform_movesOrRefuses (command : Command α) : Reader.MovesOrRefuses command.perform := by
  cases command with
  | seek => exact .ofStep
  | reset => exact fun c => .inl ⟨(), .start c.data, rfl⟩
  | advance count => exact .advance count.toNat
  | align alignment => exact fun c => Reader.MovesOrRefuses.advance (c.padding alignment.toNat) c
  | peek => exact .ofStep
  | bytes count => exact .bytes count.toNat
  | value => exact .ofStep
  | u24 => exact .u24

theorem data_perform (command : Command α) (c : Cursor) : (command.perform c).2.data = c.data := by
  rcases perform_movesOrRefuses command c with ⟨v, c', h⟩ | h
  · rw [h]
    exact (perform_eq_ok_iff.mp h).1
  · rw [h]

end Command

/-! ## Runs -/

theorem Cursor.data_after (c : Cursor) (commands : List (Sigma Command)) :
    (c.after commands).data = c.data := by
  induction commands generalizing c with
  | nil => rfl
  | cons command rest ih =>
      calc (c.after (command :: rest)).data
          = ((command.2.perform c).2.after rest).data := rfl
        _ = (command.2.perform c).2.data := ih _
        _ = c.data := command.2.data_perform c

/-! ## In words -/

namespace WordCursor

/-- A cursor in words that stands where another cursor does. -/
structure Tracks (w : WordCursor) (c : Cursor) : Prop where
  data : w.data = c.data
  position : w.position.toNat = c.position
  fits : c.data.length < UInt64.size

/-- Two runs of a step that end in the same answer and at the same place. -/
def Agree {α : Type} (w : Except Error α × WordCursor) (c : Except Error α × Cursor) : Prop :=
  w.1 = c.1 ∧ Tracks w.2 c.2

namespace Tracks

variable {α : Type} {w : WordCursor} {c : Cursor}

theorem start {data : Bytes} (fits : data.length < UInt64.size) :
    Tracks (.start data) (.start data) := ⟨rfl, rfl, fits⟩

theorem size (h : Tracks w c) : w.size.toNat = c.data.length := by
  rw [WordCursor.size, h.data]
  exact UInt64.toNat_ofNat_of_lt' h.fits

theorem inside (h : Tracks w c) : w.position ≤ w.size := by
  rw [UInt64.le_iff_toNat_le, h.position, h.size]
  exact c.inside

theorem remaining_eq (h : Tracks w c) : w.remaining = w.size - w.position := if_pos h.inside

theorem remaining (h : Tracks w c) : w.remaining.toNat = c.remaining := by
  rw [h.remaining_eq, UInt64.toNat_sub_of_le _ _ h.inside, h.size, h.position]
  rfl

/-- A sum that stays inside does not wrap. -/
theorem toNat_position_add (h : Tracks w c) {count : UInt64}
    (hinside : c.position + count.toNat ≤ c.data.length) :
    (w.position + count).toNat = c.position + count.toNat := by
  have hfits := h.fits
  rw [UInt64.toNat_add, h.position, Nat.mod_eq_of_lt]
  exact Nat.lt_of_le_of_lt hinside hfits

theorem remaining_lt_iff (h : Tracks w c) {count : UInt64} :
    w.remaining < count ↔ ¬c.position + count.toNat ≤ c.data.length := by
  have hinside := c.inside
  rw [UInt64.lt_iff_toNat_lt, h.remaining, Cursor.remaining]
  omega

theorem toNat_padding (h : Tracks w c) (alignment : UInt64) (nonzero : alignment ≠ 0) :
    ((alignment - w.position % alignment) % alignment).toNat = c.padding alignment.toNat := by
  have hpos := toNat_pos_of_ne_zero nonzero
  have hle : w.position % alignment ≤ alignment := by
    rw [UInt64.le_iff_toNat_le, UInt64.toNat_mod]
    exact Nat.le_of_lt (Nat.mod_lt _ hpos)
  rw [UInt64.toNat_mod, UInt64.toNat_sub_of_le _ _ hle, UInt64.toNat_mod, h.position]
  rfl

theorem refused (h : Tracks w c) :
    Agree ((.error .outOfBounds, w) : Except Error α × WordCursor) (.error .outOfBounds, c) :=
  ⟨rfl, h⟩

/-- A move to a place that is compared with the end first. -/
theorem move (h : Tracks w c) {place : UInt64} {n : Nat} {beyond : Prop} [Decidable beyond]
    (hbeyond : beyond ↔ ¬n ≤ c.data.length) (hplace : n ≤ c.data.length → place.toNat = n) :
    Agree (if beyond then (.error .outOfBounds, w) else (.ok (), { w with position := place }))
      (Reader.seek n c) := by
  -- the same comparison decides both, the one on words and the one on numbers
  unfold Reader.seek Reader.ofStep Cursor.seek?
  by_cases hinside : n ≤ c.data.length
  · rw [if_neg fun h => hbeyond.mp h hinside]
    simp only [hinside, dite_true, Option.map_some]
    exact ⟨rfl, h.data, hplace hinside, h.fits⟩
  · rw [if_pos (hbeyond.mpr hinside)]
    simp only [hinside, dite_false, Option.map_none]
    exact h.refused

theorem seek (h : Tracks w c) (position : UInt64) :
    Agree (WordReader.seek position w) (Reader.seek position.toNat c) := by
  refine h.move ?_ fun _ => rfl
  rw [UInt64.lt_iff_toNat_lt, h.size, Nat.not_le]

theorem advance (h : Tracks w c) (count : UInt64) :
    Agree (WordReader.advance count w) (Reader.advance count.toNat c) :=
  h.move h.remaining_lt_iff h.toNat_position_add

theorem align (h : Tracks w c) (alignment : UInt64) (nonzero : alignment ≠ 0) :
    Agree (WordReader.align alignment w) (Reader.align alignment.toNat c) := by
  have hadvance := h.advance ((alignment - w.position % alignment) % alignment)
  rwa [h.toNat_padding alignment nonzero] at hadvance

theorem peek (h : Tracks w c) : Agree (WordReader.peek w) (Reader.peek c) := by
  unfold WordReader.peek Reader.peek Reader.ofStep
  rw [h.data, h.position]
  cases hbyte : c.data[c.position]? with
  | some byte =>
      simp only [hbyte, Option.map_some]
      exact ⟨rfl, h⟩
  | none =>
      simp only [hbyte, Option.map_none]
      exact h.refused

theorem bytes (h : Tracks w c) (count : UInt64) :
    Agree (WordReader.bytes count w) (Reader.bytes count.toNat c) := by
  unfold WordReader.bytes Reader.bytes Reader.ofStep Cursor.take? Cursor.advance? Cursor.seek?
  by_cases hinside : c.position + count.toNat ≤ c.data.length
  · have hsum := h.toNat_position_add hinside
    rw [if_neg fun hlt => h.remaining_lt_iff.mp hlt hinside]
    simp only [hinside, dite_true, Option.map_some]
    refine ⟨?_, h.data, hsum, h.fits⟩
    rw [WordCursor.between, hsum, h.data, h.position, Nat.add_sub_cancel_left, Cursor.ahead]
  · rw [if_pos (h.remaining_lt_iff.mpr hinside)]
    simp only [hinside, dite_false, Option.map_none]
    exact h.refused

theorem value (h : Tracks w c) (α : Type) [LittleEndian α] :
    Agree (WordReader.value α w) (Reader.value α c) := by
  have hfits := h.fits
  unfold WordReader.value Reader.value Reader.ofStep Bytes.readAt? Cursor.take? Cursor.advance?
    Cursor.seek?
  rw [h.data, h.position]
  by_cases hinside : c.position + LittleEndian.width α ≤ c.data.length
  · have hstop : c.position + LittleEndian.width α < UInt64.size :=
      Nat.lt_of_le_of_lt hinside hfits
    simp only [hinside, hstop, and_self, if_true, dite_true, Option.map_some]
    exact ⟨rfl, rfl, UInt64.toNat_ofNat_of_lt' hstop, hfits⟩
  · simp only [hinside, and_false, if_false, dite_false, Option.map_none]
    exact h.refused

theorem u24 (h : Tracks w c) : Agree (WordReader.u24 w) (Reader.u24 c) := by
  have hbytes : Agree (WordReader.bytes 3 w) (Reader.bytes 3 c) := h.bytes 3
  rcases Reader.MovesOrRefuses.bytes 3 c with ⟨taken, c', hok⟩ | herror
  · obtain ⟨hlen, hpass⟩ := Reader.bytes_eq_ok_iff.mp hok
    obtain ⟨low, middle, high, rfl⟩ := List.length_eq_three.mp hlen
    have hnumber : Reader.u24 c = (.ok _, c') := Reader.u24_eq_ok_iff.mpr ⟨_, hlen, rfl, hpass⟩
    rw [hok] at hbytes
    have hwords : WordReader.bytes 3 w = (.ok [low, middle, high], (WordReader.bytes 3 w).2) :=
      Prod.ext hbytes.1 rfl
    rw [hnumber, WordReader.u24, bind_of_ok hwords]
    exact ⟨congrArg Except.ok (or_shiftLeft_bytes low middle high), hbytes.2⟩
  · have hnumber : Reader.u24 c = (.error .outOfBounds, c) := by
      rcases Reader.MovesOrRefuses.u24 c with ⟨v, c', hok⟩ | hfails
      · obtain ⟨taken, hlen, -, hpass⟩ := Reader.u24_eq_ok_iff.mp hok
        rw [Reader.bytes_eq_ok_iff.mpr ⟨hlen, hpass⟩] at herror
        cases herror
      · exact hfails
    rw [herror] at hbytes
    have hwords : WordReader.bytes 3 w = (.error .outOfBounds, (WordReader.bytes 3 w).2) :=
      Prod.ext hbytes.1 rfl
    rw [hnumber, WordReader.u24, bind_of_error hwords]
    exact ⟨rfl, hbytes.2⟩

theorem perform (h : Tracks w c) (command : Command α) :
    Agree (command.performInWords w) (command.perform c) := by
  cases command with
  | seek position => exact h.seek position
  | reset => exact ⟨rfl, h.data, rfl, h.fits⟩
  | advance count => exact h.advance count
  | align alignment nonzero => exact h.align alignment nonzero
  | peek => exact h.peek
  | bytes count => exact h.bytes count
  | value α => exact h.value α
  | u24 => exact h.u24

/-- The two cursors stand at the same place behind every run. -/
theorem after (h : Tracks w c) (commands : List (Sigma Command)) :
    Tracks (w.after commands) (c.after commands) := by
  induction commands generalizing w c with
  | nil => exact h
  | cons command rest ih => exact ih (h.perform command.2).2

end Tracks

end WordCursor

/-! ## Every run -/

/-- What holds of two cursors on some bytes, the second one in words, and of all
that can be asked of them next. -/
structure SafeRun (data : Bytes) (c : Cursor) (w : WordCursor) : Prop where
  same : c.data = data
  inside : c.position ≤ data.length
  remaining : c.remaining = data.length - c.position
  granted : ∀ {α : Type} (command : Command α) (v : α) (c' : Cursor),
    command.perform c = (.ok v, c') ↔
      c'.data = data ∧ command.Grants data c.position v c'.position
  refused : ∀ {α : Type} (command : Command α) (e : Error) (c' : Cursor),
    command.perform c = (.error e, c') → e = .outOfBounds ∧ c' = c
  /-- Computing in words, which may wrap around, comes to the same. -/
  inWords : data.length < UInt64.size →
    w.Tracks c ∧ w.position ≤ w.size ∧ w.remaining = w.size - w.position ∧
      ∀ {α : Type} (command : Command α),
        WordCursor.Agree (command.performInWords w) (command.perform c)

/-- **No run leads a cursor out of its bytes**: whatever has been asked of it, and
however much of that was refused. -/
theorem Cursor.after_safe (data : Bytes) (commands : List (Sigma Command)) :
    SafeRun data ((start data).after commands) ((WordCursor.start data).after commands) := by
  have hdata : ((start data).after commands).data = data := data_after _ _
  have hinside := ((start data).after commands).inside
  rw [hdata] at hinside
  refine ⟨hdata, hinside, ?_, ?_, ?_, ?_⟩
  · exact congrArg (fun bytes => bytes.length - _) hdata
  · intro α command v c'
    rw [Command.perform_eq_ok_iff, hdata]
  · intro α command e c' h
    rcases command.perform_movesOrRefuses ((start data).after commands) with ⟨v, c'', hok⟩ | herror
    · rw [hok] at h
      cases h
    · rw [herror] at h
      cases h
      exact ⟨rfl, rfl⟩
  · intro fits
    have htracks := (WordCursor.Tracks.start fits).after commands
    exact ⟨htracks, htracks.inside, htracks.remaining_eq, fun command => htracks.perform command⟩

/-- A step so long that the sum wraps around is refused. -/
example : ((WordCursor.start [1, 2, 3]).after
    [⟨Unit, .advance 2⟩, ⟨Unit, .advance 0xFFFFFFFFFFFFFFFF⟩]).position = 2 := by decide

end Reroute
