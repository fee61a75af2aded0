import Reroute.Proofs.StreamForm
/-!
# What a stream hands out

A stream hands out the instructions from its cursor on, and for the first
that does not decode the error in its place, behind which there is nothing.
`Items` says so without the count of tries that the stream is run with. If
no item is an error, the items are what decoding to the end finds.
-/

namespace Reroute

namespace Instruction

/-- The items from a cursor on. -/
inductive Items : Cursor → List (Except Error Instruction) → Prop where
  | done {c : Cursor} (done : c.ahead = []) : Items c []
  | failed {c c' : Cursor} {e : Error} (more : c.ahead ≠ []) (fails : read c = (.error e, c')) :
      Items c [.error e]
  | next {c c' : Cursor} {i : Instruction} {rest : List (Except Error Instruction)}
      (reads : read c = (.ok i, c')) (behind : Items c' rest) : Items c (.ok i :: rest)

variable {c c' : Cursor} {i : Instruction} {instructions : List Instruction}

theorem ahead_ne_nil_of_read (h : read c = (.ok i, c')) : c.ahead ≠ [] := by
  obtain ⟨bytes, hencode, hpass, -⟩ := read_eq_ok_iff.mp h
  have hpos := length_pos_of_encode hencode
  rw [hpass.ahead]
  intro hnil
  rw [(List.append_eq_nil_iff.mp hnil).1] at hpos
  exact Nat.lt_irrefl 0 hpos

theorem remaining_lt_of_read (h : read c = (.ok i, c')) : c'.remaining < c.remaining := by
  obtain ⟨bytes, hencode, hpass, -⟩ := read_eq_ok_iff.mp h
  have hpos := length_pos_of_encode hencode
  have hremaining := hpass.remaining
  omega

/-- The induction is on the tries; each instruction takes a byte, so one try
is left to notice the end. -/
theorem items_of_stream {count : Nat} (h : c.remaining < count) :
    Items c (InstructionStream.items count ⟨c, false⟩).1 := by
  induction count generalizing c with
  | zero => exact absurd h (Nat.not_lt_zero _)
  | succ count ih =>
      rw [InstructionStream.items, InstructionStream.next]
      by_cases hmore : c.ahead = []
      · have hfalse : c.hasMore = false := Cursor.hasMore_eq_false_iff.mpr hmore
        simp only [hfalse]
        exact .done hmore
      · have htrue : c.hasMore = true := Cursor.hasMore_eq_true_iff.mpr hmore
        simp only [htrue, Bool.not_true, Bool.or_false, Bool.false_eq_true, if_false]
        rcases hread : read c with ⟨answer, c'⟩
        cases answer with
        | ok i =>
            have hlt := remaining_lt_of_read hread
            exact .next hread (ih (by omega))
        | error e =>
            cases count with
            | zero => exact .failed hmore hread
            | succ count => exact .failed hmore hread

theorem items_of_code (code : Bytes) :
    Items (.start code) (InstructionStream.ofCode code).rest.1 :=
  items_of_stream (Nat.lt_succ_self _)

/-- What is read at the cursor is the first item. -/
theorem Items.of_read {items : List (Except Error Instruction)} (h : Items c items)
    (hread : read c = (.ok i, c')) : ∃ rest, items = .ok i :: rest ∧ Items c' rest := by
  cases h with
  | done done => exact absurd done (ahead_ne_nil_of_read hread)
  | failed _ fails =>
      rw [hread] at fails
      cases fails
  | next reads behind =>
      obtain ⟨rfl, rfl⟩ := ok_unique hread reads
      exact ⟨_, rfl, behind⟩

theorem Items.of_error {items : List (Except Error Instruction)} {e : Error} (h : Items c items)
    (more : c.ahead ≠ []) (hread : read c = (.error e, c')) : items = [.error e] := by
  cases h with
  | done done => exact absurd done more
  | failed _ fails =>
      rw [hread] at fails
      cases fails
      rfl
  | next reads =>
      rw [hread] at reads
      cases reads

/-- Every item takes a byte. -/
theorem Items.length_le {items : List (Except Error Instruction)} (h : Items c items) :
    items.length ≤ c.remaining := by
  induction h with
  | done => exact Nat.zero_le _
  | @failed c _ _ more =>
      have hlen := List.length_pos_iff.mpr more
      rwa [c.length_ahead] at hlen
  | next reads _ ih =>
      have hlt := remaining_lt_of_read reads
      rw [List.length_cons]
      omega

/-- All items are instructions exactly if these are the code ahead. -/
theorem items_map_ok_iff :
    Items c (instructions.map .ok) ↔
      encodeAll instructions = .ok c.ahead ∧ PlacedFrom c.position instructions := by
  induction instructions generalizing c with
  | nil =>
      constructor
      · intro h
        cases h with
        | done done => exact ⟨congrArg Except.ok done.symm, trivial⟩
      · rintro ⟨hencode, -⟩
        exact .done (Except.ok.inj hencode).symm
  | cons i rest ih =>
      constructor
      · intro h
        cases h with
        | next reads behind =>
            obtain ⟨front, hfront, hpass, hplaced⟩ := read_eq_ok_iff.mp reads
            obtain ⟨hback, hothers⟩ := ih.mp behind
            rw [hpass.position, ← encodedSize_of_encode hfront] at hothers
            refine ⟨encodeAll_cons_eq_ok_iff.mpr ⟨front, _, hfront, hback, ?_⟩, hplaced, hothers⟩
            exact hpass.ahead.symm
      · rintro ⟨hencode, hplaced, hothers⟩
        obtain ⟨front, back, hfront, hback, happend⟩ := encodeAll_cons_eq_ok_iff.mp hencode
        obtain ⟨c', hpass, hahead⟩ := Cursor.exists_passes happend.symm
        rw [encodedSize_of_encode hfront, ← hpass.position] at hothers
        rw [← hahead] at hback
        exact .next (read_eq_ok_iff.mpr ⟨front, hfront, hpass, hplaced⟩) (ih.mpr ⟨hback, hothers⟩)

theorem items_map_ok_iff_decode {code : Bytes} :
    Items (.start code) (instructions.map .ok) ↔ decode code = .ok instructions :=
  items_map_ok_iff.trans decode_eq_ok_iff.symm

end Instruction

end Reroute
