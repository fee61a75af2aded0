import Mathlib.Data.List.Forall2
import Reroute.Proofs.InstructionForm
/-!
# Streams of instructions

A stream is decoded to the instructions whose forms, one behind the other,
are its bytes, each placed where the one before it ends (`PlacedFrom`).
Since instructions delimit themselves, the bytes determine the code of a
stream, and its place determines all else. So decoding and encoding undo
each other, except that a stream with a branch to before its start has
bytes but is not decoded.
-/

namespace Reroute

namespace Instruction

/-! ## Bytes of a stream -/

theorem encodeAll_cons_eq_ok_iff {i : Instruction} {rest : List Instruction} {bytes : Bytes} :
    encodeAll (i :: rest) = .ok bytes ↔
      ∃ front back, i.encode = .ok front ∧ encodeAll rest = .ok back ∧ front ++ back = bytes := by
  simp only [encodeAll, List.mapM_cons, answer_bind_eq_ok_iff, answer_pure_eq_ok_iff]
  constructor
  · rintro ⟨forms, ⟨front, hfront, others, hothers, rfl⟩, rfl⟩
    exact ⟨front, others.flatten, hfront, ⟨others, hothers, rfl⟩, rfl⟩
  · rintro ⟨front, back, hfront, ⟨others, hothers, rfl⟩, rfl⟩
    exact ⟨front :: others, ⟨front, hfront, others, hothers, rfl⟩, rfl⟩

theorem encodeAll_eq_nil_iff {instructions : List Instruction} :
    encodeAll instructions = .ok [] ↔ instructions = [] := by
  cases instructions with
  | nil => exact ⟨fun _ => rfl, fun _ => rfl⟩
  | cons i rest =>
      rw [encodeAll_cons_eq_ok_iff]
      constructor
      · rintro ⟨front, back, hfront, -, happend⟩
        have hpos := length_pos_of_encode hfront
        rw [(List.append_eq_nil_iff.mp happend).1] at hpos
        exact absurd hpos (Nat.lt_irrefl 0)
      · intro h
        cases h

/-- Streams that are written alike have the same bytes. -/
theorem encodeAll_of_sameCode {instructions others : List Instruction} {bytes : Bytes}
    (hsame : List.Forall₂ SameCode instructions others) (h : encodeAll instructions = .ok bytes) :
    encodeAll others = .ok bytes := by
  induction hsame generalizing bytes with
  | nil => exact h
  | cons hfirst _ ih =>
      obtain ⟨front, back, hfront, hback, rfl⟩ := encodeAll_cons_eq_ok_iff.mp h
      exact encodeAll_cons_eq_ok_iff.mpr
        ⟨front, back, hfirst.encode.mp hfront, ih hback, rfl⟩

/-- Streams with the same bytes are written alike. -/
theorem sameCode_of_encodeAll {instructions others : List Instruction} {bytes : Bytes}
    (h : encodeAll instructions = .ok bytes) (h' : encodeAll others = .ok bytes) :
    List.Forall₂ SameCode instructions others := by
  induction instructions generalizing others bytes with
  | nil =>
      cases h
      rw [encodeAll_eq_nil_iff.mp h']
      exact .nil
  | cons i rest ih =>
      obtain ⟨front, back, hfront, hback, rfl⟩ := encodeAll_cons_eq_ok_iff.mp h
      cases others with
      | nil =>
          have hnil : [] = front ++ back := Except.ok.inj h'
          rw [← hnil] at h
          exact absurd (encodeAll_eq_nil_iff.mp h) (List.cons_ne_nil i rest)
      | cons j rest' =>
          obtain ⟨front', back', hfront', hback', happend⟩ := encodeAll_cons_eq_ok_iff.mp h'
          obtain ⟨hsame, rfl⟩ := sameCode_of_encode_append hfront hfront' happend.symm
          obtain rfl := List.append_cancel_left happend
          exact .cons hsame (ih hback hback')

/-! ## Places in a stream -/

/-- Each instruction is placed where the one before it ends, the first at a
position. -/
def PlacedFrom : Nat → List Instruction → Prop
  | _, [] => True
  | position, i :: rest => i.PlacedAt position ∧ PlacedFrom (position + i.encodedSize) rest

/-- Where an instruction of a stream that starts at zero ends: the sizes of
all instructions up to it. -/
def endOf (instructions : List Instruction) (index : Nat) : Nat :=
  ((instructions.take (index + 1)).map encodedSize).foldr (· + ·) 0

/-- A row of the tables knows how its opcode goes on, so all that is missing
to place an instruction is that it does not branch to before the stream. -/
theorem exists_placedAt_iff {i : Instruction} {bytes : Bytes} (h : i.encode = .ok bytes)
    {position : Nat} :
    (∃ j, SameCode i j ∧ j.PlacedAt position) ↔
      ∀ delta ∈ i.operand.deltas, 0 ≤ ((position + i.encodedSize : Nat) : Int) + delta := by
  constructor
  · rintro ⟨j, hsame, hplaced⟩ delta hdelta
    have hsize := hsame.encodedSize h
    have htargets := hplaced.targets
    rw [next, hplaced.offset, hplaced.size, hsize, ← hsame.operand] at htargets
    have hmem := List.mem_map_of_mem (f := fun d => ((position + i.encodedSize : Nat) : Int) + d)
      hdelta
    rw [← htargets] at hmem
    obtain ⟨target, -, htarget⟩ := List.mem_map.mp hmem
    rw [← htarget]
    exact Int.natCast_nonneg target
  · intro hreach
    obtain ⟨row, operand, hfind, -⟩ := encode_eq_ok_iff.mp h
    let j : Instruction :=
      { i with
        offset := position, size := i.encodedSize, flow := row.flow,
        targets := i.operand.deltas.map fun delta =>
          (((position + i.encodedSize : Nat) : Int) + delta).toNat }
    have hsame : SameCode i j := ⟨rfl, rfl, rfl, rfl, rfl⟩
    have hsize := hsame.encodedSize h
    refine ⟨j, hsame, rfl, hsize.symm, ?_, ?_⟩
    · rw [hfind]
      rfl
    · rw [List.map_map]
      refine List.map_congr_left fun delta hdelta => ?_
      exact Int.toNat_of_nonneg (hreach delta hdelta)

theorem exists_placedFrom_iff {instructions : List Instruction} {bytes : Bytes}
    (h : encodeAll instructions = .ok bytes) {position : Nat} :
    (∃ others, List.Forall₂ SameCode instructions others ∧ PlacedFrom position others) ↔
      ∀ (index : Nat) (hindex : index < instructions.length),
        ∀ delta ∈ instructions[index].operand.deltas,
          0 ≤ ((position + endOf instructions index : Nat) : Int) + delta := by
  induction instructions generalizing bytes position with
  | nil =>
      constructor
      · intro _ index hindex
        exact absurd hindex (Nat.not_lt_zero index)
      · intro _
        exact ⟨[], .nil, trivial⟩
  | cons i rest ih =>
      obtain ⟨front, back, hfront, hback, -⟩ := encodeAll_cons_eq_ok_iff.mp h
      have hend : ∀ index, position + endOf (i :: rest) (index + 1) =
          position + i.encodedSize + endOf rest index := fun index => by
        rw [endOf, List.take_succ_cons, List.map_cons, List.foldr_cons, endOf]
        omega
      constructor
      · rintro ⟨others, hsame, hplaced⟩ index hindex delta hdelta
        cases hsame with
        | @cons _ j _ others hfirst hrest =>
            obtain ⟨hj, hothers⟩ := hplaced
            cases index with
            | zero =>
                have hend : endOf (i :: rest) 0 = i.encodedSize := by simp [endOf]
                rw [hend]
                exact (exists_placedAt_iff hfront).mp ⟨j, hfirst, hj⟩ delta hdelta
            | succ index =>
                rw [hfirst.encodedSize hfront] at hothers
                rw [hend]
                exact (ih hback).mp ⟨others, hrest, hothers⟩ index (Nat.lt_of_succ_lt_succ hindex)
                  delta hdelta
      · intro hreach
        have hfirst := hreach 0 (Nat.zero_lt_succ _)
        rw [show endOf (i :: rest) 0 = i.encodedSize by simp [endOf]] at hfirst
        obtain ⟨j, hsame, hplaced⟩ := (exists_placedAt_iff hfront).mpr hfirst
        have hsize := hsame.encodedSize hfront
        obtain ⟨others, hothers, hrest⟩ := (ih hback).mpr fun index hindex delta hdelta => by
          rw [← hend]
          exact hreach (index + 1) (Nat.succ_lt_succ hindex) delta hdelta
        exact ⟨j :: others, .cons hsame hothers, hplaced, hsize ▸ hrest⟩

/-! ## Decoding a stream -/

/-- Where nothing is ahead, the empty stream is. -/
theorem nothing_eq_ok_iff {instructions : List Instruction} {c c' : Cursor} (h : c.ahead = []) :
    (pure [] : Reader (List Instruction)) c = (.ok instructions, c') ↔
      encodeAll instructions = .ok c.ahead ∧ PlacedFrom c.position instructions ∧
        c.Passes c.ahead c' := by
  rw [pure_eq_ok_iff, h, encodeAll_eq_nil_iff, Cursor.passes_nil_iff]
  constructor
  · rintro ⟨rfl, rfl⟩
    exact ⟨rfl, trivial, rfl⟩
  · rintro ⟨rfl, -, rfl⟩
    exact ⟨rfl, rfl⟩

theorem readMany_of_done {count : Nat} {c : Cursor} (h : c.ahead = []) :
    readMany (count + 1) c = (pure [] : Reader (List Instruction)) c := by
  have hmore : Reader.hasMore c = (.ok false, c) :=
    Reader.hasMore_eq_ok_iff.mpr ⟨Cursor.hasMore_eq_false_iff.mpr h, rfl⟩
  rw [readMany, bind_of_ok hmore]
  rfl

theorem readMany_of_more {count : Nat} {instructions : List Instruction} {c c' : Cursor}
    (h : c.ahead ≠ []) :
    readMany (count + 1) c = (.ok instructions, c') ↔
      ∃ i c₁ rest, read c = (.ok i, c₁) ∧ readMany count c₁ = (.ok rest, c') ∧
        i :: rest = instructions := by
  have hmore : Reader.hasMore c = (.ok true, c) :=
    Reader.hasMore_eq_ok_iff.mpr ⟨Cursor.hasMore_eq_true_iff.mpr h, rfl⟩
  rw [readMany, bind_of_ok hmore, if_pos rfl]
  simp only [bind_eq_ok_iff, pure_eq_ok_iff]
  constructor
  · rintro ⟨i, c₁, hread, rest, c₂, hrest, rfl, rfl⟩
    exact ⟨i, c₁, rest, hread, hrest, rfl⟩
  · rintro ⟨i, c₁, rest, hread, hrest, rfl⟩
    exact ⟨i, c₁, hread, rest, c', hrest, rfl, rfl⟩

/-- With as many tries as there are bytes, all bytes are read. The induction
is on the tries; every instruction takes a byte, so they last. -/
theorem readMany_eq_ok_iff {count : Nat} {instructions : List Instruction} {c c' : Cursor}
    (hcount : c.remaining ≤ count) :
    readMany count c = (.ok instructions, c') ↔
      encodeAll instructions = .ok c.ahead ∧ PlacedFrom c.position instructions ∧
        c.Passes c.ahead c' := by
  induction count generalizing instructions c c' with
  | zero => exact nothing_eq_ok_iff (Cursor.ahead_eq_nil_iff.mpr (Nat.le_zero.mp hcount))
  | succ count ih =>
      by_cases hmore : c.ahead = []
      · rw [readMany_of_done hmore]
        exact nothing_eq_ok_iff hmore
      · rw [readMany_of_more hmore]
        -- What is left behind the first instruction is read with the tries that are left.
        have hleft : ∀ {i : Instruction} {front : Bytes} {c₁ : Cursor},
            i.encode = .ok front → c.Passes front c₁ → c₁.remaining ≤ count := by
          intro i front c₁ hfront hpass
          have hpos := length_pos_of_encode hfront
          have hremaining := hpass.remaining
          omega
        constructor
        · rintro ⟨i, c₁, rest, hread, hrest, rfl⟩
          obtain ⟨front, hfront, hpass, hplaced⟩ := read_eq_ok_iff.mp hread
          obtain ⟨hback, hothers, hall⟩ := (ih (hleft hfront hpass)).mp hrest
          rw [hpass.position, ← encodedSize_of_encode hfront] at hothers
          refine ⟨encodeAll_cons_eq_ok_iff.mpr ⟨front, c₁.ahead, hfront, hback, ?_⟩,
            ⟨hplaced, hothers⟩, ?_⟩
          · exact hpass.ahead.symm
          · rw [hpass.ahead]
            exact hpass.trans hall
        · rintro ⟨hencode, hplaced, hpass⟩
          cases instructions with
          | nil => exact absurd (Except.ok.inj hencode).symm hmore
          | cons i rest =>
              obtain ⟨front, back, hfront, hback, happend⟩ := encodeAll_cons_eq_ok_iff.mp hencode
              rw [← happend] at hpass
              obtain ⟨c₁, hpass₁, hpass₂⟩ := Cursor.passes_append_iff.mp hpass
              have hahead : c₁.ahead = back :=
                (List.append_cancel_left (happend.trans hpass₁.ahead)).symm
              have hothers := hplaced.2
              rw [encodedSize_of_encode hfront, ← hpass₁.position] at hothers
              rw [← hahead] at hback hpass₂
              exact ⟨i, c₁, rest, read_eq_ok_iff.mpr ⟨front, hfront, hpass₁, hplaced.1⟩,
                (ih (hleft hfront hpass₁)).mpr ⟨hback, hothers, hpass₂⟩, rfl⟩

/-- **Decoding from a cursor to the end**: the instructions are those whose
bytes are ahead and that are placed one behind the other from there. -/
theorem readAll_eq_ok_iff {instructions : List Instruction} {c c' : Cursor} :
    readAll c = (.ok instructions, c') ↔
      encodeAll instructions = .ok c.ahead ∧ PlacedFrom c.position instructions ∧
        c.Passes c.ahead c' := by
  simp only [readAll, bind_eq_ok_iff, Reader.remaining_eq_ok_iff]
  constructor
  · rintro ⟨count, c₀, ⟨rfl, rfl⟩, h⟩
    exact (readMany_eq_ok_iff (Nat.le_refl _)).mp h
  · intro h
    exact ⟨_, c, ⟨rfl, rfl⟩, (readMany_eq_ok_iff (Nat.le_refl _)).mpr h⟩

theorem decode_eq_ok_iff {code : Bytes} {instructions : List Instruction} :
    decode code = .ok instructions ↔
      encodeAll instructions = .ok code ∧ PlacedFrom 0 instructions := by
  constructor
  · intro h
    rcases hrun : readAll (.start code) with ⟨answer, c'⟩
    rw [decode, Reader.runOn, hrun] at h
    cases h
    obtain ⟨hencode, hplaced, -⟩ := readAll_eq_ok_iff.mp hrun
    exact ⟨hencode, hplaced⟩
  · rintro ⟨hencode, hplaced⟩
    obtain ⟨c', hpass, -⟩ : ∃ c', (Cursor.start code).Passes code c' ∧ c'.ahead = [] :=
      Cursor.exists_passes (List.append_nil code).symm
    have hrun := readAll_eq_ok_iff.mpr ⟨hencode, hplaced, hpass⟩
    rw [decode, Reader.runOn, hrun]

theorem onlyMalformed_readMany (count : Nat) : OnlyMalformed (readMany count) := by
  induction count with
  | zero => exact .pure _
  | succ count ih =>
      refine Reader.hasMore_failsOnly.bind fun more => ?_
      split
      · exact onlyMalformed_read.bind fun first => ih.bind fun rest => .pure _
      · exact .pure _

theorem decode_error_isMalformed {code : Bytes} {e : Error} (h : decode code = .error e) :
    e.isMalformed := by
  rcases hrun : readAll (.start code) with ⟨answer, c'⟩
  rw [decode, Reader.runOn, hrun] at h
  cases h
  exact (Reader.remaining_failsOnly.bind onlyMalformed_readMany) _ _ _ hrun

/-! ## Round trips -/

/-- **Encoding undoes decoding**, byte for byte and from wherever the decoder
started: what it returns has exactly the bytes that were ahead. -/
theorem encodeAll_of_readAll (buffer : Bytes) (start : Nat) (inside : start ≤ buffer.length)
    (instructions : List Instruction)
    (h : (readAll ⟨buffer, start, inside⟩).1 = .ok instructions) :
    encodeAll instructions = .ok (buffer.drop start) := by
  rcases hrun : readAll ⟨buffer, start, inside⟩ with ⟨answer, c'⟩
  rw [hrun] at h
  obtain rfl : answer = .ok instructions := h
  obtain ⟨hencode, -, -⟩ := readAll_eq_ok_iff.mp hrun
  exact hencode

/-- A signalling NaN and an empty jump table behind a byte that is skipped. -/
theorem encodeAll_of_readAll_nan :
    encodeAll
        [⟨1, 5, 0, 0x22, "ldc.r4", .float32, .sequential, .immediate (.float32 ⟨0x7FA00001⟩), []⟩,
         ⟨6, 5, 0, 0x45, "switch", .switch, .switch, .switch [], []⟩] =
      .ok [0x22, 0x01, 0x00, 0xA0, 0x7F, 0x45, 0x00, 0x00, 0x00, 0x00] :=
  encodeAll_of_readAll [0xFF, 0x22, 0x01, 0x00, 0xA0, 0x7F, 0x45, 0x00, 0x00, 0x00, 0x00] 1
    (by decide) _ rfl

/-- **Decoding undoes encoding**: the bytes of a stream are decoded exactly if
none of its branches leads to before its start. What is found is written as
the stream was, whatever the stream said of places, sizes, flow and targets;
and all that can be wrong with the bytes is that they are malformed. -/
theorem decode_of_encodeAll (instructions : List Instruction) (bytes : Bytes)
    (h : encodeAll instructions = .ok bytes) :
    ((∃ found, decode bytes = .ok found) ↔
      ∀ (index : Nat) (hindex : index < instructions.length),
        ∀ delta ∈ instructions[index].operand.deltas,
          0 ≤ (endOf instructions index : Int) + delta) ∧
    (∀ found, decode bytes = .ok found → List.Forall₂ SameCode instructions found) ∧
    ∀ e, decode bytes = .error e → e.isMalformed := by
  have hplaced := @exists_placedFrom_iff instructions bytes h 0
  simp only [Nat.zero_add] at hplaced
  refine ⟨?_, ?_, fun e => decode_error_isMalformed⟩
  · rw [← hplaced]
    constructor
    · rintro ⟨found, hfound⟩
      obtain ⟨hencode, hplace⟩ := decode_eq_ok_iff.mp hfound
      exact ⟨found, sameCode_of_encodeAll h hencode, hplace⟩
    · rintro ⟨found, hsame, hplace⟩
      exact ⟨found, decode_eq_ok_iff.mpr ⟨encodeAll_of_sameCode hsame h, hplace⟩⟩
  · intro found hfound
    obtain ⟨hencode, -⟩ := decode_eq_ok_iff.mp hfound
    exact sameCode_of_encodeAll h hencode

/-- A stream that says nothing true of its places, and whose branch leads to
its very start. -/
theorem decode_of_encodeAll_backward :
    List.Forall₂ SameCode
      [⟨7, 99, 0, 0x00, "nop", .none, .call, .none, [5]⟩,
        ⟨0, 0, 0, 0x2B, "br.s", .shortBranchTarget, .sequential, .shortTarget (-3), []⟩]
      [⟨0, 1, 0, 0x00, "nop", .none, .sequential, .none, []⟩,
        ⟨1, 2, 0, 0x2B, "br.s", .shortBranchTarget, .unconditionalBranch, .shortTarget (-3),
          [0]⟩] :=
  (decode_of_encodeAll _ [0x00, 0x2B, 0xFD] rfl).2.1 _ rfl

end Instruction

end Reroute
