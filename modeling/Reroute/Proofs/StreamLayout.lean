import Mathlib.Data.List.Chain
import Reroute.Proofs.StreamForm
/-!
# The layout of a decoded stream

Whoever follows a branch looks for an instruction by its place, so what the
decoder says of places has to be right. `LaidOut` is what holds of each
instruction on its own: its size is that of its opcode and of its kind of
operand, its targets lie exactly its distances behind its end, and only a
flow that branches has any. `Layout` is what holds of the stream: from the
first byte to the last of the buffer each instruction starts where the one
before it ends (`layout_of_readAll`).

Positions are numbers without a bound here. A target lies less than `2 ^ 31`
bytes behind the end of the buffer (`Layout.within`), so for any buffer that
fits in memory the sums are the same in 64-bit words.
-/

namespace Reroute

/-! ## Kinds of operands that branch -/

namespace OperandKind

/-- The kinds whose operand is a distance, or a table of them. -/
def isDistance : OperandKind → Bool
  | .shortBranchTarget | .branchTarget | .switch => true
  | _ => false

end OperandKind

/-- The tables give no distance to an opcode that does not branch. -/
theorem Opcode.isBranch_of_isDistance :
    ∀ row ∈ oneByte ++ twoByte, row.kind.isDistance = true → row.flow.isBranch = true := by
  decide +kernel

namespace Operand

theorem Form.isDistance {kind : OperandKind} {operand : Operand} {bytes : Bytes}
    (h : Form kind operand bytes) (hdeltas : operand.deltas ≠ []) : kind.isDistance = true := by
  cases h with
  | shortTarget | target | switch => rfl
  | _ => exact absurd rfl hdeltas

/-- The width of an operand is that of its kind; a jump table has its count
and four bytes for each distance. -/
theorem Form.length_eq {kind : OperandKind} {operand : Operand} {bytes : Bytes}
    (h : Form kind operand bytes) :
    bytes.length = kind.size?.getD (4 + 4 * operand.deltas.length) := by
  cases h with
  | none => rfl
  | token isToken t =>
      rw [LittleEndian.length_toBytes]
      cases kind <;> first | rfl | cases isToken
  | switch deltas short =>
      rw [List.length_append, LittleEndian.length_toBytes, Instruction.length_flatMap_deltas]
      simp only [Operand.deltas, List.length_map]
      rfl
  | _ =>
      rw [LittleEndian.length_toBytes]
      rfl

theorem delta_lt {operand : Operand} {delta : Int} (h : delta ∈ operand.deltas) :
    delta < 0x80000000 := by
  cases operand with
  | shortTarget d =>
      obtain rfl : delta = d.toInt := by simpa [deltas] using h
      have := d.toInt_lt
      omega
  | target d =>
      obtain rfl : delta = d.toInt := by simpa [deltas] using h
      exact d.toInt_lt
  | switch table =>
      obtain ⟨d, -, rfl⟩ := List.mem_map.mp h
      exact d.toInt_lt
  | _ => cases h

end Operand

namespace Instruction

/-! ## One instruction -/

/-- What an instruction says of its size and of its targets is right. -/
structure LaidOut (i : Instruction) : Prop where
  lead : i.lead = 0 ∨ i.lead = 0xFE
  size : i.size = (if i.lead = 0xFE then 2 else 1) +
    i.kind.size?.getD (4 + 4 * i.targets.length)
  targets : i.targets.map Int.ofNat =
    i.operand.deltas.map fun delta => ((i.offset + i.size : Nat) : Int) + delta
  branches : i.targets ≠ [] → i.flow.isBranch = true

variable {i : Instruction} {bytes : Bytes} {position : Nat}

theorem LaidOut.target_lt (h : i.LaidOut) {target : Nat} (hmem : target ∈ i.targets) :
    target < i.offset + i.size + 0x80000000 := by
  have hmap := List.mem_map_of_mem (f := Int.ofNat) hmem
  rw [h.targets] at hmap
  obtain ⟨delta, hdelta, heq⟩ := List.mem_map.mp hmap
  have hlt := Operand.delta_lt hdelta
  have heq : ((i.offset + i.size : Nat) : Int) + delta = (target : Int) := heq
  omega

theorem laidOut_of_placedAt (hencode : i.encode = .ok bytes) (hplaced : i.PlacedAt position) :
    i.LaidOut := by
  obtain ⟨row, operand, hfind, -, hkind, hform, rfl⟩ := encode_eq_ok_iff.mp hencode
  have hrow := (Opcode.find?_eq_some_iff.mp hfind).1
  have hlead : i.lead = 0 ∨ i.lead = 0xFE :=
    (Opcode.row?_eq_some_iff.mp hrow).imp And.left And.left
  have htargets := hplaced.targets
  have hlength : i.targets.length = i.operand.deltas.length := by
    simpa using congrArg List.length htargets
  refine ⟨hlead, ?_, htargets, ?_⟩
  · rw [hplaced.size, encodedSize_of_encode hencode, List.length_append, hform.length_eq, hkind,
      hlength]
    congr 1
    rcases hlead with hlead | hlead <;> rw [hlead] <;> rfl
  · intro hsome
    have hflow := hplaced.flow
    rw [hfind] at hflow
    rw [← Option.some.inj hflow]
    refine Opcode.isBranch_of_isDistance row (Opcode.mem_of_row? hrow) (hform.isDistance ?_)
    intro hnil
    rw [hnil, List.length_nil, List.length_eq_zero_iff] at hlength
    exact hsome hlength

/-! ## A stream -/

/-- How the instructions lie that fill the bytes from `start` to `stop`. -/
structure Layout (start stop : Nat) (instructions : List Instruction) : Prop where
  first : ∀ i, instructions.head? = some i → i.offset = start
  consecutive : instructions.IsChain fun i j => j.offset = i.offset + i.size
  last : ∀ i, instructions.getLast? = some i → i.offset + i.size = stop
  empty : instructions = [] ↔ start = stop
  each : ∀ i ∈ instructions, i.LaidOut
  within : ∀ i ∈ instructions, i.offset + i.size ≤ stop ∧
    ∀ target ∈ i.targets, target < stop + 0x80000000

theorem Layout.nil (position : Nat) : Layout position position [] := by
  constructor <;> simp

/-- An instruction in front of a layout that starts where it ends. -/
theorem Layout.cons {rest : List Instruction} {stop : Nat} (hlaid : i.LaidOut)
    (hpos : 0 < i.size) (hstop : i.offset + i.size ≤ stop)
    (h : Layout (i.offset + i.size) stop rest) : Layout i.offset stop (i :: rest) where
  first j hj := by
    cases hj
    rfl
  consecutive := List.isChain_cons.mpr ⟨fun j hj => h.first j hj, h.consecutive⟩
  last j hj := by
    cases rest with
    | nil =>
        cases hj
        exact h.empty.mp rfl
    | cons k others =>
        rw [List.getLast?_cons_cons] at hj
        exact h.last j hj
  empty := by
    constructor
    · intro hnil
      cases hnil
    · intro hstart
      omega
  each j hj := by
    rcases List.mem_cons.mp hj with rfl | hj
    · exact hlaid
    · exact h.each j hj
  within j hj := by
    rcases List.mem_cons.mp hj with rfl | hj
    · refine ⟨hstop, ?_⟩
      intro target hmem
      exact Nat.lt_of_lt_of_le (hlaid.target_lt hmem) (Nat.add_le_add_right hstop _)
    · exact h.within j hj

theorem layout_of_placedFrom {instructions : List Instruction}
    (hencode : encodeAll instructions = .ok bytes) (hplaced : PlacedFrom position instructions) :
    Layout position (position + bytes.length) instructions := by
  induction instructions generalizing position bytes with
  | nil =>
      cases hencode
      exact .nil position
  | cons i rest ih =>
      obtain ⟨front, back, hfront, hback, rfl⟩ := encodeAll_cons_eq_ok_iff.mp hencode
      obtain ⟨hfirst, hrest⟩ := hplaced
      have hsize := hfirst.size.trans (encodedSize_of_encode hfront)
      have hpos := length_pos_of_encode hfront
      have hlayout := ih hback hrest
      rw [← hfirst.size] at hlayout
      rw [List.length_append, ← hsize, ← Nat.add_assoc]
      rw [← hfirst.offset] at hlayout ⊢
      exact .cons (laidOut_of_placedAt hfront hfirst) (hsize ▸ hpos) (Nat.le_add_right _ _) hlayout

/-- **A decoded stream has a layout**: it fills the buffer from where the
decoder started to its end, and what its instructions say of sizes and
targets is right. -/
theorem layout_of_readAll (buffer : Bytes) (start : Nat) (inside : start ≤ buffer.length)
    (instructions : List Instruction)
    (h : (readAll ⟨buffer, start, inside⟩).1 = .ok instructions) :
    Layout start buffer.length instructions := by
  rcases hrun : readAll ⟨buffer, start, inside⟩ with ⟨answer, c'⟩
  rw [hrun] at h
  obtain rfl : answer = .ok instructions := h
  obtain ⟨hencode, hplaced, -⟩ := readAll_eq_ok_iff.mp hrun
  have hlayout := layout_of_placedFrom hencode hplaced
  rwa [Cursor.length_ahead, Nat.add_comm, Cursor.remaining_add_position] at hlayout

/-- Behind a byte that is skipped: a jump table that leads back to its own
start and on behind the buffer, an opcode of two bytes, and a branch. -/
theorem layout_of_readAll_jumpTable :
    Layout 1 20
      [⟨1, 13, 0, 0x45, "switch", .switch, .switch, .switch [-13, 100], [1, 114]⟩,
        ⟨14, 4, 0xFE, 0x09, "ldarg", .uint16, .sequential, .immediate (.uint16 2), []⟩,
        ⟨18, 2, 0, 0x2B, "br.s", .shortBranchTarget, .unconditionalBranch, .shortTarget (-6),
          [14]⟩] :=
  layout_of_readAll [0xFF, 0x45, 2, 0, 0, 0, 0xF3, 0xFF, 0xFF, 0xFF, 100, 0, 0, 0, 0xFE, 0x09, 2, 0,
    0x2B, 0xFA] 1 (by decide) _ (answer_toOption_eq_some_iff.mp (by decide +kernel))

end Instruction

end Reroute
