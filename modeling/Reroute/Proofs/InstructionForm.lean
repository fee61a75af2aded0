import Reroute.Proofs.OperandForm
/-!
# The written form of an instruction

The form of an instruction is that of its opcode (`Opcode.form`) and that of
its operand. What an instruction has beyond these is fixed by where it
stands: `PlacedAt` lists these fields, and reading at a cursor gives exactly
the instructions that are placed there and whose form is ahead
(`read_eq_ok_iff`). No form is the start of another one
(`sameCode_of_encode_append`).
-/

namespace Reroute

/-! ## Opcodes -/

namespace Opcode

/-- The bytes of an opcode: its lead byte, if it has one, and its last byte. -/
def form (lead opcode : UInt8) : Bytes := (if lead = 0 then [] else [lead]) ++ [opcode]

theorem length_form_pos (lead opcode : UInt8) : 0 < (form lead opcode).length := by
  simp [form]

/-- The row in the table of a lead byte, reserved or not. -/
def row? (lead opcode : UInt8) : Option Opcode := (table? lead).bind fun rows => rows[opcode.toNat]?

theorem row?_eq_some_iff {lead opcode : UInt8} {row : Opcode} :
    row? lead opcode = some row ↔
      lead = 0 ∧ oneByte[opcode.toNat]? = some row ∨
        lead = twoByteLead ∧ twoByte[opcode.toNat]? = some row := by
  unfold row? table?
  split
  · rename_i hlead
    subst hlead
    simp [twoByteLead]
  · rename_i hlead
    split <;> simp_all

theorem mem_of_row? {lead opcode : UInt8} {row : Opcode} (h : row? lead opcode = some row) :
    row ∈ oneByte ++ twoByte := by
  rcases row?_eq_some_iff.mp h with ⟨-, hrow⟩ | ⟨-, hrow⟩
  · exact List.mem_append_left _ (List.mem_of_getElem? hrow)
  · exact List.mem_append_right _ (List.mem_of_getElem? hrow)

theorem find?_eq_some_iff {lead opcode : UInt8} {row : Opcode} :
    find? lead opcode = some row ↔ row? lead opcode = some row ∧ row.isReserved = false := by
  have hfind : find? lead opcode =
      (row? lead opcode).bind fun row => if row.isReserved then none else some row := by
    unfold find? row?
    cases table? lead <;> rfl
  rw [hfind, Option.bind_eq_some_iff]
  constructor
  · rintro ⟨found, hrow, h⟩
    split at h
    · cases h
    · rename_i hreserved
      cases h
      exact ⟨hrow, by simpa using hreserved⟩
  · rintro ⟨hrow, hreserved⟩
    exact ⟨row, hrow, by rw [hreserved]; rfl⟩

/-- The table of one-byte opcodes ends before the bytes that announce a second one. -/
theorem lt_of_oneByte {byte : UInt8} {row : Opcode} (h : oneByte[byte.toNat]? = some row) :
    ¬0xF8 ≤ byte := by
  have hlt := (List.getElem?_eq_some_iff.mp h).1
  have hlen : oneByte.length = 0xE1 := rfl
  rw [UInt8.le_iff_toNat_le]
  show ¬0xF8 ≤ byte.toNat
  omega

end Opcode

namespace Instruction

/-- Opcodes are read exactly where their form is ahead: no one-byte opcode
looks like the start of a longer one. -/
theorem readOpcode_eq_ok_iff {offset : Nat} {lead opcode : UInt8} {row : Opcode}
    {c c' : Cursor} :
    readOpcode offset c = (.ok (lead, opcode, row), c') ↔
      Opcode.row? lead opcode = some row ∧ c.Passes (Opcode.form lead opcode) c' := by
  simp only [readOpcode, bind_eq_ok_iff, readValue_eq_ok_iff, toBytes_uint8]
  constructor
  · rintro ⟨first, c₁, hfirst, h⟩
    split at h
    · simp only [bind_eq_ok_iff, readValue_eq_ok_iff, toBytes_uint8] at h
      obtain ⟨second, c₂, hsecond, h⟩ := h
      split at h
      · exact absurd h Reader.fail_ne_ok
      · rename_i hlead
        rw [Decidable.not_not] at hlead
        subst hlead
        cases hrow : Opcode.twoByte[second.toNat]? with
        | none =>
            rw [hrow] at h
            exact absurd h Reader.fail_ne_ok
        | some found =>
            rw [hrow, pure_eq_ok_iff] at h
            obtain ⟨heq, rfl⟩ := h
            cases heq
            exact ⟨hrow, Cursor.passes_append_iff.mpr ⟨c₁, hfirst, hsecond⟩⟩
    · cases hrow : Opcode.oneByte[first.toNat]? with
      | none =>
          rw [hrow] at h
          exact absurd h Reader.fail_ne_ok
      | some found =>
          rw [hrow, pure_eq_ok_iff] at h
          obtain ⟨heq, rfl⟩ := h
          cases heq
          exact ⟨hrow, hfirst⟩
  · rintro ⟨hrow, hpass⟩
    rcases Opcode.row?_eq_some_iff.mp hrow with ⟨rfl, hone⟩ | ⟨rfl, htwo⟩
    · refine ⟨opcode, c', hpass, ?_⟩
      rw [if_neg (Opcode.lt_of_oneByte hone), hone]
      rfl
    · obtain ⟨c₁, hfirst, hsecond⟩ := Cursor.passes_append_iff.mp hpass
      refine ⟨Opcode.twoByteLead, c₁, hfirst, ?_⟩
      rw [if_pos (by decide)]
      simp only [bind_eq_ok_iff, readValue_eq_ok_iff, toBytes_uint8]
      refine ⟨opcode, c', hsecond, ?_⟩
      rw [if_neg (not_not_intro rfl), htwo]
      rfl

end Instruction

/-! ## Instructions -/

namespace Instruction

/-- The bytes of an instruction are its opcode's and its operand's, and it
has some exactly if it agrees with a row of the tables. -/
theorem encode_eq_ok_iff {i : Instruction} {bytes : Bytes} :
    i.encode = .ok bytes ↔
      ∃ row operand, Opcode.find? i.lead i.opcode = some row ∧ row.mnemonic = i.mnemonic ∧
        row.kind = i.kind ∧ Operand.Form row.kind i.operand operand ∧
        Opcode.form i.lead i.opcode ++ operand = bytes := by
  unfold encode
  cases Opcode.find? i.lead i.opcode with
  | none =>
      constructor
      · intro h
        cases h
      · rintro ⟨row, operand, h, -⟩
        cases h
  | some row =>
      simp only [Option.some.injEq, exists_eq_left', exists_and_left]
      split
      · rename_i hne
        constructor
        · intro h
          cases h
        · rintro ⟨heq, -⟩
          exact absurd heq hne
      · rename_i hmnemonic
        rw [Decidable.not_not] at hmnemonic
        split
        · rename_i hne
          constructor
          · intro h
            cases h
          · rintro ⟨-, heq, -⟩
            exact absurd heq hne
        · rename_i hkind
          rw [Decidable.not_not] at hkind
          simp only [answer_bind_eq_ok_iff, answer_pure_eq_ok_iff, encodeOperand_eq_ok_iff,
            hmnemonic, hkind, true_and, Opcode.form, List.append_assoc, List.cons_append,
            List.nil_append]

theorem length_pos_of_encode {i : Instruction} {bytes : Bytes} (h : i.encode = .ok bytes) :
    0 < bytes.length := by
  obtain ⟨row, operand, -, -, -, -, rfl⟩ := encode_eq_ok_iff.mp h
  have hpos := Opcode.length_form_pos i.lead i.opcode
  rw [List.length_append]
  omega

/-- How many bytes an instruction has; none if it has no form. -/
def encodedSize (i : Instruction) : Nat :=
  match i.encode with
  | .ok bytes => bytes.length
  | .error _ => 0

theorem encodedSize_of_encode {i : Instruction} {bytes : Bytes} (h : i.encode = .ok bytes) :
    i.encodedSize = bytes.length := by
  rw [encodedSize, h]

/-- Two instructions that are written alike. -/
structure SameCode (i j : Instruction) : Prop where
  lead : i.lead = j.lead
  opcode : i.opcode = j.opcode
  mnemonic : i.mnemonic = j.mnemonic
  kind : i.kind = j.kind
  operand : i.operand = j.operand

theorem SameCode.encode {i j : Instruction} (h : SameCode i j) {bytes : Bytes} :
    i.encode = .ok bytes ↔ j.encode = .ok bytes := by
  rw [encode_eq_ok_iff, encode_eq_ok_iff, h.lead, h.opcode, h.mnemonic, h.kind, h.operand]

theorem SameCode.encodedSize {i j : Instruction} (h : SameCode i j) {bytes : Bytes}
    (hencode : i.encode = .ok bytes) : j.encodedSize = i.encodedSize := by
  rw [encodedSize_of_encode hencode, encodedSize_of_encode (h.encode.mp hencode)]

/-- What an instruction says of its place, its size, the flow of control and
its targets is what holds for its opcode and operand at a position. -/
structure PlacedAt (i : Instruction) (position : Nat) : Prop where
  offset : i.offset = position
  size : i.size = i.encodedSize
  flow : (Opcode.find? i.lead i.opcode).map Opcode.flow = some i.flow
  targets : i.targets.map Int.ofNat = i.operand.deltas.map fun delta => (i.next : Int) + delta

/-- Targets are found exactly if none of them lies before the stream. -/
theorem branchTargets_eq_ok_iff {next : Nat} {deltas : List Int} {targets : List Nat} :
    deltas.mapM (branchTarget next) = .ok targets ↔
      targets.map Int.ofNat = deltas.map fun delta => (next : Int) + delta := by
  induction deltas generalizing targets with
  | nil => cases targets <;> simp [pure, Except.pure]
  | cons delta rest ih =>
      simp only [List.mapM_cons, answer_bind_eq_ok_iff, answer_pure_eq_ok_iff, ih,
        List.map_cons, branchTarget]
      constructor
      · rintro ⟨target, htarget, others, hothers, rfl⟩
        split at htarget
        · cases htarget
        · cases htarget
          rw [List.map_cons, hothers]
          congr 1
          show ((((next : Int) + delta).toNat : Nat) : Int) = next + delta
          omega
      · intro h
        cases targets with
        | nil => cases h
        | cons target others =>
            rw [List.map_cons, List.cons.injEq] at h
            obtain ⟨htarget, hothers⟩ := h
            have htarget : (target : Int) = next + delta := htarget
            refine ⟨target, ?_, others, hothers, rfl⟩
            rw [if_neg (by omega), ← htarget]
            rfl

/-- **Reading at a cursor** gives exactly the instructions that are placed
there and whose bytes are ahead. -/
theorem read_eq_ok_iff {i : Instruction} {c c' : Cursor} :
    read c = (.ok i, c') ↔
      ∃ bytes, i.encode = .ok bytes ∧ c.Passes bytes c' ∧ i.PlacedAt c.position := by
  simp only [read, bind_eq_ok_iff, Reader.position_eq_ok_iff]
  constructor
  · rintro ⟨offset, c₀, ⟨rfl, rfl⟩, ⟨lead, opcode, row⟩, c₁, hopcode, h⟩
    obtain ⟨hrow, hform⟩ := readOpcode_eq_ok_iff.mp hopcode
    split at h
    · exact absurd h Reader.fail_ne_ok
    · rename_i hreserved
      simp only [bind_eq_ok_iff, readOperand_eq_ok_iff, Reader.position_eq_ok_iff] at h
      obtain ⟨operand, c₂, ⟨back, hback, hpass⟩, next, c₃, ⟨rfl, rfl⟩, h⟩ := h
      have hall := hform.trans hpass
      cases htargets : operand.deltas.mapM (branchTarget c₂.position) with
      | error e =>
          rw [htargets] at h
          exact absurd h Reader.fail_ne_ok
      | ok targets =>
          rw [htargets, pure_eq_ok_iff] at h
          obtain ⟨rfl, rfl⟩ := h
          have hfind : Opcode.find? lead opcode = some row :=
            Opcode.find?_eq_some_iff.mpr ⟨hrow, by simpa using hreserved⟩
          have hencode := encode_eq_ok_iff (i := ⟨c.position, c₂.position - c.position, lead,
            opcode, row.mnemonic, row.kind, row.flow, operand, targets⟩).mpr
              ⟨row, back, hfind, rfl, rfl, hback, rfl⟩
          have hposition := hall.position
          refine ⟨_, hencode, hall, rfl, ?_, by rw [hfind]; rfl, ?_⟩
          · rw [encodedSize_of_encode hencode]
            show c₂.position - c.position = (Opcode.form lead opcode ++ back).length
            omega
          · rw [branchTargets_eq_ok_iff.mp htargets]
            have hnext : c.position + (c₂.position - c.position) = c₂.position := by omega
            simp only [next, hnext]
  · rintro ⟨bytes, hencode, hpass, hplaced⟩
    obtain ⟨row, back, hfind, hmnemonic, hkind, hback, rfl⟩ := encode_eq_ok_iff.mp hencode
    obtain ⟨hrow, hreserved⟩ := Opcode.find?_eq_some_iff.mp hfind
    obtain ⟨c₁, hform, hoperand⟩ := Cursor.passes_append_iff.mp hpass
    refine ⟨c.position, c, ⟨rfl, rfl⟩, (i.lead, i.opcode, row), c₁,
      readOpcode_eq_ok_iff.mpr ⟨hrow, hform⟩, ?_⟩
    have hnext : i.next = c'.position := by
      rw [next, hplaced.offset, hplaced.size, encodedSize_of_encode hencode, hpass.position]
    have htargets := branchTargets_eq_ok_iff.mpr hplaced.targets
    rw [hnext] at htargets
    have hflow : row.flow = i.flow := by
      have h := hplaced.flow
      rw [hfind] at h
      exact Option.some.inj h
    have hsize : c'.position - c.position = i.size := by
      rw [← hnext, next, hplaced.offset]
      omega
    simp only [hreserved, Bool.false_eq_true, if_false, bind_eq_ok_iff, readOperand_eq_ok_iff,
      Reader.position_eq_ok_iff]
    refine ⟨i.operand, c', ⟨back, hback, hoperand⟩, c'.position, c', ⟨rfl, rfl⟩, ?_⟩
    rw [htargets, pure_eq_ok_iff, hsize, hmnemonic, hkind, hflow, ← hplaced.offset]
    exact ⟨rfl, rfl⟩

/-- **Instructions delimit themselves**: where two forms agree for as long as
both last, they are forms of the same code. -/
theorem sameCode_of_encode_append {i j : Instruction} {a b x y : Bytes}
    (hi : i.encode = .ok a) (hj : j.encode = .ok b) (h : a ++ x = b ++ y) :
    SameCode i j ∧ a = b := by
  obtain ⟨row, front, hfind, hmnemonic, hkind, hfront, rfl⟩ := encode_eq_ok_iff.mp hi
  obtain ⟨row', front', hfind', hmnemonic', hkind', hfront', rfl⟩ := encode_eq_ok_iff.mp hj
  -- Both forms are ahead of one cursor, and a reader has one answer only.
  let c : Cursor := .start ((Opcode.form i.lead i.opcode ++ front) ++ x)
  obtain ⟨c₂, hpass, -⟩ : ∃ c₂, c.Passes (Opcode.form i.lead i.opcode ++ front) c₂ ∧ c₂.ahead = x :=
    Cursor.exists_passes rfl
  obtain ⟨c₂', hpass', -⟩ :
      ∃ c₂, c.Passes (Opcode.form j.lead j.opcode ++ front') c₂ ∧ c₂.ahead = y :=
    Cursor.exists_passes h
  obtain ⟨c₁, hopcode, hoperand⟩ := Cursor.passes_append_iff.mp hpass
  obtain ⟨c₁', hopcode', hoperand'⟩ := Cursor.passes_append_iff.mp hpass'
  have hread : readOpcode 0 c = (.ok (i.lead, i.opcode, row), c₁) :=
    readOpcode_eq_ok_iff.mpr ⟨(Opcode.find?_eq_some_iff.mp hfind).1, hopcode⟩
  have hread' : readOpcode 0 c = (.ok (j.lead, j.opcode, row'), c₁') :=
    readOpcode_eq_ok_iff.mpr ⟨(Opcode.find?_eq_some_iff.mp hfind').1, hopcode'⟩
  obtain ⟨heq, rfl⟩ := ok_unique hread hread'
  obtain ⟨hlead, hrest⟩ := Prod.mk.injEq .. |>.mp heq
  obtain ⟨hopcodes, rfl⟩ := Prod.mk.injEq .. |>.mp hrest
  have hvalue : readOperand row.kind 0 c₁ = (.ok i.operand, c₂) :=
    readOperand_eq_ok_iff.mpr ⟨front, hfront, hoperand⟩
  have hvalue' : readOperand row.kind 0 c₁ = (.ok j.operand, c₂') :=
    readOperand_eq_ok_iff.mpr ⟨front', hfront', hoperand'⟩
  obtain ⟨hoperands, -⟩ := ok_unique hvalue hvalue'
  have hsame : SameCode i j :=
    ⟨hlead, hopcodes, hmnemonic.symm.trans hmnemonic', hkind.symm.trans hkind', hoperands⟩
  have hbytes := hsame.encode.mp hi
  rw [hj] at hbytes
  exact ⟨hsame, (Except.ok.inj hbytes).symm⟩

/-! ## Errors -/

theorem onlyMalformed_readOpcode (offset : Nat) : OnlyMalformed (readOpcode offset) := by
  refine (onlyMalformed_readValue UInt8 offset).bind fun first => ?_
  split
  · refine (onlyMalformed_readValue UInt8 offset).bind fun second => ?_
    split
    · exact onlyMalformed_fail _
    · split
      · exact .pure _
      · exact onlyMalformed_fail _
  · split
    · exact .pure _
    · exact onlyMalformed_fail _

theorem branchTargets_error_isMalformed {next : Nat} {deltas : List Int} {e : Error}
    (h : deltas.mapM (branchTarget next) = .error e) : e.isMalformed := by
  induction deltas with
  | nil => cases h
  | cons delta rest ih =>
      rw [List.mapM_cons, branchTarget] at h
      split at h
      · cases h
        rfl
      · cases hrest : rest.mapM (branchTarget next) with
        | error e' =>
            rw [hrest] at h
            cases h
            exact ih hrest
        | ok targets =>
            rw [hrest] at h
            cases h

theorem onlyMalformed_read : OnlyMalformed read := by
  refine Reader.position_failsOnly.bind fun offset => ?_
  refine (onlyMalformed_readOpcode offset).bind fun found => ?_
  obtain ⟨lead, opcode, row⟩ := found
  dsimp only
  split
  · exact onlyMalformed_fail _
  · refine (onlyMalformed_readOperand row.kind offset).bind fun operand => ?_
    refine Reader.position_failsOnly.bind fun next => ?_
    split
    · rename_i e htargets
      exact Reader.fail_failsOnly (branchTargets_error_isMalformed htargets)
    · exact .pure _

end Instruction

end Reroute
