import Reroute.Proofs.StreamLayout
/-!
# Instructions that have a form

An instruction says of itself what its table row says of its opcode: a
mnemonic and a kind of operand. It can be written exactly if all of this
agrees (`Consistent`), and what is written then depends on its opcode and its
operand alone. `Refused` lists the causes for which it is not written, each of
them behind those that are looked for before it.

Appending to a buffer is all or nothing (`writtenWhole`), and a stream is written
by appending its instructions in turn (`emitAll`): either each is consistent, or
the first that is not decides the error (`writtenInTurn`).
-/

namespace Reroute

/-! ## Operands and their kinds -/

/-- The kind of operand that a number is. -/
def Immediate.kind : Immediate → OperandKind
  | .int8 _ => .int8
  | .uint8 _ => .uint8
  | .uint16 _ => .uint16
  | .int32 _ => .int32
  | .int64 _ => .int64
  | .float32 _ => .float32
  | .float64 _ => .float64

/-- The bytes of a number, lowest first. -/
def Immediate.bytes : Immediate → Bytes
  | .int8 value => LittleEndian.toBytes value
  | .uint8 value => LittleEndian.toBytes value
  | .uint16 value => LittleEndian.toBytes value
  | .int32 value => LittleEndian.toBytes value
  | .int64 value => LittleEndian.toBytes value
  | .float32 value => LittleEndian.toBytes value
  | .float64 value => LittleEndian.toBytes value

namespace Operand

/-- The bytes of an operand, whatever opcode it goes with. -/
def bytes : Operand → Bytes
  | .none => []
  | .immediate value => value.bytes
  | .shortTarget delta => LittleEndian.toBytes delta
  | .target delta => LittleEndian.toBytes delta
  | .token t => LittleEndian.toBytes t.value
  | .switch deltas =>
    LittleEndian.toBytes (UInt32.ofNat deltas.length) ++ deltas.flatMap LittleEndian.toBytes

/-- The payload of an operand is that of a kind. -/
inductive OfKind : OperandKind → Operand → Prop where
  | none : OfKind .none .none
  | immediate {kind : OperandKind} (value : Immediate) (isKind : value.kind = kind) :
      OfKind kind (.immediate value)
  | shortTarget (delta : Int8) : OfKind .shortBranchTarget (.shortTarget delta)
  | target (delta : Int32) : OfKind .branchTarget (.target delta)
  | token {kind : OperandKind} (isToken : kind.isToken) (t : Token) : OfKind kind (.token t)
  | switch (deltas : List Int32) : OfKind .switch (.switch deltas)

/-- A jump table has no more distances than its count can say. -/
def Short : Operand → Prop
  | .switch deltas => deltas.length ≤ 0xFFFFFFFF
  | _ => True

variable {kind : OperandKind} {operand : Operand} {form : Bytes}

/-- What the bytes of an operand are does not depend on the kind that it is
written as; only whether it is written does. -/
theorem form_iff :
    Form kind operand form ↔ OfKind kind operand ∧ operand.Short ∧ form = operand.bytes := by
  constructor
  · intro h
    cases h with
    | switch deltas short => exact ⟨.switch deltas, Nat.le_of_lt_succ short, rfl⟩
    | token isToken t => exact ⟨.token isToken t, trivial, rfl⟩
    | none => exact ⟨.none, trivial, rfl⟩
    | shortTarget delta => exact ⟨.shortTarget delta, trivial, rfl⟩
    | target delta => exact ⟨.target delta, trivial, rfl⟩
    | _ => exact ⟨.immediate _ rfl, trivial, rfl⟩
  · rintro ⟨hkind, hshort, rfl⟩
    cases hkind with
    | none => exact .none
    | immediate value isKind =>
        subst isKind
        cases value <;> constructor
    | shortTarget delta => exact .shortTarget delta
    | target delta => exact .target delta
    | token isToken t => exact .token isToken t
    | switch deltas => exact .switch deltas (Nat.lt_succ_of_le hshort)

end Operand

namespace Opcode

/-- The tables have a row for the bytes of an opcode, and it is not a reserved
one. -/
structure Assigned (lead opcode : UInt8) (row : Opcode) : Prop where
  listed : lead = 0 ∧ oneByte[opcode.toNat]? = some row ∨
    lead = 0xFE ∧ twoByte[opcode.toNat]? = some row
  named : row.mnemonic ≠ ""

theorem assigned_iff {lead opcode : UInt8} {row : Opcode} :
    Assigned lead opcode row ↔ find? lead opcode = some row := by
  have hnamed : row.isReserved = false ↔ row.mnemonic ≠ "" := by
    rw [isReserved, beq_eq_false_iff_ne]
  rw [find?_eq_some_iff, row?_eq_some_iff, hnamed]
  exact ⟨fun h => ⟨h.listed, h.named⟩, fun h => ⟨h.1, h.2⟩⟩

end Opcode

namespace Instruction

open Opcode (Assigned)

variable {i : Instruction} {bytes buffer buffer' : Bytes}

/-! ## What can be written -/

/-- What an instruction says of itself agrees with the row of its opcode, and
its operand is of the kind that the row asks for. -/
structure Consistent (i : Instruction) : Prop where
  assigned : ∃ row, Assigned i.lead i.opcode row ∧ row.mnemonic = i.mnemonic ∧ row.kind = i.kind
  payload : Operand.OfKind i.kind i.operand
  short : i.operand.Short

/-- The bytes that an opcode and an operand have one behind the other. -/
def form (i : Instruction) : Bytes := Opcode.form i.lead i.opcode ++ i.operand.bytes

/-- Instructions have the bytes of their opcode and operand, or none at all. -/
theorem encode_eq_ok_iff_consistent : i.encode = .ok bytes ↔ i.Consistent ∧ bytes = i.form := by
  simp only [encode_eq_ok_iff, Operand.form_iff, ← Opcode.assigned_iff]
  constructor
  · rintro ⟨row, operand, hrow, hmnemonic, hkind, ⟨hpayload, hshort, rfl⟩, rfl⟩
    exact ⟨⟨⟨row, hrow, hmnemonic, hkind⟩, hkind ▸ hpayload, hshort⟩, rfl⟩
  · rintro ⟨⟨⟨row, hrow, hmnemonic, hkind⟩, hpayload, hshort⟩, rfl⟩
    exact ⟨row, i.operand.bytes, hrow, hmnemonic, hkind, ⟨hkind ▸ hpayload, hshort, rfl⟩, rfl⟩

/-- One byte for the opcode, or two, and then what its kind of operand takes. -/
theorem Consistent.length_form (h : i.Consistent) :
    i.form.length =
      (if i.lead = 0 then 1 else 2) + i.kind.size?.getD (4 + 4 * i.operand.deltas.length) := by
  have hoperand := Operand.form_iff.mpr ⟨h.payload, h.short, rfl⟩
  have hopcode : (Opcode.form i.lead i.opcode).length = if i.lead = 0 then 1 else 2 := by
    unfold Opcode.form
    split <;> rfl
  rw [form, List.length_append, hopcode, hoperand.length_eq]

/-! ## What is refused -/

/-- Why an instruction is not written. -/
inductive Refused (i : Instruction) : Defect → Prop where
  | noOpcode (unassigned : ∀ row, ¬Assigned i.lead i.opcode row) :
      Refused i (.noSuchOpcode i.lead i.opcode i.mnemonic)
  | mnemonic {row : Opcode} (assigned : Assigned i.lead i.opcode row)
      (differs : row.mnemonic ≠ i.mnemonic) :
      Refused i (.mnemonicDiffers i.lead i.opcode row.mnemonic i.mnemonic)
  | kind {row : Opcode} (assigned : Assigned i.lead i.opcode row)
      (mnemonic : row.mnemonic = i.mnemonic) (differs : row.kind ≠ i.kind) :
      Refused i (.kindDiffers i.mnemonic row.kind i.kind)
  | payload {row : Opcode} (assigned : Assigned i.lead i.opcode row)
      (mnemonic : row.mnemonic = i.mnemonic) (kind : row.kind = i.kind)
      (differs : ¬Operand.OfKind i.kind i.operand) :
      Refused i (.operandDiffers i.offset i.mnemonic i.kind i.operand)
  | table {row : Opcode} {deltas : List Int32} (assigned : Assigned i.lead i.opcode row)
      (mnemonic : row.mnemonic = i.mnemonic) (kind : row.kind = i.kind)
      (switch : i.kind = .switch) (operand : i.operand = .switch deltas)
      (long : 0xFFFFFFFF < deltas.length) :
      Refused i (.tooManyTargets deltas.length)

theorem Refused.not_consistent {defect : Defect} (h : Refused i defect) : ¬i.Consistent := by
  rintro ⟨⟨row, hrow, hmnemonic, hkind⟩, hpayload, hshort⟩
  have hsame : ∀ {found : Opcode}, Assigned i.lead i.opcode found → found = row := fun hfound =>
    Option.some.inj ((Opcode.assigned_iff.mp hfound).symm.trans (Opcode.assigned_iff.mp hrow))
  cases h with
  | noOpcode unassigned => exact unassigned row hrow
  | mnemonic assigned differs => exact differs (hsame assigned ▸ hmnemonic)
  | kind assigned _ differs => exact differs (hsame assigned ▸ hkind)
  | payload _ _ _ differs => exact differs hpayload
  | table _ _ _ _ operand long =>
      rw [operand] at hshort
      exact absurd long (Nat.not_lt_of_le hshort)

/-- An operand that is not written is a table that is too long, or not of its
kind. -/
theorem encodeOperand_cases (i : Instruction) (kind : OperandKind) :
    (∃ bytes, i.encodeOperand kind = .ok bytes) ∨
    (∃ deltas, kind = .switch ∧ i.operand = .switch deltas ∧ 0xFFFFFFFF < deltas.length ∧
      i.encodeOperand kind = .error (.ofDefect (.tooManyTargets deltas.length))) ∨
    ¬Operand.OfKind kind i.operand ∧ i.encodeOperand kind =
      .error (.ofDefect (.operandDiffers i.offset i.mnemonic kind i.operand)) := by
  by_cases hkind : Operand.OfKind kind i.operand
  · by_cases hshort : i.operand.Short
    · exact .inl ⟨_, encodeOperand_eq_ok_iff.mpr (Operand.form_iff.mpr ⟨hkind, hshort, rfl⟩)⟩
    · refine .inr (.inl ?_)
      unfold encodeOperand
      cases hoperand : i.operand with
      | switch deltas =>
          rw [hoperand] at hkind hshort
          cases hkind
          have hlong : ¬deltas.length < UInt32.size := fun h => hshort (Nat.le_of_lt_succ h)
          exact ⟨deltas, rfl, rfl, Nat.lt_of_not_le hshort, if_neg hlong⟩
      | _ =>
          rw [hoperand] at hshort
          exact absurd trivial hshort
  · refine .inr (.inr ⟨hkind, ?_⟩)
    unfold encodeOperand
    split
    case h_11 deltas hoperand => exact absurd (hoperand ▸ .switch deltas) hkind
    case h_12 =>
      split
      · rename_i t hoperand htoken
        exact absurd (hoperand ▸ .token htoken t) hkind
      · rfl
    all_goals
      rename_i hoperand
      rw [hoperand] at hkind
      exact absurd (by constructor <;> rfl) hkind

/-- What an instruction comes to whose opcode has a row. -/
theorem encode_of_assigned {row : Opcode} (h : Assigned i.lead i.opcode row) :
    i.encode =
      if row.mnemonic ≠ i.mnemonic then
        .error (.ofDefect (.mnemonicDiffers i.lead i.opcode row.mnemonic i.mnemonic))
      else if row.kind ≠ i.kind then
        .error (.ofDefect (.kindDiffers i.mnemonic row.kind i.kind))
      else
        (i.encodeOperand row.kind).map (Opcode.form i.lead i.opcode ++ ·) := by
  rw [encode, Opcode.assigned_iff.mp h]
  dsimp only
  split
  · rfl
  · split
    · rfl
    · cases i.encodeOperand row.kind with
      | error e => rfl
      | ok operand =>
          simp only [Opcode.form, List.append_assoc, List.singleton_append]
          rfl

theorem encode_of_refused {defect : Defect} (h : i.Refused defect) :
    i.encode = .error (.ofDefect defect) := by
  cases h with
  | noOpcode unassigned =>
      have hnone : Opcode.find? i.lead i.opcode = none :=
        Option.eq_none_iff_forall_ne_some.mpr fun row hrow =>
          unassigned row (Opcode.assigned_iff.mpr hrow)
      rw [encode, hnone]
  | mnemonic assigned differs => rw [encode_of_assigned assigned, if_pos differs]
  | kind assigned mnemonic differs =>
      rw [encode_of_assigned assigned, if_neg (not_not_intro mnemonic), if_pos differs]
  | payload assigned mnemonic kind differs =>
      rw [encode_of_assigned assigned, if_neg (not_not_intro mnemonic),
        if_neg (not_not_intro kind), kind]
      rcases i.encodeOperand_cases i.kind with
        ⟨bytes, hok⟩ | ⟨deltas, hswitch, htable, -⟩ | ⟨-, herror⟩
      · exact absurd (Operand.form_iff.mp (encodeOperand_eq_ok_iff.mp hok)).1 differs
      · exact absurd (hswitch ▸ htable ▸ .switch deltas) differs
      · rw [herror]
        rfl
  | table assigned mnemonic kind switch operand long =>
      rw [encode_of_assigned assigned, if_neg (not_not_intro mnemonic),
        if_neg (not_not_intro kind), kind]
      rcases i.encodeOperand_cases i.kind with
        ⟨bytes, hok⟩ | ⟨deltas, -, htable, -, herror⟩ | ⟨hdiffers, -⟩
      · have hshort := (Operand.form_iff.mp (encodeOperand_eq_ok_iff.mp hok)).2.1
        rw [operand] at hshort
        exact absurd long (Nat.not_lt_of_le hshort)
      · rw [operand] at htable
        cases htable
        rw [herror]
        rfl
      · exact absurd (switch ▸ operand ▸ .switch _) hdiffers

/-- **Consistent instructions are written, all others are refused.** -/
theorem consistent_or_refused (i : Instruction) : i.Consistent ∨ ∃ defect, i.Refused defect := by
  by_cases hassigned : ∃ row, Assigned i.lead i.opcode row
  · obtain ⟨row, hrow⟩ := hassigned
    by_cases hmnemonic : row.mnemonic = i.mnemonic
    · by_cases hkind : row.kind = i.kind
      · rcases i.encodeOperand_cases i.kind with
          ⟨bytes, hok⟩ | ⟨deltas, hswitch, htable, hlong, -⟩ | ⟨hdiffers, -⟩
        · obtain ⟨hpayload, hshort, -⟩ := Operand.form_iff.mp (encodeOperand_eq_ok_iff.mp hok)
          exact .inl ⟨⟨row, hrow, hmnemonic, hkind⟩, hpayload, hshort⟩
        · exact .inr ⟨_, .table hrow hmnemonic hkind hswitch htable hlong⟩
        · exact .inr ⟨_, .payload hrow hmnemonic hkind hdiffers⟩
      · exact .inr ⟨_, .kind hrow hmnemonic hkind⟩
    · exact .inr ⟨_, .mnemonic hrow hmnemonic⟩
  · exact .inr ⟨_, .noOpcode fun row hrow => hassigned ⟨row, hrow⟩⟩

/-! ## Appending to a buffer -/

theorem emit_of_consistent (h : i.Consistent) (buffer : Bytes) :
    emit buffer i = (.ok (), buffer ++ i.form) := by
  rw [emit, encode_eq_ok_iff_consistent.mpr ⟨h, rfl⟩]

theorem emit_of_refused {defect : Defect} (h : i.Refused defect) (buffer : Bytes) :
    emit buffer i = (.error (.ofDefect defect), buffer) := by
  rw [emit, encode_of_refused h]

/-- Appends instructions in turn, up to the first that is refused. -/
def emitAll : List Instruction → Bytes → Except Error Unit × Bytes
  | [], buffer => (.ok (), buffer)
  | i :: rest, buffer =>
    match emit buffer i with
    | (.ok (), buffer) => emitAll rest buffer
    | (.error e, buffer) => (.error e, buffer)

variable {instructions front back : List Instruction}

theorem emitAll_of_consistent (h : ∀ i ∈ front, i.Consistent) (back : List Instruction)
    (buffer : Bytes) :
    emitAll (front ++ back) buffer = emitAll back (buffer ++ front.flatMap form) := by
  induction front generalizing buffer with
  | nil => rw [List.nil_append, List.flatMap_nil, List.append_nil]
  | cons i rest ih =>
      obtain ⟨hfirst, hrest⟩ := List.forall_mem_cons.mp h
      rw [List.cons_append, emitAll, emit_of_consistent hfirst buffer]
      dsimp only
      rw [ih hrest, List.flatMap_cons, List.append_assoc]

/-- Either every instruction of a list is written, or there is a first one that is
not. -/
theorem consistent_or_first_refused (instructions : List Instruction) :
    (∀ i ∈ instructions, i.Consistent) ∨
    ∃ front i back defect, instructions = front ++ i :: back ∧ (∀ j ∈ front, j.Consistent) ∧
      i.Refused defect := by
  induction instructions with
  | nil => exact .inl (List.forall_mem_nil _)
  | cons i rest ih =>
      rcases i.consistent_or_refused with hfirst | ⟨defect, hrefused⟩
      · rcases ih with hrest | ⟨front, j, back, defect, rfl, hfront, hrefused⟩
        · exact .inl (List.forall_mem_cons.mpr ⟨hfirst, hrest⟩)
        · exact .inr ⟨i :: front, j, back, defect, rfl,
            List.forall_mem_cons.mpr ⟨hfirst, hfront⟩, hrefused⟩
      · exact .inr ⟨[], i, rest, defect, rfl, List.forall_mem_nil _, hrefused⟩

/-! ## Streams -/

theorem encodeAll_of_consistent (h : ∀ i ∈ instructions, i.Consistent) :
    encodeAll instructions = .ok (instructions.flatMap form) := by
  induction instructions with
  | nil => rfl
  | cons i rest ih =>
      obtain ⟨hfirst, hrest⟩ := List.forall_mem_cons.mp h
      have hform := encode_eq_ok_iff_consistent.mpr ⟨hfirst, rfl⟩
      exact encodeAll_cons_eq_ok_iff.mpr ⟨i.form, rest.flatMap form, hform, ih hrest, rfl⟩

theorem encodeAll_of_refused {defect : Defect} (hfront : ∀ j ∈ front, j.Consistent)
    (h : i.Refused defect) : encodeAll (front ++ i :: back) = .error (.ofDefect defect) := by
  have hforms : ∀ j ∈ front, ∃ bytes, j.encode = .ok bytes := fun j hj =>
    ⟨j.form, encode_eq_ok_iff_consistent.mpr ⟨hfront j hj, rfl⟩⟩
  rw [encodeAll, answer_mapM_of_error hforms (encode_of_refused h)]
  rfl

/-- What appending one instruction to a buffer may come to. -/
structure WrittenWhole (i : Instruction) (buffer : Bytes) : Prop where
  written : (∃ buffer', emit buffer i = (.ok (), buffer')) ↔ i.Consistent
  /-- The bytes behind the buffer are those of the opcode and the operand. -/
  appended : ∀ buffer', emit buffer i = (.ok (), buffer') →
    buffer' = buffer ++ (Opcode.form i.lead i.opcode ++ i.operand.bytes)
  width : i.Consistent → (Opcode.form i.lead i.opcode ++ i.operand.bytes).length =
    (if i.lead = 0 then 1 else 2) + i.kind.size?.getD (4 + 4 * i.operand.deltas.length)
  untouched : ∀ e buffer', emit buffer i = (.error e, buffer') →
    buffer' = buffer ∧ e.isMalformed ∧ ∃ defect, i.Refused defect ∧ e = .ofDefect defect

/-- What writing a stream may come to: the forms of its instructions, one behind
the other, or the error of the first that has none. -/
structure WrittenInTurn (instructions : List Instruction) : Prop where
  whole : ∀ bytes, encodeAll instructions = .ok bytes ↔
    (∀ i ∈ instructions, i.Consistent) ∧ bytes = instructions.flatMap form
  first : ∀ e, encodeAll instructions = .error e ↔
    ∃ front i back defect, instructions = front ++ i :: back ∧ (∀ j ∈ front, j.Consistent) ∧
      i.Refused defect ∧ e = .ofDefect defect
  /-- It is the same as appending them to an empty buffer in turn. -/
  appended : encodeAll instructions =
    match emitAll instructions [] with
    | (.ok (), buffer) => .ok buffer
    | (.error e, _) => .error e

theorem writtenWhole (i : Instruction) (buffer : Bytes) : i.WrittenWhole buffer := by
  rcases i.consistent_or_refused with hconsistent | ⟨defect, hrefused⟩
  · have hemit := emit_of_consistent hconsistent buffer
    refine ⟨⟨fun _ => hconsistent, fun _ => ⟨_, hemit⟩⟩, ?_, fun _ => hconsistent.length_form, ?_⟩
    · intro buffer' h
      rw [hemit] at h
      exact (congrArg Prod.snd h).symm
    · intro e buffer' h
      rw [hemit] at h
      cases h
  · have hemit := emit_of_refused hrefused buffer
    have hnot := hrefused.not_consistent
    refine ⟨⟨?_, fun h => absurd h hnot⟩, ?_, fun h => absurd h hnot, ?_⟩
    · rintro ⟨buffer', h⟩
      rw [hemit] at h
      cases h
    · intro buffer' h
      rw [hemit] at h
      cases h
    · intro e buffer' h
      rw [hemit] at h
      cases h
      exact ⟨rfl, rfl, defect, hrefused, rfl⟩

theorem writtenInTurn (instructions : List Instruction) : WrittenInTurn instructions := by
  rcases consistent_or_first_refused instructions with
    hall | ⟨front, i, back, defect, rfl, hfront, hrefused⟩
  · have hencode := encodeAll_of_consistent hall
    refine ⟨fun bytes => ?_, fun e => ?_, ?_⟩
    · rw [hencode]
      exact ⟨fun h => ⟨hall, (Except.ok.inj h).symm⟩, fun h => congrArg _ h.2.symm⟩
    · rw [hencode]
      refine ⟨(fun h => by cases h), ?_⟩
      rintro ⟨front, i, back, defect, rfl, -, hrefused, -⟩
      exact absurd (hall i (by simp)) hrefused.not_consistent
    · have hloop := emitAll_of_consistent hall [] []
      rw [List.append_nil] at hloop
      rw [hencode, hloop]
      rfl
  · have hencode : encodeAll (front ++ i :: back) = .error (.ofDefect defect) :=
      encodeAll_of_refused hfront hrefused
    refine ⟨fun bytes => ?_, fun e => ?_, ?_⟩
    · rw [hencode]
      refine ⟨(fun h => by cases h), fun h => ?_⟩
      exact absurd (h.1 i (by simp)) hrefused.not_consistent
    · constructor
      · intro h
        rw [hencode] at h
        exact ⟨front, i, back, defect, rfl, hfront, hrefused, (Except.error.inj h).symm⟩
      · rintro ⟨front', i', back', defect', heq, hfront', hrefused', rfl⟩
        rw [heq, encodeAll_of_refused hfront' hrefused']
    · rw [hencode, emitAll_of_consistent hfront, emitAll, emit_of_refused hrefused]

/-- **Instructions are written whole or not at all**: one that is consistent is
appended as its opcode and its operand, any other leaves the buffer as it was
and has its inconsistency answered, and a stream comes to the forms of all its
instructions or to the error of the first that has none. -/
theorem emit_lawful (i : Instruction) (buffer : Bytes) (instructions : List Instruction) :
    i.WrittenWhole buffer ∧ WrittenInTurn instructions :=
  ⟨i.writtenWhole buffer, writtenInTurn instructions⟩

/-- An operand that is a number, but not one of the width that its opcode asks for. -/
example : emit [0xAA]
    ⟨0, 2, 0, 0x1F, "ldc.i4.s", .int8, .sequential, .immediate (.int32 5), []⟩ =
      (.error (.ofDefect (.operandDiffers 0 "ldc.i4.s" .int8 (.immediate (.int32 5)))), [0xAA]) :=
  rfl

end Instruction

end Reroute
