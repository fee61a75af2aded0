import Reroute.Code.Instruction
import Reroute.Proofs.Reading
/-!
# The written form of an operand

`Operand.Form` is the format of operands, one rule for each kind, and says
nothing of how a form is read or written. The reader and the writer of
operands both agree with it (`readOperand_eq_ok_iff`,
`encodeOperand_eq_ok_iff`), so they agree with each other on the width, the
order and the sign of every kind.
-/

namespace Reroute

/-- The bytes of an operand of a kind. -/
inductive Operand.Form : OperandKind → Operand → Bytes → Prop where
  | none : Form .none .none []
  | shortTarget (delta : Int8) :
      Form .shortBranchTarget (.shortTarget delta) (LittleEndian.toBytes delta)
  | target (delta : Int32) : Form .branchTarget (.target delta) (LittleEndian.toBytes delta)
  | int8 (value : Int8) : Form .int8 (.immediate (.int8 value)) (LittleEndian.toBytes value)
  | uint8 (value : UInt8) : Form .uint8 (.immediate (.uint8 value)) (LittleEndian.toBytes value)
  | uint16 (value : UInt16) :
      Form .uint16 (.immediate (.uint16 value)) (LittleEndian.toBytes value)
  | int32 (value : Int32) : Form .int32 (.immediate (.int32 value)) (LittleEndian.toBytes value)
  | int64 (value : Int64) : Form .int64 (.immediate (.int64 value)) (LittleEndian.toBytes value)
  | float32 (value : Binary32) :
      Form .float32 (.immediate (.float32 value)) (LittleEndian.toBytes value)
  | float64 (value : Binary64) :
      Form .float64 (.immediate (.float64 value)) (LittleEndian.toBytes value)
  | token {kind : OperandKind} (isToken : kind.isToken) (t : Token) :
      Form kind (.token t) (LittleEndian.toBytes t.value)
  | switch (deltas : List Int32) (short : deltas.length < UInt32.size) :
      Form .switch (.switch deltas)
        (LittleEndian.toBytes (UInt32.ofNat deltas.length) ++ deltas.flatMap LittleEndian.toBytes)

theorem Operand.Form.isToken {kind : OperandKind} {t : Token} {bytes : Bytes}
    (h : Form kind (.token t) bytes) : kind.isToken := by
  cases h with
  | token isToken => exact isToken

namespace Instruction

theorem encodeOperand_eq_ok_iff {i : Instruction} {kind : OperandKind} {bytes : Bytes} :
    i.encodeOperand kind = .ok bytes ↔ Operand.Form kind i.operand bytes := by
  constructor
  · intro h
    unfold encodeOperand at h
    split at h
    case h_11 deltas hoperand =>
      rw [hoperand]
      split at h
      · rename_i hshort
        cases h
        exact .switch deltas hshort
      · cases h
    case h_12 =>
      split at h
      · rename_i t hoperand hkind
        rw [hoperand]
        cases h
        exact .token hkind t
      · cases h
    all_goals
      rename_i hoperand
      rw [hoperand]
      cases h
      constructor
  · intro h
    unfold encodeOperand
    generalize i.operand = operand at h
    cases h with
    | token hkind t => cases kind <;> first | rfl | cases hkind
    | switch deltas hshort => exact if_pos hshort
    | _ => rfl

@[simp] theorem readValue_eq_ok_iff {α : Type} [LittleEndian α] {offset : Nat} {v : α}
    {c c' : Cursor} :
    readValue α offset c = (.ok v, c') ↔ c.Passes (LittleEndian.toBytes v) c' := by
  rw [readValue, Reader.namingDefect_eq_ok_iff, Reader.value_eq_ok_iff]

theorem readDeltas_eq_ok_iff {offset count : Nat} {deltas : List Int32} {c c' : Cursor} :
    readDeltas offset count c = (.ok deltas, c') ↔
      deltas.length = count ∧ c.Passes (deltas.flatMap LittleEndian.toBytes) c' := by
  induction count generalizing deltas c c' with
  | zero =>
      rw [readDeltas, pure_eq_ok_iff, List.length_eq_zero_iff]
      constructor
      · rintro ⟨rfl, rfl⟩
        exact ⟨rfl, Cursor.passes_nil_iff.mpr rfl⟩
      · rintro ⟨rfl, hpass⟩
        exact ⟨rfl, (Cursor.passes_nil_iff.mp hpass).symm⟩
  | succ count ih =>
      simp only [readDeltas, bind_eq_ok_iff, readValue_eq_ok_iff, ih, pure_eq_ok_iff]
      constructor
      · rintro ⟨first, c₁, hfirst, rest, c₂, ⟨rfl, hrest⟩, rfl, rfl⟩
        exact ⟨rfl, Cursor.passes_append_iff.mpr ⟨c₁, hfirst, hrest⟩⟩
      · rintro ⟨hlen, hpass⟩
        obtain ⟨first, rest, rfl⟩ := List.exists_cons_of_length_eq_add_one hlen
        obtain ⟨c₁, hfirst, hrest⟩ := Cursor.passes_append_iff.mp hpass
        exact ⟨first, c₁, hfirst, rest, c', ⟨Nat.succ.inj hlen, hrest⟩, rfl, rfl⟩

/-- Every distance of a jump table takes four bytes. -/
theorem length_flatMap_deltas (deltas : List Int32) :
    (deltas.flatMap LittleEndian.toBytes).length = 4 * deltas.length := by
  induction deltas with
  | nil => rfl
  | cons first rest ih =>
      have hfirst : (LittleEndian.toBytes first).length = 4 := LittleEndian.length_toBytes first
      rw [List.flatMap_cons, List.length_append, ih, hfirst, List.length_cons]
      omega

/-- Operands are read exactly where their form is ahead. The table of a
switch is never refused for its length if it is there. -/
theorem readOperand_eq_ok_iff {kind : OperandKind} {offset : Nat} {operand : Operand}
    {c c' : Cursor} :
    readOperand kind offset c = (.ok operand, c') ↔
      ∃ bytes, Operand.Form kind operand bytes ∧ c.Passes bytes c' := by
  constructor
  · intro h
    cases kind with
    | switch =>
        simp only [readOperand, bind_eq_ok_iff, readValue_eq_ok_iff,
          Reader.remaining_eq_ok_iff] at h
        obtain ⟨count, c₁, hcount, remaining, c₂, ⟨rfl, rfl⟩, h⟩ := h
        split at h
        · exact absurd h Reader.fail_ne_ok
        · simp only [bind_eq_ok_iff, readDeltas_eq_ok_iff, pure_eq_ok_iff] at h
          obtain ⟨deltas, c₃, ⟨hlen, hdeltas⟩, rfl, rfl⟩ := h
          have hshort : deltas.length < UInt32.size := by
            rw [hlen]
            exact count.toNat_lt
          refine ⟨_, .switch deltas hshort, Cursor.passes_append_iff.mpr ⟨c₁, ?_, hdeltas⟩⟩
          rwa [hlen, UInt32.ofNat_toNat]
    | none =>
        simp only [readOperand, pure_eq_ok_iff] at h
        obtain ⟨rfl, rfl⟩ := h
        exact ⟨[], .none, Cursor.passes_nil_iff.mpr rfl⟩
    | _ =>
        simp only [readOperand, bind_eq_ok_iff, readValue_eq_ok_iff, pure_eq_ok_iff] at h
        obtain ⟨v, c₁, hpass, rfl, rfl⟩ := h
        exact ⟨_, by constructor <;> rfl, hpass⟩
  · rintro ⟨bytes, hform, hpass⟩
    cases hform with
    | none =>
        rw [Cursor.passes_nil_iff.mp hpass]
        rfl
    | token hkind t =>
        cases kind <;> cases hkind
        all_goals
          simp only [readOperand, bind_eq_ok_iff, readValue_eq_ok_iff, pure_eq_ok_iff]
          exact ⟨t.value, c', hpass, rfl, rfl⟩
    | switch deltas hshort =>
        obtain ⟨c₁, hcount, hdeltas⟩ := Cursor.passes_append_iff.mp hpass
        have hlen : (UInt32.ofNat deltas.length).toNat = deltas.length :=
          UInt32.toNat_ofNat_of_lt' hshort
        have hroom : ¬c₁.remaining / 4 < deltas.length := by
          rw [hdeltas.remaining, length_flatMap_deltas]
          omega
        simp only [readOperand, bind_eq_ok_iff, readValue_eq_ok_iff, Reader.remaining_eq_ok_iff]
        refine ⟨_, c₁, hcount, _, c₁, ⟨rfl, rfl⟩, ?_⟩
        rw [hlen, if_neg hroom]
        simp only [bind_eq_ok_iff, readDeltas_eq_ok_iff, pure_eq_ok_iff]
        exact ⟨deltas, c', ⟨rfl, hdeltas⟩, rfl, rfl⟩
    | _ =>
        simp only [readOperand, bind_eq_ok_iff, readValue_eq_ok_iff, pure_eq_ok_iff]
        exact ⟨_, c', hpass, rfl, rfl⟩

/-! ## Errors -/

/-- A reader that complains of nothing but malformed input. -/
abbrev OnlyMalformed {α : Type} (r : Reader α) : Prop :=
  FailsOnly (fun e : Error => e.isMalformed = true) r

theorem onlyMalformed_readValue (α : Type) [LittleEndian α] (offset : Nat) :
    OnlyMalformed (readValue α offset) :=
  Reader.namingDefect_failsOnly (Reader.ofStep_failsOnly.mono fun _ h => Or.inl h)

theorem onlyMalformed_fail {α : Type} (defect : Defect) :
    OnlyMalformed (Reader.fail (.ofDefect defect) : Reader α) :=
  Reader.fail_failsOnly rfl

theorem onlyMalformed_readDeltas (offset count : Nat) :
    OnlyMalformed (readDeltas offset count) := by
  induction count with
  | zero => exact .pure _
  | succ count ih =>
      exact (onlyMalformed_readValue Int32 offset).bind fun first => ih.bind fun rest => .pure _

theorem onlyMalformed_readOperand (kind : OperandKind) (offset : Nat) :
    OnlyMalformed (readOperand kind offset) := by
  cases kind with
  | none => exact .pure _
  | switch =>
      refine (onlyMalformed_readValue UInt32 offset).bind fun count => ?_
      refine Reader.remaining_failsOnly.bind fun remaining => ?_
      split
      · exact onlyMalformed_fail _
      · exact (onlyMalformed_readDeltas offset _).bind fun deltas => .pure _
  | _ => exact (onlyMalformed_readValue _ offset).bind fun value => .pure _

end Instruction

end Reroute
