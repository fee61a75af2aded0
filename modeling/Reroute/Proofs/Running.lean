import Reroute.Engine
import Reroute.Proofs.Cloning
/-!
# Clones run as their originals

The engine can run the code of an original as it can run a clone, with what
its tokens name asked of the scope that it came from (`Engine.sourceCode`).
Tokens are all that a clone has of its own, and of the instructions that
have one the engine knows only those that push a string. So the two codes
`Mirror` each other: instruction by instruction they stand in the same
places and do the same, or push strings that are equal. A step then leads
both to the same state, and so does any number of steps.
-/

namespace Reroute

namespace Opcode

/-- The mnemonics that the engine knows. -/
def interpreted : List String :=
  ["nop", "ldarg.0", "ldarg.1", "ldarg.2", "ldarg.3", "ldarg.s", "ldarg", "starg.s", "starg",
   "ldc.i4.m1", "ldc.i4.0", "ldc.i4.1", "ldc.i4.2", "ldc.i4.3", "ldc.i4.4", "ldc.i4.5", "ldc.i4.6",
   "ldc.i4.7", "ldc.i4.8", "ldc.i4.s", "ldc.i4", "ldc.i8", "ldstr", "add", "sub", "mul", "dup",
   "pop", "br.s", "br", "brtrue.s", "brtrue", "brfalse.s", "brfalse", "ret"]

/-- The engine knows one instruction that takes a token, and its token names
a string. -/
theorem interpreted_of_isToken :
    ∀ row ∈ oneByte ++ twoByte, row.kind.isToken = true →
      row.mnemonic = "ldstr" ∧ row.kind = .string ∨ row.mnemonic ∉ interpreted := by
  decide +kernel

end Opcode

namespace Engine

/-! ## What instructions with tokens do -/

variable {i j : Instruction} {t : Token}

theorem operation_of_not_interpreted (h : i.mnemonic ∉ Opcode.interpreted) :
    operation i = .error (.other ("cannot interpret " ++ i.mnemonic)) := by
  unfold operation
  split
  all_goals
    first
    | rfl
    | simp_all [Opcode.interpreted]

theorem operation_of_ldstr (h : i.mnemonic = "ldstr") (htoken : i.token? = some t) :
    operation i = .ok (.loadString t) := by
  rw [operation, h]
  simp [stringToken, htoken, Except.map]

theorem token?_of_operation (h : operation i = .ok (.loadString t)) : i.token? = some t := by
  unfold operation at h
  split at h
  all_goals try cases h
  -- What is left takes its operand apart, and only one of these pushes a string.
  all_goals
    obtain ⟨a, ha, heq⟩ := answer_map_eq_ok_iff.mp h
    cases heq
  unfold stringToken at ha
  split at ha
  · rename_i t' htoken
    cases ha
    exact htoken
  · cases ha

/-! ## Codes that mirror each other -/

/-- Two instructions at the same place that do the same thing, if what they
do does not depend on the scope, and else push the same string. -/
structure Matches (original copy : Code) (i j : Instruction) : Prop where
  offset : j.offset = i.offset
  acts : (i = j ∧ i.token? = none) ∨ (∃ e, operation i = .error e ∧ operation j = .error e) ∨
    ∃ t t', operation i = .ok (.loadString t) ∧ operation j = .ok (.loadString t') ∧
      copy.string t' = original.string t

/-- Two codes of which every step does the same. -/
structure Mirror (original copy : Code) : Prop where
  name : copy.name = original.name
  returnsVoid : copy.returnsVoid = original.returnsVoid
  instructions : List.Forall₂ (Matches original copy) original.instructions.toList
    copy.instructions.toList

variable {original copy : Code}

theorem getElem?_cases {α β : Type} {R : α → β → Prop} {list : List α} {others : List β}
    (h : List.Forall₂ R list others) (index : Nat) :
    (list[index]? = none ∧ others[index]? = none) ∨
      ∃ a b, list[index]? = some a ∧ others[index]? = some b ∧ R a b := by
  induction h generalizing index with
  | nil => simp
  | @cons a b rest others hfirst _ ih =>
      cases index with
      | zero => exact Or.inr ⟨a, b, rfl, rfl, hfirst⟩
      | succ index => exact ih index

theorem Mirror.offsets (h : Mirror original copy) :
    copy.instructions.toList.map Instruction.offset =
      original.instructions.toList.map Instruction.offset := by
  have hall := h.instructions
  generalize original.instructions.toList = list at hall ⊢
  generalize copy.instructions.toList = others at hall ⊢
  induction hall with
  | nil => rfl
  | cons hfirst _ ih => rw [List.map_cons, List.map_cons, hfirst.offset, ih]

/-- A branch leads to the same index in both, as that is told by places alone. -/
theorem Mirror.branchIndex (h : Mirror original copy) (i : Instruction) :
    branchIndex copy i = branchIndex original i := by
  have hfind : ∀ (code : Code) (target : Nat),
      (code.instructions.findIdx? fun j => j.offset == target) =
        (code.instructions.toList.map Instruction.offset).findIdx? (· == target) := by
    intro code target
    rw [List.findIdx?_map]
    exact List.findIdx?_toArray _ code.instructions.toList
  simp only [Engine.branchIndex, hfind, h.offsets]

theorem Mirror.perform (h : Mirror original copy) (i : Instruction) (m : Machine)
    {operation : Operation} (hstring : ∀ t, operation ≠ .loadString t) :
    perform copy i m operation = perform original i m operation := by
  cases operation with
  | loadString t => exact absurd rfl (hstring t)
  | _ =>
      rcases m with ⟨next, _ | ⟨top, _ | ⟨second, rest⟩⟩, args⟩ <;>
        simp only [Engine.perform, branching, h.branchIndex, h.returnsVoid]

theorem Mirror.step (h : Mirror original copy) (status : Status) :
    step copy status = step original status := by
  cases status with
  | returned | failed => rfl
  | running m =>
      simp only [Engine.step, ← Array.getElem?_toList]
      rcases getElem?_cases h.instructions m.next with
        ⟨hi, hj⟩ | ⟨i, j, hi, hj, -, ⟨rfl, htoken⟩ | ⟨e, hop, hop'⟩ | ⟨t, t', hop, hop', hstring⟩⟩
      · simp only [hi, hj, h.name]
      · simp only [hi, hj]
        cases hop : operation i with
        | error e => rfl
        | ok op =>
            refine h.perform i _ ?_
            rintro t rfl
            rw [token?_of_operation hop] at htoken
            cases htoken
      · simp only [hi, hj, hop, hop']
      · simp only [hi, hj, hop, hop', Engine.perform, hstring]

/-- The induction is on the steps that are left. -/
theorem Mirror.run (h : Mirror original copy) (fuel : Nat) (status : Status) :
    run copy fuel status = run original fuel status := by
  induction fuel generalizing status with
  | zero => rfl
  | succ fuel ih =>
      cases status with
      | returned | failed => rfl
      | running m => simp only [Engine.run, h.step, ih]

/-! ## A clone and its original -/

/-- The string that a token names in the scope that code comes from; null
names none. -/
def sourceString (source : Scope) (t : Token) : Except Error String :=
  if t.isNull then .error (.unresolvedToken t) else source.string t

/-- The code of a method as its own scope reads it. -/
def sourceCode (m : Method) (b : Body) : Except Error Code := do
  return { name := m.name, instructions := (← Instruction.decode b.code).toArray,
           returnsVoid := m.signature.ret.isVoid, string := sourceString m.scope }

variable {source : Scope} {s : Interner}

/-- The token of a string reads in the scope of a clone what the source says. -/
theorem stringIn_of_renames {t' : Token} (h : source.Renames s .string t t') :
    stringIn s t' = sourceString source t := by
  cases h with
  | null => rfl
  | entry named meant found =>
      rw [sourceString, if_neg (mt Token.isNull_eq_true_iff.mp named)]
      obtain ⟨literal, hliteral, hentry⟩ := answer_bind_eq_ok_iff.mp meant
      cases hentry
      rw [stringIn, found, hliteral]

theorem eq_of_retokened (h : Instruction.Retokened source s i j)
    (hoperand : i.operand = j.operand) : i = j := by
  cases i
  cases j
  simp only [Instruction.mk.injEq]
  exact ⟨h.offset.symm, h.size.symm, h.lead.symm, h.opcode.symm, h.mnemonic.symm, h.kind.symm,
    h.flow.symm, hoperand, h.targets.symm⟩

variable {bytes : Bytes} {instructions others : List Instruction}

/-- Without a token it is the same instruction. With one, either both push
the string or the engine knows neither. -/
theorem matches_of_retokened (h : Instruction.Retokened source s i j)
    (hbytes : i.encode = .ok bytes)
    (hstring : ∀ t t', source.Renames s .string t t' → copy.string t' = original.string t) :
    Matches original copy i j := by
  refine ⟨h.offset, ?_⟩
  obtain ⟨row, _, hfind, hmnemonic, hkind, hform, -⟩ := Instruction.encode_eq_ok_iff.mp hbytes
  have hrow := Opcode.mem_of_row? (Opcode.find?_eq_some_iff.mp hfind).1
  have hoperand := h.operand
  generalize hold : i.operand = old at hoperand hform
  generalize hnew : j.operand = new at hoperand
  cases hoperand with
  | other noToken =>
      refine Or.inl ⟨eq_of_retokened h (hold.trans hnew.symm), ?_⟩
      rw [Instruction.token?, hold, noToken]
  | @token t t' renames =>
      have htoken : i.token? = some t := congrArg Operand.token? hold
      have htoken' : j.token? = some t' := congrArg Operand.token? hnew
      rcases Opcode.interpreted_of_isToken row hrow hform.isToken with ⟨hldstr, hkind'⟩ | hother
      · have hi : i.mnemonic = "ldstr" := hmnemonic.symm.trans hldstr
        rw [← hkind, hkind'] at renames
        exact Or.inr (Or.inr ⟨t, t', operation_of_ldstr hi htoken,
          operation_of_ldstr (h.mnemonic.trans hi) htoken', hstring t t' renames⟩)
      · rw [hmnemonic] at hother
        refine Or.inr (Or.inl ⟨_, operation_of_not_interpreted hother, ?_⟩)
        rw [← h.mnemonic] at hother ⊢
        exact operation_of_not_interpreted hother

theorem forall₂_matches (h : List.Forall₂ (Instruction.Retokened source s) instructions others)
    (hencode : Instruction.encodeAll instructions = .ok bytes)
    (hstring : ∀ t t', source.Renames s .string t t' → copy.string t' = original.string t) :
    List.Forall₂ (Matches original copy) instructions others := by
  induction h generalizing bytes with
  | nil => exact .nil
  | cons hfirst _ ih =>
      obtain ⟨front, back, hfront, hback, -⟩ := Instruction.encodeAll_cons_eq_ok_iff.mp hencode
      exact .cons (matches_of_retokened hfirst hfront hstring) (ih hback)

/-- **A clone means what its original meant.** Whatever method is cloned and
however the scope grows afterwards, the clone compiles, and it is after any
number of steps where the code of the original is after as many. -/
theorem run_compile (m : Method) (s later : Interner) (clone : Clone) (reachable : s.Reachable)
    (cloned : (Clone.ofMethod m s).1 = .ok clone)
    (extended : (Clone.ofMethod m s).2.Later later) :
    ∃ b original copy, m.body = some b ∧ sourceCode m b = .ok original ∧
      compile clone later = .ok copy ∧
      ∀ args fuel, run copy fuel (start args) = run original fuel (start args) := by
  rcases hrun : Clone.ofMethod m s with ⟨answer, s'⟩
  rw [hrun] at cloned extended
  cases cloned
  obtain ⟨b, s₂, hbody, hlater, hcode, hname, hret⟩ :=
    Clone.exists_retokenCode_of_ofMethod hrun
  obtain ⟨instructions, others, hdecode, hdecode', hretokened⟩ :=
    (Instruction.retokenedCode_of_ok (reachable.trans hlater) hcode).decoded
  have hlast := hretokened.imp fun i j hj => hj.later extended
  have hencode := (Instruction.decode_eq_ok_iff.mp hdecode).1
  have hsource : sourceCode m b =
      .ok ⟨m.name, instructions.toArray, m.signature.ret.isVoid, sourceString m.scope⟩ := by
    rw [sourceCode, hdecode]
    rfl
  have hcompile : compile clone later =
      .ok ⟨clone.name, others.toArray, clone.ret.isVoid, stringIn later⟩ := by
    rw [compile, hdecode']
    rfl
  refine ⟨b, _, _, hbody, hsource, hcompile, fun args fuel => ?_⟩
  refine Mirror.run ⟨hname, congrArg ParamType.isVoid hret, ?_⟩ fuel (start args)
  exact forall₂_matches hlast hencode fun t t' hrenames => stringIn_of_renames hrenames

/-- A method that counts its argument up to zero and then returns a string. -/
def greeter : Method where
  name := "Greet"
  handle := ⟨1⟩
  isStatic := true
  declaring := none
  scope := TokenTable.toScope ⟨[], [(⟨0x70000009⟩, "hello")], []⟩
  signature := .plain [.plain .i4] (.plain .string)
  isGenericDefinition := false
  isDynamic := false
  body := some (.ofCode
    [0x2B, 0x05, 0x02, 0x17, 0x58, 0x10, 0x00, 0x02, 0x2D, 0xF8, 0x72, 0x09, 0x00, 0x00, 0x70, 0x2A])
  entryPoint := 0

/-- What its scope has become when it runs. -/
def laterScope : Interner := ((Clone.ofMethod greeter .empty).2.intern (.string "later")).2

/-- Seventeen steps take it from minus two to its string. -/
theorem run_compile_greeter :
    ∃ clone b original copy, (Clone.ofMethod greeter .empty).1 = .ok clone ∧
      greeter.body = some b ∧ sourceCode greeter b = .ok original ∧
      compile clone laterScope = .ok copy ∧
      (∀ args fuel, run copy fuel (start args) = run original fuel (start args)) ∧
      run copy 17 (start [.i4 (-2)]) = .returned (.str "hello") [.i4 0] := by
  obtain ⟨clone, hclone⟩ : ∃ clone, (Clone.ofMethod greeter .empty).1 = .ok clone := ⟨_, rfl⟩
  obtain ⟨b, original, copy, hbody, hsource, hcopy, hsame⟩ :=
    run_compile greeter .empty laterScope clone (.refl _) hclone (.intern (.refl _) _)
  have hrun : ((Clone.ofMethod greeter .empty).1.bind fun clone => (compile clone laterScope).map
      fun copy => run copy 17 (start [.i4 (-2)])).toOption =
      some (.returned (.str "hello") [.i4 0]) := by
    decide +kernel
  rw [hclone] at hrun
  have hresult : ((compile clone laterScope).map fun copy => run copy 17 (start [.i4 (-2)])).toOption =
      some (.returned (.str "hello") [.i4 0]) := hrun
  rw [hcopy] at hresult
  exact ⟨clone, b, original, copy, hclone, hbody, hsource, hcopy, hsame, Option.some.inj hresult⟩

end Engine

end Reroute
