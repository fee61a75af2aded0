import Reroute.Proofs.BodyForm
import Reroute.Proofs.RegionNaming
import Reroute.Proofs.Retokening
/-!
# Clones describe their originals

A method is cloned exactly if it is `Cloneable`: nothing stands against its
shape, and all that its body mentions is there and can be named. The bytes
of a clone are read back as a fat body that takes the place of the original
(`Body.Cloned`): its tokens name in the scope of the clone what they named
in the source, and the rest is unchanged. The stages of cloning share one
scope that only grows, so what an early stage named still stands at the end.
-/

namespace Reroute

/-- The signature of a body's local variables. -/
def Body.locals (source : Scope) (b : Body) : Except Error Bytes :=
  if b.localSignature.isNull then .ok Clone.noLocals else source.signature b.localSignature

/-- A body and the one that takes its place in a clone. -/
structure Body.Cloned (source : Scope) (s : Interner) (b found : Body) : Prop where
  isFat : found.isFat
  code : Instruction.RetokenedCode source s b.code found.code
  maxStack : found.maxStack = b.maxStack
  initLocals : found.initLocals = b.initLocals
  localSignature : ∃ blob, b.locals source = .ok blob ∧
    s.get? found.localSignature = some (.signature blob)
  regions : List.Forall₂ (Region.Cloned source s) b.regions found.regions

namespace Method

/-- A method with a body that can be cloned. -/
structure Cloneable (m : Method) (b : Body) : Prop where
  body : m.body = some b
  notDynamic : m.isDynamic = false
  notGeneric : m.isGenericDefinition = false
  notGenericSignature : m.signature.isGeneric = false
  notVararg : m.signature.isVararg = false
  receiver : m.isStatic ∨ m.declaring.isSome
  locals : b.localSignature = .null ∨ ∃ blob, m.scope.signature b.localSignature = .ok blob
  regions : Section.Storable m.scope b.regions
  code : ∃ instructions, Instruction.decode b.code = .ok instructions ∧
    ∀ i ∈ instructions, i.Resolves m.scope

variable {m : Method} {b : Body}

theorem obstacle?_eq_none_iff :
    m.obstacle? = none ↔ m.isDynamic = false ∧ m.isGenericDefinition = false ∧
      m.signature.isGeneric = false ∧ m.signature.isVararg = false ∧ m.body.isSome := by
  unfold obstacle?
  cases m.isDynamic <;> cases m.isGenericDefinition <;> cases m.signature.isGeneric <;>
    cases m.signature.isVararg <;> cases m.body <;> simp

theorem cloneableBody_eq_ok_iff :
    m.cloneableBody = .ok b ↔ m.body = some b ∧ m.isDynamic = false ∧
      m.isGenericDefinition = false ∧ m.signature.isGeneric = false ∧
      m.signature.isVararg = false := by
  constructor
  · intro h
    unfold cloneableBody at h
    split at h
    · rename_i body hobstacle hbody
      cases h
      obtain ⟨hdynamic, hgeneric, hsignature, hvararg, -⟩ := obstacle?_eq_none_iff.mp hobstacle
      exact ⟨hbody, hdynamic, hgeneric, hsignature, hvararg⟩
    · cases h
    · cases h
  · rintro ⟨hbody, hdynamic, hgeneric, hsignature, hvararg⟩
    have hobstacle : m.obstacle? = none :=
      obstacle?_eq_none_iff.mpr ⟨hdynamic, hgeneric, hsignature, hvararg, by rw [hbody]; rfl⟩
    rw [cloneableBody, hobstacle, hbody]

theorem exists_flatParams_iff :
    (∃ params, m.flatParams = .ok params) ↔ m.isStatic ∨ m.declaring.isSome := by
  unfold flatParams receiver?
  cases m.isStatic with
  | true => exact ⟨fun _ => Or.inl rfl, fun _ => ⟨_, rfl⟩⟩
  | false =>
      cases m.declaring with
      | some owner => exact ⟨fun _ => Or.inr rfl, fun _ => ⟨_, rfl⟩⟩
      | none =>
          constructor
          · rintro ⟨params, h⟩
            cases h
          · rintro (h | h) <;> cases h

end Method

theorem Body.exists_locals_iff {source : Scope} {b : Body} :
    (∃ blob, b.locals source = .ok blob) ↔
      b.localSignature = .null ∨ ∃ blob, source.signature b.localSignature = .ok blob := by
  unfold locals
  by_cases hnull : b.localSignature = .null
  · rw [if_pos (Token.isNull_eq_true_iff.mpr hnull)]
    exact ⟨fun _ => Or.inl hnull, fun _ => ⟨_, rfl⟩⟩
  · rw [if_neg (mt Token.isNull_eq_true_iff.mp hnull)]
    exact ⟨Or.inr, fun h => h.resolve_left hnull⟩

namespace Clone

variable {m : Method} {s s' : Interner} {clone : Clone} {e : Error}

/-- The stages of cloning, one behind the other. -/
theorem ofMethod_eq (m : Method) :
    ofMethod m = Interning.ofExcept m.cloneableBody >>= fun body =>
      Interning.ofExcept m.flatParams >>= fun params =>
      Interning.ofExcept (body.locals m.scope) >>= fun localSignature =>
      Interning.token (.signature localSignature) >>= fun localToken =>
      Section.encode m.scope body.regions >>= fun handlers =>
      Instruction.retokenCode m.scope body.code >>= fun code =>
      pure { name := m.name, code, handlers, localSignature, localToken,
             maxStack := body.maxStack, initLocals := body.initLocals, params,
             ret := m.signature.ret } := by
  unfold ofMethod
  congr 1
  funext body
  congr 1
  funext params
  unfold Body.locals
  split
  · rfl
  · rfl

/-- A clone names its local variables, what its regions catch, and what its
code mentions. -/
theorem grows_ofMethod {b : Body} (hb : m.body = some b) :
    Interning.Grows (ofMethod m) (1 + b.regions.length + b.code.length) := by
  rw [ofMethod_eq]
  refine Interning.Grows.ofExcept_bind fun body hbody => ?_
  obtain ⟨hsome, -⟩ := Method.cloneableBody_eq_ok_iff.mp hbody
  cases hb.symm.trans hsome
  refine Interning.Grows.ofExcept_bind fun params _ => ?_
  refine Interning.Grows.ofExcept_bind fun localSignature _ => ?_
  rw [Nat.add_assoc]
  refine (Interning.Grows.token _).bind fun localToken => ?_
  refine (Section.grows_encode m.scope b.regions).bind fun handlers => ?_
  exact (Instruction.grows_retokenCode m.scope b.code).bind fun code => .pure _

/-- What each stage gave when a method was cloned. -/
theorem exists_stages (h : ofMethod m s = (.ok clone, s')) :
    ∃ b s₁ s₂, m.cloneableBody = .ok b ∧ (∃ params, m.flatParams = .ok params) ∧
      b.locals m.scope = .ok clone.localSignature ∧
      Interning.token (.signature clone.localSignature) s = (.ok clone.localToken, s₁) ∧
      Section.encode m.scope b.regions s₁ = (.ok clone.handlers, s₂) ∧
      Instruction.retokenCode m.scope b.code s₂ = (.ok clone.code, s') ∧
      clone.maxStack = b.maxStack ∧ clone.initLocals = b.initLocals := by
  rw [ofMethod_eq] at h
  simp only [bind_eq_ok_iff, pure_eq_ok_iff, Interning.ofExcept_eq_ok_iff] at h
  obtain ⟨b, _, ⟨hbody, rfl⟩, params, _, ⟨hparams, rfl⟩, blob, _, ⟨hlocals, rfl⟩, localToken, s₁,
    htoken, handlers, s₂, hhandlers, code, _, hcode, rfl, rfl⟩ := h
  exact ⟨b, s₁, s₂, hbody, ⟨params, hparams⟩, hlocals, htoken, hhandlers, hcode, rfl, rfl⟩

/-- What of its original the code of a clone is made from, and the rest that
running it depends on. -/
theorem exists_retokenCode_of_ofMethod (h : ofMethod m s = (.ok clone, s')) :
    ∃ b s₂, m.body = some b ∧ s.Later s₂ ∧
      Instruction.retokenCode m.scope b.code s₂ = (.ok clone.code, s') ∧
      clone.name = m.name ∧ clone.ret = m.signature.ret := by
  rw [ofMethod_eq] at h
  simp only [bind_eq_ok_iff, pure_eq_ok_iff, Interning.ofExcept_eq_ok_iff] at h
  obtain ⟨b, _, ⟨hbody, rfl⟩, params, _, ⟨-, rfl⟩, blob, _, ⟨-, rfl⟩, localToken, s₁, htoken,
    handlers, s₂, hhandlers, code, _, hcode, rfl, rfl⟩ := h
  have hlater₁ := (Interning.Grows.token _).later htoken
  have hlater₂ := (Section.grows_encode m.scope b.regions).later hhandlers
  exact ⟨b, s₂, (Method.cloneableBody_eq_ok_iff.mp hbody).1, hlater₁.trans hlater₂, hcode, rfl, rfl⟩

theorem cloneable_of_ofMethod (hs : s.Reachable) (room : s'.size ≤ Token.maxRow)
    (h : ofMethod m s = (.ok clone, s')) : ∃ b, m.Cloneable b := by
  obtain ⟨b, s₁, s₂, hbody, hparams, hlocals, htoken, hhandlers, hcode, -, -⟩ := exists_stages h
  obtain ⟨hsome, hdynamic, hgeneric, hsignature, hvararg⟩ := Method.cloneableBody_eq_ok_iff.mp hbody
  have hlater₁ := (Interning.Grows.token _).later htoken
  have hlater₂ := (Section.grows_encode m.scope b.regions).later hhandlers
  have hlater := (Instruction.grows_retokenCode m.scope b.code).later hcode
  have room₂ := Nat.le_trans hlater.size_le room
  refine ⟨b, hsome, hdynamic, hgeneric, hsignature, hvararg,
    Method.exists_flatParams_iff.mp hparams, Body.exists_locals_iff.mp ⟨_, hlocals⟩, ?_, ?_⟩
  · refine (Section.encode_ok_iff (hs.trans hlater₁) ?_).mp ⟨clone.handlers, ?_⟩
    · rw [Interning.Fits, hhandlers]
      exact room₂
    · rw [hhandlers]
  · exact (Instruction.retokenedCode_of_ok ((hs.trans hlater₁).trans hlater₂) hcode).resolves

/-- No stage fails that has all it asks for. -/
theorem ofMethod_ok_of_cloneable {b : Body} (hs : s.Reachable) (room : (ofMethod m).Fits s)
    (h : m.Cloneable b) : ∃ clone, (ofMethod m s).1 = .ok clone := by
  rcases hrun : ofMethod m s with ⟨answer, s'⟩
  rw [Interning.Fits, hrun] at room
  cases answer with
  | ok clone => exact ⟨clone, rfl⟩
  | error e =>
      exfalso
      have hbody : m.cloneableBody = .ok b := Method.cloneableBody_eq_ok_iff.mpr
        ⟨h.body, h.notDynamic, h.notGeneric, h.notGenericSignature, h.notVararg⟩
      obtain ⟨params, hparams⟩ := Method.exists_flatParams_iff.mpr h.receiver
      obtain ⟨blob, hlocals⟩ := Body.exists_locals_iff.mpr h.locals
      rw [ofMethod_eq, hbody, Interning.ofExcept_ok_bind, hparams, Interning.ofExcept_ok_bind,
        hlocals, Interning.ofExcept_ok_bind] at hrun
      -- What is left are the three stages that intern, each with the scope the last one left.
      rcases bind_eq_error_iff.mp hrun with htoken | ⟨localToken, s₁, htoken, hrest⟩
      · obtain ⟨_, hfound, -⟩ := Interning.get?_of_token hs room htoken
        cases hfound
      have hs₁ := hs.trans ((Interning.Grows.token _).later htoken)
      rcases bind_eq_error_iff.mp hrest with hhandlers | ⟨handlers, s₂, hhandlers, hrest⟩
      · have hfits : (Section.encode m.scope b.regions).Fits s₁ := by
          rw [Interning.Fits, hhandlers]
          exact room
        obtain ⟨bytes, hbytes⟩ := (Section.encode_ok_iff hs₁ hfits).mpr h.regions
        rw [hhandlers] at hbytes
        cases hbytes
      have hs₂ := hs₁.trans ((Section.grows_encode m.scope b.regions).later hhandlers)
      rcases bind_eq_error_iff.mp hrest with hcode | ⟨code, s₃, -, hpure⟩
      · have hfits : (Instruction.retokenCode m.scope b.code).Fits s₂ := by
          rw [Interning.Fits, hcode]
          exact room
        obtain ⟨out, hout⟩ := (Instruction.retokenCode_ok_iff hs₂ hfits).mpr h.code
        rw [hcode] at hout
        cases hout
      · exact absurd hpure pure_ne_error

/-- The clone of code that is not too long for a header is written and read
back as a body that takes the place of the original's. -/
theorem exists_decode_toBody {b : Body} (hs : s.Reachable) (room : s'.size ≤ Token.maxRow)
    (h : ofMethod m s = (.ok clone, s')) (hb : m.body = some b)
    (hshort : b.code.length < UInt32.size) :
    ∃ bytes found, clone.toBody = .ok bytes ∧ Body.decode bytes = .ok found ∧
      b.Cloned m.scope s' found := by
  obtain ⟨b', s₁, s₂, hbody, -, hlocals, htoken, hhandlers, hcode, hmaxStack, hinitLocals⟩ :=
    exists_stages h
  obtain ⟨hsome, -⟩ := Method.cloneableBody_eq_ok_iff.mp hbody
  cases hb.symm.trans hsome
  have hlater₁ := (Interning.Grows.token _).later htoken
  have hlater₂ := (Section.grows_encode m.scope b.regions).later hhandlers
  have hlater := (Instruction.grows_retokenCode m.scope b.code).later hcode
  have room₂ := Nat.le_trans hlater.size_le room
  have room₁ := Nat.le_trans hlater₂.size_le room₂
  have hs₁ := hs.trans hlater₁
  have hretokened := Instruction.retokenedCode_of_ok (hs₁.trans hlater₂) hcode
  rw [← hretokened.length] at hshort
  obtain ⟨bytes, hbytes⟩ : ∃ bytes, clone.toBody = .ok bytes :=
    ⟨_, Body.encodeFat_eq_ok_iff.mpr ⟨hshort, rfl⟩⟩
  obtain ⟨_, htoken', hget⟩ := Interning.get?_of_token hs room₁ htoken
  cases htoken'
  have hlocal := (hlater₂.trans hlater).get?_eq_some hget
  -- Either way the body that is read back is put together from the same parts.
  have hcloned : ∀ regions, List.Forall₂ (Region.Cloned m.scope s') b.regions regions →
      b.Cloned m.scope s'
        ⟨clone.code, clone.maxStack, clone.localToken, clone.initLocals, true, regions⟩ :=
    fun regions hregions =>
      ⟨rfl, hretokened, hmaxStack, hinitLocals, ⟨_, hlocals, hlocal⟩, hregions⟩
  rw [toBody] at hbytes
  rcases Section.readChain_of_encode hs₁ hhandlers with ⟨hnone, hempty⟩ | ⟨hne, hchain⟩
  · rw [hempty] at hbytes
    refine ⟨bytes, _, ?_, Body.decode_encodeFat_nil hbytes, hcloned [] ?_⟩
    · rw [toBody, hempty]
      exact hbytes
    · rw [hnone]
      exact .nil
  · obtain ⟨c, c', skipped, hskipped, hpass, hdecode⟩ := Body.exists_chain_of_encodeFat hne hbytes
    obtain ⟨regions, hread, hregions⟩ := hchain hskipped hpass
    exact ⟨bytes, _, hbytes, hdecode regions hread,
      hcloned regions (hregions.imp fun r found hr => hr.later hlater)⟩

/-- **Clones are correct.** A method is cloned exactly if it is cloneable,
and the bytes of its clone, if its code is not too long for a header, are
read back as a fat body that takes the place of the original's. -/
theorem ofMethod_correct (m : Method) (s : Interner) (reachable : s.Reachable)
    (room : (ofMethod m).Fits s) :
    ((∃ clone, (ofMethod m s).1 = .ok clone) ↔ ∃ b, m.Cloneable b) ∧
    ∀ clone b, (ofMethod m s).1 = .ok clone → m.body = some b →
      b.code.length < UInt32.size →
        ∃ bytes found, clone.toBody = .ok bytes ∧ Body.decode bytes = .ok found ∧
          b.Cloned m.scope (ofMethod m s).2 found := by
  constructor
  · constructor
    · rintro ⟨clone, hclone⟩
      rcases hrun : ofMethod m s with ⟨answer, s'⟩
      rw [Interning.Fits, hrun] at room
      rw [hrun] at hclone
      cases hclone
      exact cloneable_of_ofMethod reachable room hrun
    · rintro ⟨b, hb⟩
      exact ofMethod_ok_of_cloneable reachable room hb
  · rcases hrun : ofMethod m s with ⟨answer, s'⟩
    rw [Interning.Fits, hrun] at room
    rintro clone b rfl hb hshort
    exact exists_decode_toBody reachable room hrun hb hshort

/-- A method that throws a string away, inside a clause that catches a type. -/
def guarded : Method where
  name := "Guarded"
  handle := ⟨1⟩
  isStatic := true
  declaring := none
  scope := TokenTable.toScope
    ⟨[(⟨0x02000005⟩, .type ⟨⟨7⟩, "Failure", false, false⟩)], [(⟨0x70000009⟩, "hello")],
      [(⟨0x11000003⟩, [0x07, 0x01, 0x1C])]⟩
  signature := .plain [] (.plain .void)
  isGenericDefinition := false
  isDynamic := false
  body := some
    { code := [0x72, 0x09, 0x00, 0x00, 0x70, 0x26, 0xDE, 0x03, 0x26, 0xDE, 0x00, 0x2A]
      maxStack := 8
      localSignature := ⟨0x11000003⟩
      initLocals := true
      isFat := true
      regions := [.catching 0 8 8 3 ⟨0x02000005⟩] }
  entryPoint := 0

theorem ofMethod_correct_guarded :
    ∃ clone b bytes found, (ofMethod guarded .empty).1 = .ok clone ∧ guarded.body = some b ∧
      clone.toBody = .ok bytes ∧ Body.decode bytes = .ok found ∧
      b.Cloned guarded.scope (ofMethod guarded .empty).2 found := by
  have hcorrect := ofMethod_correct guarded .empty (.refl _) ((grows_ofMethod rfl).fits (by decide))
  obtain ⟨bytes, found, hbytes, hdecode, hcloned⟩ := hcorrect.2 _ _ rfl rfl (by decide)
  exact ⟨_, _, bytes, found, rfl, rfl, hbytes, hdecode, hcloned⟩

end Clone

end Reroute
