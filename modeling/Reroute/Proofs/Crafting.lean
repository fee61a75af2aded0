import Reroute.Proofs.Cloning
import Reroute.Proofs.Invoking
import Reroute.Proofs.Traces
/-!
# What a detour is made of

A request that makes a detour makes its parts one after the other, each out of those
in front of it: the clone, the compiled clone, and the form of the proxy
(`Request.Crafted`). The phases carry the parts along, so that what is known of them
is an invariant of the steps (`Request.Underway.step`).
-/

namespace Reroute

/-! ## The parts -/

namespace Clone

theorem flatParams_of_ofMethod {m : Method} {s s' : Interner} {clone : Clone}
    (h : ofMethod m s = (.ok clone, s')) : m.flatParams = .ok clone.params := by
  rw [ofMethod_eq] at h
  simp only [bind_eq_ok_iff, pure_eq_ok_iff, Interning.ofExcept_eq_ok_iff] at h
  obtain ⟨body, _, -, params, _, ⟨hparams, -⟩, blob, _, -, localToken, _, -, handlers, _, -,
    code, _, -, rfl, -⟩ := h
  exact hparams

end Clone

namespace Detour

/-- The proxy of a static method has the method's own signature; that of an instance
method has an object in front, which is the receiver. -/
theorem formOf_cases {m : Method} {form : ProxyForm} (h : formOf m = .ok form) :
    m.signature.ret.byRef = false ∧
    ((m.isInstance = false ∧ m.flatParams = .ok m.signature.params ∧
        form = ⟨m.signature, .static⟩) ∨
      (m.isInstance = true ∧ m.flatParams = .ok (.plain .object :: m.signature.params) ∧
        form = ⟨.plain (.plain .object :: m.signature.params) m.signature.ret, .thisCall⟩)) := by
  unfold formOf at h
  cases hinstance : m.isInstance with
  | false =>
      have hstatic : m.isStatic = true := by simpa [Method.isInstance] using hinstance
      rw [hinstance] at h
      obtain ⟨-, href, hform⟩ := ProxyForm.of_eq_ok_iff.mp h
      refine ⟨href, .inl ⟨rfl, ?_, hform⟩⟩
      rw [Method.flatParams, Method.receiver?, if_pos hstatic]
      rfl
  | true =>
      have hstatic : m.isStatic = false := by simpa [Method.isInstance] using hinstance
      rw [hinstance, if_pos rfl, answer_bind_eq_ok_iff] at h
      obtain ⟨flat, hflat, hform⟩ := h
      obtain ⟨owner, hflat'⟩ : ∃ owner : TypeRef, m.flatParams = .ok
          ((if owner.isValueType then .reference .valueType else .plain .object) ::
            m.signature.params) := by
        rw [Method.flatParams, Method.receiver?, hstatic]
        cases hdeclaring : m.declaring with
        | some owner => exact ⟨owner, rfl⟩
        | none =>
            rw [Method.flatParams, Method.receiver?, hstatic, hdeclaring] at hflat
            cases hflat
      cases hflat.symm.trans hflat'
      -- A value type comes by reference, and such a receiver has no proxy.
      cases hvalue : owner.isValueType with
      | true =>
          rw [hvalue] at hform
          cases hform
      | false =>
          rw [hvalue] at hform hflat'
          obtain ⟨-, href, hform⟩ := ProxyForm.of_eq_ok_iff.mp hform
          exact ⟨href, .inr ⟨rfl, hflat', hform⟩⟩

end Detour

namespace Request

/-- The parts of a detour are what the request makes of them. -/
structure Crafted (r : Request) (d : Detour) : Prop where
  method : d.method = r.method
  clone : Clone.ofMethod r.method .empty = (.ok d.clone, d.scope)
  compiled : r.compiler.compile d.clone d.scope = .ok d.compiled
  form : Detour.formOf r.method = .ok d.form

/-- What a phase knows of the parts that it carries along. -/
def Parts (r : Request) (s t : Registry) : Phase → Prop
  | .compile clone scope => Clone.ofMethod r.method .empty = (.ok clone, scope)
  | .form clone scope compiled =>
    Clone.ofMethod r.method .empty = (.ok clone, scope) ∧
      r.compiler.compile clone scope = .ok compiled
  | .stub clone scope compiled form =>
    (Clone.ofMethod r.method .empty = (.ok clone, scope) ∧
      r.compiler.compile clone scope = .ok compiled) ∧ Detour.formOf r.method = .ok form
  | .link d => r.Crafted d ∧ t.forms d.entry = some d.form
  | .patch d | .insert d => r.Crafted d ∧ t.Linked d
  | .done (.ok d) => (r.Crafted d ∧ t.Linked d) ∨ ∃ method, s.find? method = some d
  | .lookup | .check | .acquire | .clone | .retry _ | .done (.error _) => True

/-- A request that has got to some phase has made its parts, and has registered no
detour before it is done. -/
structure Underway (r : Request) (s t : Registry) (phase : Phase) : Prop where
  parts : r.Parts s t phase
  detours : (∀ result, phase ≠ .done result) → t.detours = s.detours

variable {id : Nat} {r : Request} {s t t' : Registry} {phase phase' : Phase} {d : Detour}

theorem underway_failing {e : Error} (hdetours : t.detours = s.detours) :
    r.Underway s t (failing e) := by
  cases e with
  | alreadyDetoured method => exact ⟨trivial, fun _ => hdetours⟩
  | _ => exact ⟨trivial, fun _ => hdetours⟩

theorem Underway.step (h : r.Underway s t phase) (hstep : r.step id phase t = some (phase', t')) :
    r.Underway s t' phase' := by
  have hopen : ∀ result, phase ≠ .done result := by
    rintro result rfl
    cases hstep
  have hsame := h.detours hopen
  have parts := h.parts
  unfold Request.step at hstep
  cases phase with
  | lookup =>
      dsimp only at hstep
      split at hstep
      · rename_i d hfind
        cases hstep
        rw [find?_of_detours hsame] at hfind
        exact ⟨.inr ⟨_, hfind⟩, fun _ => hsame⟩
      · cases hstep
        exact ⟨trivial, fun _ => hsame⟩
  | check =>
      dsimp only at hstep
      split at hstep
      · cases hstep
        exact ⟨trivial, fun _ => hsame⟩
      · cases hstep
        exact underway_failing hsame
  | acquire =>
      dsimp only at hstep
      split at hstep
      · cases hstep
      · split at hstep
        · cases hstep
          exact underway_failing hsame
        · cases hstep
          exact ⟨trivial, fun _ => hsame⟩
  | clone =>
      dsimp only at hstep
      split at hstep
      · rename_i hclone
        cases hstep
        exact ⟨hclone, fun _ => hsame⟩
      · cases hstep
        exact underway_failing hsame
  | compile clone scope =>
      dsimp only at hstep
      split at hstep
      · rename_i hcompile
        cases hstep
        exact ⟨⟨parts, hcompile⟩, fun _ => hsame⟩
      · cases hstep
        exact underway_failing hsame
  | form clone scope compiled =>
      dsimp only at hstep
      split at hstep
      · rename_i hform
        cases hstep
        exact ⟨⟨parts, hform⟩, fun _ => hsame⟩
      · cases hstep
        exact underway_failing hsame
  | stub clone scope compiled form =>
      obtain ⟨⟨hclone, hcompile⟩, hform⟩ := parts
      dsimp only at hstep
      split at hstep
      · cases hstep
        exact ⟨⟨⟨rfl, hclone, hcompile, hform⟩, if_pos rfl⟩, fun _ => hsame⟩
      · cases hstep
        exact underway_failing hsame
  | link d =>
      obtain ⟨hcrafted, hform⟩ := parts
      cases hstep
      exact ⟨⟨hcrafted, hform, if_pos rfl⟩, fun _ => hsame⟩
  | patch d =>
      obtain ⟨hcrafted, hform, hback⟩ := parts
      dsimp only at hstep
      split at hstep
      · cases hstep
        exact ⟨⟨hcrafted, hform, hback⟩, fun _ => hsame⟩
      · cases hstep
        exact underway_failing hsame
  | insert d =>
      obtain ⟨hcrafted, hform, hback⟩ := parts
      cases hstep
      exact ⟨.inl ⟨hcrafted, hform, hback⟩, fun h => absurd rfl (h _)⟩
  | retry method =>
      dsimp only at hstep
      split at hstep
      · rename_i d hfind
        cases hstep
        rw [find?_of_detours hsame] at hfind
        exact ⟨.inr ⟨_, hfind⟩, fun _ => hsame⟩
      · cases hstep
        exact ⟨trivial, fun _ => hsame⟩
  | done result => cases hstep

theorem Underway.runAlone (h : r.Underway s t phase) (index fuel : Nat) :
    r.Underway s (r.runAlone index fuel phase t).2 (r.runAlone index fuel phase t).1 := by
  induction fuel generalizing phase t with
  | zero => exact h
  | succ fuel ih =>
      rw [Request.runAlone]
      cases hstep : r.step index phase t with
      | none => exact h
      | some behind => exact ih (h.step hstep)

/-- A detour that was not there before is made of the parts that the request makes,
and its proxy leads to it. -/
theorem crafted_of_detour (made : s.detour r = (.ok d, t))
    (new : ∀ method, s.find? method ≠ some d) : r.Crafted d ∧ t.Linked d := by
  have hstart : r.Underway s s .lookup := ⟨trivial, fun _ => rfl⟩
  have hend := hstart.runAlone 0 maxSteps
  rw [detour_eq] at made
  rcases hrun : r.runAlone 0 maxSteps .lookup s with ⟨phase, t'⟩
  rw [hrun] at made hend
  obtain ⟨hanswer, rfl⟩ := Prod.ext_iff.mp made
  cases phase with
  | done result =>
      obtain rfl : result = .ok d := hanswer
      rcases hend.parts with hmade | ⟨method, hfind⟩
      · exact hmade
      · exact absurd hfind (new method)
  | _ => cases hanswer

end Request

end Reroute
