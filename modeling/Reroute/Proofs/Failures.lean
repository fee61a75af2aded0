import Reroute.Detour.Registry
import Reroute.Proofs.Cloning
/-!
# What an installation can fail with

A request that fails with `Error.alreadyDetoured` starts over by looking the
detour up, so it matters who can say this. Nothing that an installation does by
itself can: not the checks of the method, not cloning, not the proxy and not the
patch (`Final`). What is left are the two parties that an installation asks, the
scope that the method's tokens are read in and the engine that compiles the clone.
-/

namespace Reroute

/-- Any error but the one that says that a method is detoured already. -/
def Error.Final (e : Error) : Prop := ∀ method, e ≠ .alreadyDetoured method

theorem Error.final_of_isMalformed {e : Error} (h : e.isMalformed) : e.Final := by
  rintro method rfl
  cases h

/-- A scope whose answers never say that a method is detoured already: it
answers from metadata, which knows nothing of detours. -/
structure Scope.Plain (source : Scope) : Prop where
  member : ∀ t e, source.member t = .error e → e.Final
  string : ∀ t e, source.string t = .error e → e.Final
  signature : ∀ t e, source.signature t = .error e → e.Final

/-- An answer that fails with a final error, if it fails. -/
abbrev EndsFinal {α : Type} (answer : Except Error α) : Prop := ∀ e, answer = .error e → e.Final

namespace EndsFinal

variable {α β : Type}

theorem error {e : Error} (h : e.Final) : EndsFinal (.error e : Except Error α) := by
  rintro _ ⟨⟩
  exact h

theorem ok (a : α) : EndsFinal (.ok a : Except Error α) := by
  rintro _ ⟨⟩

theorem bind {x : Except Error α} {f : α → Except Error β} (hx : EndsFinal x)
    (hf : ∀ a, EndsFinal (f a)) : EndsFinal (x >>= f) := by
  cases x with
  | error e => exact .error (hx e rfl)
  | ok a => exact hf a

end EndsFinal

/-- A scope that is listed says of a token at worst that it names nothing. -/
theorem TokenTable.plain_toScope (t : TokenTable) : t.toScope.Plain := by
  have hfind : ∀ {α : Type} (lines : List (Token × α)) (token : Token),
      EndsFinal (find lines token) := by
    intro α lines token
    unfold find
    split
    · exact .ok _
    · exact .error fun _ => nofun
  exact ⟨hfind t.members, hfind t.strings, hfind t.signatures⟩

/-! ## The checks -/

namespace Method

theorem endsFinal_cloneableBody (m : Method) : EndsFinal m.cloneableBody := by
  unfold cloneableBody
  split
  · exact .ok _
  · exact .error fun _ => nofun
  · exact .error fun _ => nofun

theorem endsFinal_flatParams (m : Method) : EndsFinal m.flatParams := by
  refine EndsFinal.bind ?_ fun receiver => .ok _
  unfold receiver?
  split
  · exact .ok _
  · split
    · exact .ok _
    · exact .error fun _ => nofun

end Method

theorem Request.endsFinal_check (r : Request) : EndsFinal r.check := by
  refine r.method.endsFinal_cloneableBody.bind fun body => ?_
  split
  · exact .error fun _ => nofun
  · split
    · exact .error fun _ => nofun
    · exact .ok _

/-! ## Cloning -/

namespace Interning

variable {α : Type} {source : Scope}

/-- A computation over a clone's scope that fails with final errors only. -/
abbrev OnlyFinal (x : Interning α) : Prop := FailsOnly Error.Final x

theorem onlyFinal_ofExcept {answer : Except Error α} (h : EndsFinal answer) :
    OnlyFinal (ofExcept answer) := by
  intro s e s' hfail
  cases hfail
  exact h e rfl

theorem onlyFinal_token (entry : Entry) : OnlyFinal (token entry) := by
  intro s e s' hfail
  unfold token Interner.intern at hfail
  split at hfail
  · cases hfail
  · simp only [Interner.tokenAt] at hfail
    split at hfail
    · rename_i h
      split at h
      · cases hfail
      · cases h
    · rename_i h
      split at h
      · cases h
      · cases h
        cases hfail
        exact fun _ => nofun

theorem onlyFinal_resolve (hsource : source.Plain) (kind : OperandKind) (t : Token) :
    OnlyFinal (resolve source kind t) := by
  by_cases hnull : t = .null
  · subst hnull
    exact .pure _
  · rw [resolve_eq_intern hnull]
    refine (onlyFinal_ofExcept ?_).bind fun entry => onlyFinal_token entry
    unfold Scope.entry
    split
    · exact EndsFinal.bind (hsource.string t) fun _ => .ok _
    · exact EndsFinal.bind (hsource.signature t) fun _ => .ok _
    · exact EndsFinal.bind (hsource.member t) fun _ => .ok _
    · exact EndsFinal.bind (hsource.member t) fun _ => .ok _
    · exact EndsFinal.bind (hsource.member t) fun _ => .ok _
    · exact EndsFinal.bind (hsource.member t) fun _ => .ok _
    · exact .error fun _ => nofun

theorem onlyFinal_mapM {β : Type} {f : β → Interning α} (hf : ∀ b, OnlyFinal (f b)) (list : List β) :
    OnlyFinal (list.mapM f) := by
  induction list with
  | nil => exact .pure _
  | cons b rest ih =>
      rw [List.mapM_cons]
      exact (hf b).bind fun a => ih.bind fun others => .pure _

end Interning

namespace Instruction

open Interning

variable {source : Scope}

theorem endsFinal_encodeOperand (i : Instruction) (kind : OperandKind) :
    EndsFinal (i.encodeOperand kind) := by
  unfold encodeOperand
  split
  case h_11 =>
    split
    · exact .ok _
    · exact .error fun _ => nofun
  case h_12 =>
    split
    · exact .ok _
    · exact .error fun _ => nofun
  all_goals exact .ok _

theorem endsFinal_encode (i : Instruction) : EndsFinal i.encode := by
  unfold encode
  split
  · split
    · exact .error fun _ => nofun
    · split
      · exact .error fun _ => nofun
      · refine EndsFinal.bind ?_ fun operand => .ok _
        exact endsFinal_encodeOperand i _
  · exact .error fun _ => nofun

theorem onlyFinal_encodeIn (hsource : source.Plain) (i : Instruction) :
    OnlyFinal (i.encodeIn source) := by
  refine FailsOnly.bind ?_ fun j => onlyFinal_ofExcept j.endsFinal_encode
  rcases i.retoken_cases source with ⟨t, -, hrun⟩ | ⟨-, hrun⟩
  · rw [hrun]
    exact (onlyFinal_resolve hsource i.kind t).bind fun t' => .pure _
  · rw [hrun]
    exact .pure i

/-- What a stream hands out in place of an instruction is malformed input. -/
theorem Items.endsFinal {c : Cursor} {items : List (Except Error Instruction)} (h : Items c items) :
    ∀ item ∈ items, EndsFinal item := by
  induction h with
  | done => exact fun item hmem => by cases hmem
  | failed more fails =>
      intro item hmem
      cases List.mem_singleton.mp hmem
      exact .error (Error.final_of_isMalformed (onlyMalformed_read _ _ _ fails))
  | next reads behind ih =>
      intro item hmem
      rcases List.mem_cons.mp hmem with rfl | hmem
      · exact .ok _
      · exact ih item hmem

theorem onlyFinal_retokenItems (hsource : source.Plain) {items : List (Except Error Instruction)}
    (h : ∀ item ∈ items, EndsFinal item) : OnlyFinal (retokenItems source items) := by
  induction items with
  | nil => exact .pure _
  | cons item rest ih =>
      refine (onlyFinal_ofExcept (h item List.mem_cons_self)).bind fun i => ?_
      refine (onlyFinal_encodeIn hsource i).bind fun first => ?_
      exact (ih fun item hmem => h item (List.mem_cons_of_mem _ hmem)).bind fun others => .pure _

end Instruction

theorem Region.onlyFinal_trailer {source : Scope} (hsource : source.Plain) (r : Region) :
    Interning.OnlyFinal (r.trailer source) := by
  unfold trailer
  split
  · split
    · split
      · exact Interning.onlyFinal_ofExcept (.error fun _ => nofun)
      · exact (Interning.onlyFinal_resolve hsource .type _).bind fun t => .pure _
    · exact Interning.onlyFinal_ofExcept (.error fun _ => nofun)
  all_goals exact .pure _

theorem Section.onlyFinal_encode {source : Scope} (hsource : source.Plain) (regions : List Region) :
    Interning.OnlyFinal (encode source regions) := by
  unfold encode
  split
  · exact .pure _
  · dsimp only
    split
    · exact Interning.onlyFinal_ofExcept (.error fun _ => nofun)
    · refine FailsOnly.bind (Interning.onlyFinal_mapM (fun r => ?_) regions) fun clauses => .pure _
      exact (r.onlyFinal_trailer hsource).bind fun trailer => .pure _

/-- Cloning fails finally if the source's answers do. -/
theorem Clone.onlyFinal_ofMethod {m : Method} (hsource : m.scope.Plain) :
    Interning.OnlyFinal (ofMethod m) := by
  rw [ofMethod_eq]
  refine (Interning.onlyFinal_ofExcept m.endsFinal_cloneableBody).bind fun body => ?_
  refine (Interning.onlyFinal_ofExcept m.endsFinal_flatParams).bind fun params => ?_
  refine (Interning.onlyFinal_ofExcept ?_).bind fun localSignature => ?_
  · unfold Body.locals
    split
    · exact .ok _
    · exact hsource.signature _
  · refine (Interning.onlyFinal_token _).bind fun localToken => ?_
    refine (Section.onlyFinal_encode hsource body.regions).bind fun handlers => ?_
    refine FailsOnly.bind ?_ fun code => .pure _
    exact Instruction.onlyFinal_retokenItems hsource
      (Instruction.items_of_code body.code).endsFinal

/-! ## The proxy and the patch -/

theorem ProxyForm.endsFinal_of (signature : Signature) (binding : Binding) :
    EndsFinal (of signature binding) := by
  unfold of
  split
  · exact .error fun _ => nofun
  · split
    · exact .error fun _ => nofun
    · exact .ok _

theorem Detour.endsFinal_formOf (m : Method) : EndsFinal (formOf m) := by
  unfold formOf
  split
  · refine m.endsFinal_flatParams.bind fun params => ?_
    unfold ProxyForm.thisCall
    split
    · exact .error fun _ => nofun
    · split
      · exact .error fun _ => nofun
      · exact ProxyForm.endsFinal_of _ _
  · exact ProxyForm.endsFinal_of _ _

theorem Pages.final_noMemory : noMemory.Final := by
  rintro method ⟨⟩

theorem AddressSpace.endsFinal_emit (code : Bytes) (s : AddressSpace) :
    EndsFinal (s.emit code) := by
  unfold emit
  split
  · exact .ok _
  · exact .error Pages.final_noMemory

theorem Native.endsFinal_emitStub (form : ProxyForm) (s : AddressSpace) :
    EndsFinal (emitStub form s) := by
  refine EndsFinal.bind ?_ fun _ => s.endsFinal_emit _
  unfold checkScalar
  dsimp only
  split
  · exact .error fun _ => nofun
  · split
    · exact .error fun _ => nofun
    · exact .ok _

theorem Pages.endsFinal_change (protection : Protection) (first count : Nat) (p : Pages) :
    EndsFinal (change protection first count p).1 := by
  induction count generalizing first p with
  | zero => exact .ok _
  | succ count ih =>
      unfold change
      split
      · exact ih _ _
      · exact .error final_noMemory

theorem Pages.endsFinal_protect (p : Pages) (address : UInt64) (length : Nat)
    (protection : Protection) : EndsFinal (p.protect address length protection).1 := by
  unfold protect
  split
  · exact endsFinal_change _ _ _ _
  · rename_i error h
    unfold range at h
    dsimp only at h
    split at h
    · cases h
    · cases h
      exact .error fun _ => nofun

theorem PageGuard.endsFinal_unprotect (address : UInt64) (length : Nat) (restore : Bool)
    (p : Pages) : EndsFinal (unprotect address length restore p).1 := by
  have h := p.endsFinal_protect address length .all
  unfold unprotect
  dsimp only
  split
  · exact .ok _
  · rename_i hfail
    rw [hfail] at h
    exact .error (h _ rfl)

theorem Patch.endsFinal_run (target replacement : UInt64) (options : PatchOptions)
    (s : AddressSpace) : EndsFinal (run .x64 target replacement options s).1 := by
  unfold run course
  dsimp only
  split
  · rename_i error h
    cases h
  · split
    · exact .error fun _ => nofun
    · rename_i jump _ _
      have h := PageGuard.endsFinal_unprotect (site .x64 options s.memory target) jump.length
        options.restoreProtection s.pages
      split
      · rename_i hfail
        rw [hfail] at h
        exact .error (h _ rfl)
      · exact .ok _

end Reroute
