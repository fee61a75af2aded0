import Reroute.Proofs.Failures
import Reroute.Proofs.FreshPages
/-!
# The steps of an installation

`Moves` lists what a step of a request can do, what it needs for it and what it
leaves: whether the request has the lock, whether the registry changes, and whether
mapped memory does. Only a patch that goes through changes it, and it puts the jump
to the proxy where the entry point leads (`sameMapped_of_moves`, `jump_of_moves`).

`Sound` says what a request can rely on in each phase. Both its own steps
(`Sound.moves`) and the steps of others (`Sound.later`) keep it: while a request has
the lock, its method has no detour.
-/

namespace Reroute

/-- A request whose engine and whose scope never say that a method is detoured
already. -/
structure Request.Plain (r : Request) : Prop where
  compiler : ∀ clone scope, EndsFinal (r.compiler.compile clone scope)
  scope : r.method.scope.Plain

/-! ## The registry -/

namespace Registry

variable {s s' : Registry} {d d' : Detour} {method : Handle}

theorem lookup_filter_ne {lines : List (Handle × Detour)} {key : Handle} (h : method ≠ key) :
    (lines.filter fun line => line.1 != key).lookup method = lines.lookup method := by
  induction lines with
  | nil => rfl
  | cons line rest ih =>
      obtain ⟨other, d⟩ := line
      by_cases hkey : other = key
      · subst hkey
        have hmethod : (method == other) = false := by simpa using h
        simp only [List.filter_cons, bne_self_eq_false, Bool.false_eq_true, if_false,
          List.lookup_cons, hmethod, ih]
      · have hkeep : (other != key) = true := by simpa using hkey
        simp only [List.filter_cons, hkeep, if_true, List.lookup_cons, ih]

theorem lookup_filter_self (lines : List (Handle × Detour)) (key : Handle) :
    (lines.filter fun line => line.1 != key).lookup key = none := by
  rw [List.lookup_eq_none_iff]
  intro line hline
  have hne := (List.mem_filter.mp hline).2
  simp only [bne_iff_ne, ne_eq] at hne
  simpa using Ne.symm hne

/-- A registered detour is found, and so are those of the other methods. -/
theorem find?_insert (s : Registry) (d : Detour) (method : Handle) :
    (s.insert d).find? method = if method = d.method.handle then some d else s.find? method := by
  simp only [find?, insert, List.lookup_append]
  split
  · rename_i h
    rw [h, lookup_filter_self]
    simp
  · rename_i h
    have hlast : List.lookup method [(d.method.handle, d)] = none := by
      simp [List.lookup_cons, beq_eq_false_iff_ne.mpr h]
    rw [lookup_filter_ne h, hlast, Option.or_none]

theorem nodup_insert (h : (s.detours.map Prod.fst).Nodup) (d : Detour) :
    ((s.insert d).detours.map Prod.fst).Nodup := by
  simp only [insert, List.map_append, List.map_cons, List.map_nil]
  rw [List.nodup_append]
  refine ⟨h.sublist (List.filter_sublist.map _), by simp, ?_⟩
  intro key hkey other hother
  obtain ⟨line, hline, rfl⟩ := List.mem_map.mp hkey
  have hne := (List.mem_filter.mp hline).2
  simp only [List.mem_singleton] at hother
  simpa [hother] using hne

/-- Nothing has changed that others rely on: no detour, not the lock, and no byte
of a mapped page. -/
structure Same (s s' : Registry) : Prop where
  detours : s'.detours = s.detours
  holder : s'.holder = s.holder
  memory : s.space.SameMapped s'.space.memory

/-- Nothing has changed but that the lock was given back. -/
structure GivenBack (s s' : Registry) : Prop where
  detours : s'.detours = s.detours
  free : s'.holder = none
  memory : s.space.SameMapped s'.space.memory

theorem same_of_eq (hdetours : s'.detours = s.detours) (hholder : s'.holder = s.holder)
    (hspace : s'.space = s.space) : s.Same s' :=
  ⟨hdetours, hholder, AddressSpace.sameMapped_of_eq (congrArg AddressSpace.memory hspace)⟩

theorem givenBack_of_eq (hdetours : s'.detours = s.detours) (free : s'.holder = none)
    (hmemory : s'.space.memory = s.space.memory) : s.GivenBack s' :=
  ⟨hdetours, free, AddressSpace.sameMapped_of_eq hmemory⟩

end Registry

/-! ## What a step can do -/

namespace Phase

/-- Between taking the lock and having a detour to register. -/
inductive Preparing : Phase → Prop where
  | clone : Preparing .clone
  | compile (clone : Clone) (scope : Interner) : Preparing (.compile clone scope)
  | form (clone : Clone) (scope : Interner) (compiled : Compiled) :
      Preparing (.form clone scope compiled)
  | stub (clone : Clone) (scope : Interner) (compiled : Compiled) (form : ProxyForm) :
      Preparing (.stub clone scope compiled form)

/-- Whether a request in this phase has the lock. -/
def holds : Phase → Bool
  | .clone | .compile .. | .form .. | .stub .. | .link _ | .patch _ | .insert _ => true
  | .lookup | .check | .acquire | .retry _ | .done _ => false

theorem Preparing.holds {phase : Phase} (h : phase.Preparing) : phase.holds = true := by
  cases h <;> rfl

end Phase

namespace Request

/-- Whether the next step of a request redirects the entry point. -/
def patches (r : Request) (phase : Phase) (s : Registry) : Bool :=
  match phase with
  | .patch d => (Patch.run .x64 r.method.entryPoint d.entry r.options s.space).1.isOk
  | _ => false

/-- The steps of a request, each with what it needs and what it leaves. -/
inductive Moves (id : Nat) (r : Request) (s : Registry) : Phase → Phase → Registry → Prop where
  | found {d : Detour} (h : s.find? r.method.handle = some d) :
      Moves id r s .lookup (.done (.ok d)) s
  | missed : Moves id r s .lookup .check s
  | checked : Moves id r s .check .acquire s
  | unfit {e : Error} (he : e.Final) : Moves id r s .check (.done (.error e)) s
  | beaten {d : Detour} (h : s.find? r.method.handle = some d) :
      Moves id r s .acquire (.retry r.method.handle) s
  | entered (free : s.holder = none) (h : s.find? r.method.handle = none) :
      Moves id r s .acquire .clone { s with holder := some id }
  | prepared {phase phase' : Phase} {s' : Registry} (h : phase.Preparing) (h' : phase'.Preparing)
      (same : s.Same s') : Moves id r s phase phase' s'
  | made {phase : Phase} {d : Detour} {s' : Registry} (h : phase.Preparing)
      (hd : d.method = r.method) (same : s.Same s') : Moves id r s phase (.link d) s'
  | linked {d : Detour} {s' : Registry} (same : s.Same s') : Moves id r s (.link d) (.patch d) s'
  | patched {d : Detour} {s' : Registry} (done : r.patches (.patch d) s = true)
      (hdetours : s'.detours = s.detours) (hholder : s'.holder = s.holder)
      (jump : s'.space.memory.read
        (Patch.site .x64 r.options s.space.memory r.method.entryPoint) 12 =
          Redirector.jump64 d.entry) :
      Moves id r s (.patch d) (.insert d) s'
  | failed {phase : Phase} {e : Error} {s' : Registry} (h : phase.Preparing) (he : e.Final)
      (back : s.GivenBack s') : Moves id r s phase (.done (.error e)) s'
  | unpatched {d : Detour} {e : Error} {s' : Registry} (he : e.Final) (back : s.GivenBack s')
      (undone : r.patches (.patch d) s = false) : Moves id r s (.patch d) (.done (.error e)) s'
  | registered {d : Detour} : Moves id r s (.insert d) (.done (.ok d)) (s.insert d).release
  | caughtUp {method : Handle} {d : Detour} (h : s.find? method = some d) :
      Moves id r s (.retry method) (.done (.ok d)) s
  | vanished {method : Handle} {e : Error} (h : s.find? method = none) :
      Moves id r s (.retry method) (.done (.error e)) s

variable {id : Nat} {r : Request} {s s' : Registry} {phase phase' : Phase}

theorem failing_of_final {e : Error} (h : e.Final) : failing e = .done (.error e) := by
  cases e with
  | alreadyDetoured method => exact (h method rfl).elim
  | _ => rfl

theorem moves_of_failing {e : Error} {behind : Registry}
    (h : some (failing e, behind) = some (phase', s')) (hphase : phase.Preparing) (he : e.Final)
    (back : s.GivenBack behind) : Moves id r s phase phase' s' := by
  rw [failing_of_final he] at h
  cases h
  exact .failed hphase he back

/-- The step that redirects the entry point, if it can. -/
theorem moves_of_step_patch {d : Detour} (h : r.step id (.patch d) s = some (phase', s')) :
    Moves id r s (.patch d) phase' s' := by
  have hfinal := Patch.endsFinal_run r.method.entryPoint d.entry r.options s.space
  unfold step at h
  dsimp only at h
  rcases Patch.run_x64_cases r.method.entryPoint d.entry r.options s.space with
    ⟨e, pages, -, hrun⟩ | ⟨pageGuard, pages, -, hrun⟩
  · rw [hrun] at h hfinal
    dsimp only at h
    rw [failing_of_final (hfinal e rfl)] at h
    cases h
    refine .unpatched (hfinal e rfl) (Registry.givenBack_of_eq rfl rfl rfl) ?_
    rw [patches, hrun]
    rfl
  · rw [hrun] at h
    cases h
    have hprotocol := Patch.protocol_jump64 s.space.memory
      (Patch.site .x64 r.options s.space.memory r.method.entryPoint) d.entry
    have hcomplete := hprotocol.complete
    rw [Patch.length_jump64] at hcomplete
    refine .patched ?_ rfl rfl hcomplete
    rw [patches, hrun]
    rfl

theorem moves_of_step (hr : r.Plain) (h : r.step id phase s = some (phase', s')) :
    Moves id r s phase phase' s' := by
  cases phase with
  | lookup =>
      dsimp only [step] at h
      split at h
      · rename_i d hfind
        cases h
        exact .found hfind
      · cases h
        exact .missed
  | check =>
      dsimp only [step] at h
      split at h
      · cases h
        exact .checked
      · rename_i e hfail
        have he := r.endsFinal_check e hfail
        rw [failing_of_final he] at h
        cases h
        exact .unfit he
  | acquire =>
      dsimp only [step] at h
      split at h
      · cases h
      · rename_i hfree
        split at h
        · rename_i d hfind
          cases h
          exact .beaten hfind
        · rename_i hfind
          cases h
          exact .entered hfree hfind
  | clone =>
      dsimp only [step] at h
      split at h
      · cases h
        exact .prepared .clone (.compile ..) (Registry.same_of_eq rfl rfl rfl)
      · rename_i e _ hfail
        have he := Clone.onlyFinal_ofMethod hr.scope _ _ _ hfail
        exact moves_of_failing h .clone he (Registry.givenBack_of_eq rfl rfl rfl)
  | compile clone scope =>
      dsimp only [step] at h
      split at h
      · cases h
        exact .prepared (.compile ..) (.form ..) (Registry.same_of_eq rfl rfl rfl)
      · rename_i e hfail
        have he := hr.compiler clone scope e hfail
        exact moves_of_failing h (.compile ..) he (Registry.givenBack_of_eq rfl rfl rfl)
  | form clone scope compiled =>
      dsimp only [step] at h
      split at h
      · cases h
        exact .prepared (.form ..) (.stub ..) (Registry.same_of_eq rfl rfl rfl)
      · rename_i e hfail
        have he := Detour.endsFinal_formOf r.method e hfail
        exact moves_of_failing h (.form ..) he (Registry.givenBack_of_eq rfl rfl rfl)
  | stub clone scope compiled form =>
      dsimp only [step] at h
      split at h
      · rename_i entry space hemit
        obtain ⟨vacant, rfl, rfl⟩ := Native.eq_ok_of_emitStub hemit
        cases h
        exact .made (.stub ..) rfl
          ⟨rfl, rfl, AddressSpace.sameMapped_of_vacant vacant s.space.sameOutside_withStub⟩
      · rename_i e hfail
        have he := Native.endsFinal_emitStub form s.space e hfail
        exact moves_of_failing h (.stub ..) he (Registry.givenBack_of_eq rfl rfl rfl)
  | link d =>
      cases h
      exact .linked (Registry.same_of_eq rfl rfl rfl)
  | patch d => exact moves_of_step_patch h
  | insert d =>
      cases h
      exact .registered
  | retry method =>
      dsimp only [step] at h
      split at h
      · rename_i d hfind
        cases h
        exact .caughtUp hfind
      · rename_i hfind
        cases h
        exact .vanished hfind
  | done result => cases h

/-- A step keeps the lock as it is, takes it, or gives it back. -/
theorem lock_of_moves (h : Moves id r s phase phase' s') :
    (phase'.holds = phase.holds ∧ s'.holder = s.holder) ∨
    (phase.holds = false ∧ phase'.holds = true ∧ s.holder = none ∧ s'.holder = some id) ∨
    (phase.holds = true ∧ phase'.holds = false ∧ s'.holder = none) := by
  cases h with
  | entered free => exact .inr (.inl ⟨rfl, rfl, free, rfl⟩)
  | prepared h h' same => exact .inl ⟨h'.holds.trans h.holds.symm, same.holder⟩
  | made h _ same => exact .inl ⟨h.holds.symm, same.holder⟩
  | linked same => exact .inl ⟨rfl, same.holder⟩
  | patched _ _ hholder => exact .inl ⟨rfl, hholder⟩
  | failed h _ back => exact .inr (.inr ⟨h.holds, rfl, back.free⟩)
  | unpatched _ back => exact .inr (.inr ⟨rfl, rfl, back.free⟩)
  | registered => exact .inr (.inr ⟨rfl, rfl, rfl⟩)
  | _ => exact .inl ⟨rfl, rfl⟩

/-- Only the last step with the lock changes the registry. -/
theorem detours_of_moves (h : Moves id r s phase phase' s') :
    s'.detours = s.detours ∨ ∃ d, phase = .insert d ∧ phase' = .done (.ok d) ∧
      s'.detours = (s.insert d).detours := by
  cases h with
  | prepared _ _ same | made _ _ same | linked same => exact .inl same.detours
  | patched _ hdetours => exact .inl hdetours
  | failed _ _ back | unpatched _ back => exact .inl back.detours
  | registered => exact .inr ⟨_, rfl, rfl, rfl⟩
  | _ => exact .inl rfl

/-- A step that redirects no entry point changes no byte of a mapped page. -/
theorem sameMapped_of_moves (h : Moves id r s phase phase' s')
    (hquiet : r.patches phase s = false) : s.space.SameMapped s'.space.memory := by
  cases h with
  | prepared _ _ same | made _ _ same | linked same => exact same.memory
  | patched done =>
      rw [hquiet] at done
      cases done
  | failed _ _ back | unpatched _ back => exact back.memory
  | _ => exact AddressSpace.sameMapped_of_eq rfl

/-- One that does puts the jump to the proxy where the entry point leads. -/
theorem jump_of_moves (h : Moves id r s phase phase' s') (hpatches : r.patches phase s = true) :
    ∃ d, phase = .patch d ∧ s'.space.memory.read
      (Patch.site .x64 r.options s.space.memory r.method.entryPoint) 12 =
        Redirector.jump64 d.entry := by
  cases h with
  | patched _ _ _ jump => exact ⟨_, rfl, jump⟩
  | prepared h | made h | failed h => cases h <;> cases hpatches
  | unpatched _ _ undone =>
      rw [undone] at hpatches
      cases hpatches
  | _ => cases hpatches

/-- Behind the last step with the lock a method has its detour. -/
theorem done_of_moves_insert {d : Detour} (h : Moves id r s (.insert d) phase' s') :
    phase' = .done (.ok d) := by
  cases h with
  | prepared h => cases h
  | made h => cases h
  | failed h => cases h
  | registered => rfl

/-! ## One request -/

/-- What a request can rely on in each phase. -/
inductive Sound (r : Request) (s : Registry) : Phase → Prop where
  | lookup : Sound r s .lookup
  | check : Sound r s .check
  | acquire : Sound r s .acquire
  | preparing {phase : Phase} (h : phase.Preparing) (absent : s.find? r.method.handle = none) :
      Sound r s phase
  | link {d : Detour} (hd : d.method = r.method) (absent : s.find? r.method.handle = none) :
      Sound r s (.link d)
  | patch {d : Detour} (hd : d.method = r.method) (absent : s.find? r.method.handle = none) :
      Sound r s (.patch d)
  | insert {d : Detour} (hd : d.method = r.method) (absent : s.find? r.method.handle = none) :
      Sound r s (.insert d)
  | retry {d : Detour} (h : s.find? r.method.handle = some d) : Sound r s (.retry r.method.handle)
  | given {d : Detour} (h : s.find? r.method.handle = some d) : Sound r s (.done (.ok d))
  | refused {e : Error} (he : e.Final) : Sound r s (.done (.error e))

theorem find?_of_detours (h : s'.detours = s.detours) (method : Handle) :
    s'.find? method = s.find? method := by
  rw [Registry.find?, h, Registry.find?]

namespace Sound

/-- While a request has the lock its method has no detour. -/
theorem absent (h : Sound r s phase) (hholds : phase.holds = true) :
    s.find? r.method.handle = none := by
  cases h with
  | preparing _ absent | link _ absent | patch _ absent | insert _ absent => exact absent
  | _ => cases hholds

theorem method_eq {d : Detour} (h : Sound r s (.insert d)) : d.method = r.method := by
  cases h with
  | preparing h => cases h
  | insert hd => exact hd

theorem find?_of_given {d : Detour} (h : Sound r s (.done (.ok d))) :
    s.find? r.method.handle = some d := by
  cases h with
  | preparing h => cases h
  | given h => exact h

theorem final_of_refused {e : Error} (h : Sound r s (.done (.error e))) : e.Final := by
  cases h with
  | preparing h => cases h
  | refused he => exact he

theorem find?_of_retry {method : Handle} (h : Sound r s (.retry method)) :
    method = r.method.handle ∧ ∃ d, s.find? method = some d := by
  cases h with
  | preparing h => cases h
  | retry h => exact ⟨rfl, _, h⟩

/-- A registered detour stays registered, whatever step is made. -/
theorem kept (h : Sound r s phase) (hmoves : Moves id r s phase phase' s') {method : Handle}
    {d : Detour} (hfind : s.find? method = some d) : s'.find? method = some d := by
  rcases detours_of_moves hmoves with hsame | ⟨d', rfl, -, hinsert⟩
  · rw [find?_of_detours hsame, hfind]
  · rw [find?_of_detours hinsert, Registry.find?_insert, h.method_eq, if_neg]
    · exact hfind
    · rintro rfl
      rw [h.absent rfl] at hfind
      cases hfind

/-- What a request relies on holds after its own step. -/
theorem moves (h : Sound r s phase) (hmoves : Moves id r s phase phase' s') :
    Sound r s' phase' := by
  cases hmoves with
  | found hfind => exact .given hfind
  | missed => exact .check
  | checked => exact .acquire
  | unfit he => exact .refused he
  | beaten hfind => exact .retry hfind
  | entered _ hnone => exact .preparing .clone hnone
  | prepared hphase hphase' same =>
      refine .preparing hphase' ?_
      rw [find?_of_detours same.detours, h.absent hphase.holds]
  | made hphase hd same =>
      refine .link hd ?_
      rw [find?_of_detours same.detours, h.absent hphase.holds]
  | linked same =>
      cases h with
      | preparing h => cases h
      | link hd absent => exact .patch hd (by rw [find?_of_detours same.detours, absent])
  | patched _ hdetours =>
      cases h with
      | preparing h => cases h
      | patch hd absent => exact .insert hd (by rw [find?_of_detours hdetours, absent])
  | failed _ he | unpatched he => exact .refused he
  | @registered d =>
      refine .given ?_
      show (s.insert d).find? r.method.handle = some d
      rw [Registry.find?_insert, h.method_eq, if_pos rfl]
  | caughtUp hfind =>
      obtain ⟨rfl, -⟩ := h.find?_of_retry
      exact .given hfind
  | vanished hnone =>
      obtain ⟨-, d, hfind⟩ := h.find?_of_retry
      rw [hnone] at hfind
      cases hfind

/-- And it holds after a step of another request, which does not have the lock
if this one has. -/
theorem later (h : Sound r s phase)
    (hkept : ∀ method d, s.find? method = some d → s'.find? method = some d)
    (hlocked : phase.holds = true → s'.detours = s.detours) : Sound r s' phase := by
  have habsent : phase.holds = true → s'.find? r.method.handle = none := fun hholds => by
    rw [find?_of_detours (hlocked hholds), h.absent hholds]
  cases h with
  | lookup => exact .lookup
  | check => exact .check
  | acquire => exact .acquire
  | preparing hphase => exact .preparing hphase (habsent hphase.holds)
  | link hd => exact .link hd (habsent rfl)
  | patch hd => exact .patch hd (habsent rfl)
  | insert hd => exact .insert hd (habsent rfl)
  | retry hfind => exact .retry (hkept _ _ hfind)
  | given hfind => exact .given (hkept _ _ hfind)
  | refused he => exact .refused he

end Sound

theorem step_of_patches (id : Nat) (h : r.patches phase s = true) :
    ∃ d s', phase = .patch d ∧ r.step id phase s = some (.insert d, s') := by
  cases phase with
  | patch d =>
      unfold step
      dsimp only [patches] at h ⊢
      split
      · exact ⟨d, _, rfl, rfl⟩
      · rename_i hfail
        rw [hfail] at h
        cases h
  | _ => cases h

end Request

end Reroute
