import Reroute.Proofs.FreshPages
import Reroute.Proofs.Installing
/-!
# What a request leaves behind

A request that fails has at most mapped a stub that nobody knows of: no detour
was added, and no byte of mapped memory is another one (`Registry.Untouched`).
A request that installs a detour adds it and puts the jump to its proxy where the
entry point leads (`Request.Installed`). Other threads can come in between any two
stores, so this is also said of all the registries in between (`Request.moments`):
in each of them nothing is touched yet, or the proxy knows its detour already.

`Request.Stage` says how far things have got in each phase. A step takes one stage
to the next and leaves fewer steps to make (`Stage.step`), which carries the
induction over a whole run (`endsFrom_of_stage`).
-/

namespace Reroute

/-! ## What has changed -/

namespace Registry

/-- No detour was added, and nothing has changed but the page that was to be
mapped next. -/
structure Untouched (s t : Registry) : Prop where
  detours : t.detours = s.detours
  mapped : ∀ a, s.space.Mapped a → t.space.memory.byte a = s.space.memory.byte a
  elsewhere : s.space.memory.SameOutside s.space.free pageSize t.space.memory

/-- The proxy of a detour makes the calls of this detour. -/
def Answers (t : Registry) (d : Detour) : Prop :=
  ∀ behaviours fuel, t.proxy? behaviours fuel d.entry =
    some { toProxyForm := d.form
           handler :=
             Pipeline.callTarget (t.surroundings behaviours) fuel d.method.handle d.target }

/-- The proxy of a detour has its form and its way back to the detour. -/
structure Linked (t : Registry) (d : Detour) : Prop where
  form : t.forms d.entry = some d.form
  back : t.backs d.entry = some d

variable {s t : Registry} {d : Detour}

theorem Linked.answers (h : t.Linked d) : t.Answers d := by
  intro behaviours fuel
  rw [proxy?, h.form, h.back]
  rfl

theorem Untouched.refl (s : Registry) : s.Untouched s := ⟨rfl, fun _ _ => rfl, fun _ _ => rfl⟩

theorem untouched_of_space (hdetours : t.detours = s.detours)
    (hspace : t.space.memory = s.space.memory) : s.Untouched t := by
  refine ⟨hdetours, ?_, ?_⟩
  · intro a _
    rw [hspace]
  · intro a _
    rw [hspace]

theorem untouched_of_withStub (vacant : s.space.Vacant) (hdetours : t.detours = s.detours)
    (hspace : t.space.memory = s.space.withStub.memory) : s.Untouched t := by
  have hsame := s.space.sameOutside_withStub
  rw [← hspace] at hsame
  exact ⟨hdetours, AddressSpace.sameMapped_of_vacant vacant hsame, hsame⟩

theorem detours_insert (h : s.find? d.method.handle = none) :
    (s.insert d).detours = s.detours ++ [(d.method.handle, d)] := by
  have hkeep : s.detours.filter (fun line => line.1 != d.method.handle) = s.detours := by
    rw [List.filter_eq_self]
    intro line hline
    have hne : (d.method.handle != line.1) = true := List.lookup_eq_none_iff.mp h line hline
    rw [bne_iff_ne] at hne ⊢
    exact hne.symm
  rw [insert, hkeep]

end Registry

/-- The steps that a request makes at most before it is done. -/
def Phase.left : Phase → Nat
  | .lookup => 10
  | .check => 9
  | .acquire => 8
  | .clone => 7
  | .compile .. => 6
  | .form .. => 5
  | .stub .. => 4
  | .link _ => 3
  | .patch _ => 2
  | .insert _ | .retry _ => 1
  | .done _ => 0

theorem done_of_left {phase : Phase} (h : phase.left = 0) : ∃ result, phase = .done result := by
  cases phase with
  | done result => exact ⟨result, rfl⟩
  | _ => simp [Phase.left] at h

namespace Request

/-! ## The registries in between -/

/-- The registries behind the single stores of a patch. -/
def during (r : Request) (phase : Phase) (t : Registry) : List Registry :=
  match phase with
  | .patch d =>
    let site := Patch.site .x64 r.options t.space.memory r.method.entryPoint
    match PageGuard.unprotect site 12 r.options.restoreProtection t.space.pages with
    | (.ok _, pages) =>
      (Patch.states t.space.memory (Patch.stores site (Redirector.jump64 d.entry))).map
        fun memory => { t with space := { t.space with memory, pages } }
    | (.error _, _) => []
  | _ => []

/-- The registries that others can find while a request makes its steps. -/
def momentsFrom (id : Nat) (r : Request) : (fuel : Nat) → Phase → Registry → List Registry
  | 0, _, t => [t]
  | fuel + 1, phase, t =>
    match r.step id phase t with
    | some (phase', t') => t :: (r.during phase t ++ momentsFrom id r fuel phase' t')
    | none => [t]

/-- The registries that others can find while a method is detoured. -/
def moments (r : Request) (s : Registry) : List Registry := momentsFrom 0 r maxSteps .lookup s

/-! ## How a request ends -/

/-- Where the entry point leads when the stub has been mapped. -/
def site (r : Request) (s : Registry) : UInt64 :=
  Patch.site .x64 r.options s.space.withStub.memory r.method.entryPoint

/-- What a host vouches for: the code that the entry point leads to is mapped, and so
is what tells where that is. -/
structure Hosted (r : Request) (s : Registry) : Prop where
  readable : r.options.resolveIndirection = true → s.space.Readable r.method.entryPoint
  code : ∀ i < 12, s.space.Mapped
    (Patch.site .x64 r.options s.space.memory r.method.entryPoint + UInt64.ofNat i)

/-- A detour that was made for a request, and the registry that it is in. -/
structure Installed (r : Request) (s : Registry) (d : Detour) (t : Registry) : Prop where
  method : d.method = r.method
  entry : d.entry = s.space.free
  absent : s.find? r.method.handle = none
  detours : t.detours = s.detours ++ [(r.method.handle, d)]
  released : t.holder = s.holder
  answers : t.Answers d
  jump : t.space.memory.read (r.site s) 12 = Redirector.jump64 d.entry
  elsewhere : ∀ a, pageSize ≤ (a - s.space.free).toNat → 12 ≤ (a - r.site s).toNat →
    t.space.memory.byte a = s.space.memory.byte a
  hosted : r.Hosted s →
    r.site s = Patch.site .x64 r.options s.space.memory r.method.entryPoint ∧
      t.space.memory.read d.entry 134 = Stub.sysV d.entry Native.dispatcher

/-- How a request ends: what it gets, the registry that it leaves, and those that
others could find meanwhile. -/
inductive Ends (r : Request) (s : Registry) :
    Except Error Detour → Registry → List Registry → Prop where
  | failed {e : Error} {t : Registry} {moments : List Registry} (untouched : s.Untouched t)
      (released : t.holder = s.holder) (quiet : ∀ m ∈ moments, s.Untouched m) :
      Ends r s (.error e) t moments
  | found {method : Handle} {d : Detour} {t : Registry} {moments : List Registry}
      (registered : s.find? method = some d) (untouched : s.Untouched t)
      (released : t.holder = s.holder) (quiet : ∀ m ∈ moments, s.Untouched m) :
      Ends r s (.ok d) t moments
  | installed {d : Detour} {t : Registry} {moments : List Registry} (installed : r.Installed s d t)
      (answered : ∀ m ∈ moments, s.Untouched m ∨ m.Answers d) : Ends r s (.ok d) t moments

/-! ## Stages -/

/-- What holds while a request has the lock. -/
structure Entered (r : Request) (s t : Registry) : Prop where
  absent : s.find? r.method.handle = none
  free : s.holder = none
  detours : t.detours = s.detours

/-- A detour has been made, and its proxy has a stub. -/
structure Made (r : Request) (s : Registry) (d : Detour) (t : Registry) : Prop extends
    r.Entered s t where
  method : d.method = r.method
  entry : d.entry = s.space.free
  form : t.forms d.entry = some d.form
  vacant : s.space.Vacant
  space : t.space = s.space.withStub

/-- How far things have got when a request is in some phase. -/
inductive Stage (r : Request) (s : Registry) : Phase → Registry → Prop where
  | lookup : Stage r s .lookup s
  | check : Stage r s .check s
  | acquire : Stage r s .acquire s
  | preparing {phase : Phase} {t : Registry} (h : phase.Preparing) (entered : r.Entered s t)
      (space : t.space = s.space) : Stage r s phase t
  | link {d : Detour} {t : Registry} (made : r.Made s d t) : Stage r s (.link d) t
  | patch {d : Detour} {t : Registry} (made : r.Made s d t) (linked : t.Linked d) :
      Stage r s (.patch d) t
  | insert {d : Detour} {t : Registry} (entered : r.Entered s t) (method : d.method = r.method)
      (entry : d.entry = s.space.free) (vacant : s.space.Vacant) (linked : t.Linked d)
      (memory : t.space.memory = Patch.applyAll s.space.withStub.memory
        (Patch.stores (r.site s) (Redirector.jump64 d.entry))) : Stage r s (.insert d) t
  | retry {method : Handle} {t : Registry} (untouched : s.Untouched t)
      (released : t.holder = s.holder) : Stage r s (.retry method) t
  | failed {e : Error} {t : Registry} (untouched : s.Untouched t) (released : t.holder = s.holder) :
      Stage r s (.done (.error e)) t
  | found {method : Handle} {d : Detour} {t : Registry} (registered : s.find? method = some d)
      (untouched : s.Untouched t) (released : t.holder = s.holder) : Stage r s (.done (.ok d)) t
  | installed {d : Detour} {t : Registry} (installed : r.Installed s d t) :
      Stage r s (.done (.ok d)) t

variable {id : Nat} {r : Request} {s t t' : Registry} {phase phase' : Phase} {d : Detour}

theorem Entered.untouched (h : r.Entered s t) (space : t.space = s.space) : s.Untouched t :=
  Registry.untouched_of_space h.detours (congrArg AddressSpace.memory space)

theorem Made.untouched (h : r.Made s d t) : s.Untouched t :=
  Registry.untouched_of_withStub h.vacant h.detours (congrArg AddressSpace.memory h.space)

def Advances (r : Request) (s : Registry) (phase phase' : Phase) (t' : Registry) : Prop :=
  r.Stage s phase' t' ∧ phase'.left < phase.left

theorem advances_failing {e : Error} (untouched : s.Untouched t) (released : t.holder = s.holder)
    (hleft : 1 < phase.left) : r.Advances s phase (failing e) t := by
  cases e with
  | alreadyDetoured method => exact ⟨.retry untouched released, hleft⟩
  | _ => exact ⟨.failed untouched released, Nat.lt_of_succ_lt hleft⟩

theorem installed_of_insert (h : r.Stage s (.insert d) t) :
    r.Installed s d (t.insert d).release := by
  cases h with
  | preparing h => cases h
  | insert entered method entry vacant linked memory =>
  have hprotocol := Patch.protocol_jump64 s.space.withStub.memory (r.site s) d.entry
  rw [← memory] at hprotocol
  have habsent : t.find? d.method.handle = none := by
    rw [find?_of_detours entered.detours, method]
    exact entered.absent
  have hdetours : (t.insert d).detours = s.detours ++ [(r.method.handle, d)] := by
    rw [Registry.detours_insert habsent, entered.detours, method]
  have hlinked : (t.insert d).release.Linked d := ⟨linked.form, linked.back⟩
  -- The jump was stored over the memory with the stub, and changes twelve bytes of it.
  have hframe : s.space.withStub.memory.SameOutside (r.site s) 12 t.space.memory := by
    have hall := hprotocol.frame _ (List.mem_of_getLast? hprotocol.ends)
    rwa [Patch.length_jump64] at hall
  have hcomplete := hprotocol.complete
  rw [Patch.length_jump64] at hcomplete
  refine ⟨method, entry, entered.absent, hdetours, entered.free.symm, hlinked.answers, hcomplete,
    ?_, ?_⟩
  · intro a hfresh hsite
    exact (hframe a hsite).trans (s.space.sameOutside_withStub a hfresh)
  · intro hosted
    have hmapped : s.space.SameMapped s.space.withStub.memory :=
      AddressSpace.sameMapped_of_vacant vacant s.space.sameOutside_withStub
    have hsite := AddressSpace.site_eq_of_mapped hmapped hosted.readable
    have hcode := hosted.code
    rw [← hsite] at hcode
    refine ⟨hsite, ?_⟩
    rw [entry]
    exact AddressSpace.read_stub_of_sameOutside vacant hcode hframe

theorem advances_preparing (hphase : phase.Preparing) (entered : r.Entered s t)
    (space : t.space = s.space) (hstep : r.step id phase t = some (phase', t')) :
    r.Advances s phase phase' t' := by
  -- Nothing was stored yet, so nothing is left behind when the lock is given back.
  have hfail : ∀ {e : Error} {t₀ : Registry}, t₀.detours = t.detours → t₀.space = t.space →
      r.Advances s phase (failing e) t₀.release := by
    intro e t₀ hdetours hspace
    refine advances_failing (Registry.untouched_of_space ?_ ?_) entered.free.symm ?_
    · exact hdetours.trans entered.detours
    · exact congrArg AddressSpace.memory (hspace.trans space)
    · cases hphase <;> simp [Phase.left]
  unfold Request.step at hstep
  cases hphase with
  | clone =>
      dsimp only at hstep
      split at hstep
      · cases hstep
        exact ⟨.preparing (.compile ..) entered space, by simp [Phase.left]⟩
      · cases hstep
        exact hfail rfl rfl
  | compile clone scope =>
      dsimp only at hstep
      split at hstep
      · cases hstep
        have hentered : r.Entered s (t.countCompile r.compiler.id) :=
          ⟨entered.absent, entered.free, entered.detours⟩
        exact ⟨.preparing (.form ..) hentered space, by simp [Phase.left]⟩
      · cases hstep
        exact hfail rfl rfl
  | form clone scope compiled =>
      dsimp only at hstep
      split at hstep
      · cases hstep
        exact ⟨.preparing (.stub ..) entered space, by simp [Phase.left]⟩
      · cases hstep
        exact hfail rfl rfl
  | stub clone scope compiled form =>
      dsimp only at hstep
      split at hstep
      · rename_i entry space' hemit
        cases hstep
        obtain ⟨vacant, rfl, rfl⟩ := Native.eq_ok_of_emitStub hemit
        refine ⟨.link ⟨⟨entered.absent, entered.free, entered.detours⟩, rfl, ?_, if_pos rfl,
          space ▸ vacant, ?_⟩, by simp [Phase.left]⟩
        · exact congrArg AddressSpace.free space
        · exact congrArg AddressSpace.withStub space
      · cases hstep
        exact hfail rfl rfl

/-- A patch either changes no byte, or goes through and lets nobody come upon a proxy
that has changed. -/
theorem step_patch_cases (id : Nat) (r : Request) (d : Detour) (t : Registry) :
    (∃ e pages, r.step id (.patch d) t =
        some (failing e, { t with space := { t.space with pages } }.release) ∧
      r.during (.patch d) t = []) ∨
    ∃ pages, r.step id (.patch d) t = some (.insert d, { t with space := { t.space with
        memory := Patch.applyAll t.space.memory (Patch.stores
          (Patch.site .x64 r.options t.space.memory r.method.entryPoint)
          (Redirector.jump64 d.entry))
        pages } }) ∧
      ∀ m ∈ r.during (.patch d) t, m.forms = t.forms ∧ m.backs = t.backs := by
  unfold Request.step
  dsimp only [during]
  rcases Patch.run_x64_cases r.method.entryPoint d.entry r.options t.space with
    ⟨e, pages, hguard, hrun⟩ | ⟨pageGuard, pages, hguard, hrun⟩
  · rw [hrun, hguard]
    exact .inl ⟨e, pages, rfl, rfl⟩
  · rw [hrun, hguard]
    refine .inr ⟨_, rfl, fun m hm => ?_⟩
    obtain ⟨memory, -, rfl⟩ := List.mem_map.mp hm
    exact ⟨rfl, rfl⟩

theorem advances_patch (made : r.Made s d t) (linked : t.Linked d)
    (hstep : r.step id (.patch d) t = some (phase', t')) : r.Advances s (.patch d) phase' t' := by
  rcases step_patch_cases id r d t with ⟨e, pages, hfail, -⟩ | ⟨pages, hdone, -⟩
  · cases hfail.symm.trans hstep
    obtain ⟨hdetours, hmapped, helsewhere⟩ := made.untouched
    exact advances_failing ⟨hdetours, hmapped, helsewhere⟩ made.free.symm (by simp [Phase.left])
  · cases hdone.symm.trans hstep
    refine ⟨.insert ⟨made.absent, made.free, made.detours⟩ made.method made.entry made.vacant
      ⟨linked.form, linked.back⟩ ?_, by simp [Phase.left]⟩
    simp only [made.space, site]

theorem Stage.step (h : r.Stage s phase t)
    (hstep : r.step id phase t = some (phase', t')) : r.Advances s phase phase' t' := by
  cases h with
  | preparing hphase entered space => exact advances_preparing hphase entered space hstep
  | patch made linked => exact advances_patch made linked hstep
  | lookup =>
      unfold Request.step at hstep
      dsimp only at hstep
      split at hstep
      · rename_i d hfind
        cases hstep
        exact ⟨.found hfind (.refl s) rfl, by simp [Phase.left]⟩
      · cases hstep
        exact ⟨.check, by decide⟩
  | check =>
      unfold Request.step at hstep
      dsimp only at hstep
      split at hstep
      · cases hstep
        exact ⟨.acquire, by decide⟩
      · cases hstep
        exact advances_failing (.refl s) rfl (by decide)
  | acquire =>
      unfold Request.step at hstep
      dsimp only at hstep
      split at hstep
      · cases hstep
      · rename_i hfree
        split at hstep
        · cases hstep
          exact advances_failing (.refl s) rfl (by decide)
        · rename_i habsent
          cases hstep
          exact ⟨.preparing .clone ⟨habsent, hfree, rfl⟩ rfl, by decide⟩
  | @link d t made =>
      cases hstep
      have hentered : r.Entered s (t.link d) := ⟨made.absent, made.free, made.detours⟩
      exact ⟨.patch ⟨hentered, made.method, made.entry, made.form, made.vacant, made.space⟩
        ⟨made.form, if_pos rfl⟩, by simp [Phase.left]⟩
  | insert entered method entry vacant linked memory =>
      cases hstep
      exact ⟨.installed (installed_of_insert (.insert entered method entry vacant linked memory)),
        by simp [Phase.left]⟩
  | retry untouched released =>
      unfold Request.step at hstep
      dsimp only at hstep
      split at hstep
      · rename_i d hfind
        cases hstep
        rw [find?_of_detours untouched.detours] at hfind
        exact ⟨.found hfind untouched released, by simp [Phase.left]⟩
      · cases hstep
        exact ⟨.failed untouched released, by simp [Phase.left]⟩
  | failed | found | installed => cases hstep

/-! ## A whole run -/

/-- What a request has got that makes no more steps. -/
def answerOf : Phase → Except Error Detour
  | .done result => result
  | _ => .error .abandoned

theorem detour_eq (r : Request) (s : Registry) :
    s.detour r = (answerOf (r.runAlone 0 maxSteps .lookup s).1,
      (r.runAlone 0 maxSteps .lookup s).2) := by
  unfold Registry.detour
  rcases r.runAlone 0 maxSteps .lookup s with ⟨phase, t⟩
  cases phase <;> rfl

/-- How a request ends that has got to some phase. -/
def EndsFrom (id : Nat) (r : Request) (s : Registry) (fuel : Nat) (phase : Phase) (t : Registry) :
    Prop :=
  r.Ends s (answerOf (r.runAlone id fuel phase t).1) (r.runAlone id fuel phase t).2
    (r.momentsFrom id fuel phase t)

theorem Ends.cons {answer : Except Error Detour} {m : Registry} {moments : List Registry}
    (h : r.Ends s answer t moments) (hm : s.Untouched m) : r.Ends s answer t (m :: moments) := by
  cases h with
  | failed untouched released quiet =>
      exact .failed untouched released (List.forall_mem_cons.mpr ⟨hm, quiet⟩)
  | found registered untouched released quiet =>
      exact .found registered untouched released (List.forall_mem_cons.mpr ⟨hm, quiet⟩)
  | installed installed answered =>
      exact .installed installed (List.forall_mem_cons.mpr ⟨.inl hm, answered⟩)

theorem endsFrom_of_step {fuel : Nat} (hstep : r.step id phase t = some (phase', t'))
    (huntouched : s.Untouched t) (hduring : r.during phase t = [])
    (h : EndsFrom id r s fuel phase' t') : EndsFrom id r s (fuel + 1) phase t := by
  unfold EndsFrom
  simp only [runAlone, momentsFrom, hstep, hduring, List.nil_append]
  exact h.cons huntouched

theorem endsFrom_of_none {fuel : Nat} (hstep : r.step id phase t = none)
    (h : r.Ends s (answerOf phase) t [t]) : EndsFrom id r s fuel phase t := by
  unfold EndsFrom
  cases fuel with
  | zero => exact h
  | succ fuel => simpa only [runAlone, momentsFrom, hstep] using h

theorem run_insert (id : Nat) (r : Request) (d : Detour) (t : Registry) (fuel : Nat) :
    r.runAlone id (fuel + 1) (.insert d) t = (.done (.ok d), (t.insert d).release) ∧
      r.momentsFrom id (fuel + 1) (.insert d) t = [t, (t.insert d).release] := by
  cases fuel <;> exact ⟨rfl, rfl⟩

theorem Stage.linked_of_insert (h : r.Stage s (.insert d) t) : t.Linked d := by
  cases h with
  | preparing h => cases h
  | insert entered method entry vacant linked memory => exact linked

theorem endsFrom_insert (h : r.Stage s (.insert d) t) (fuel : Nat) :
    EndsFrom id r s (fuel + 1) (.insert d) t := by
  obtain ⟨hrun, hmoments⟩ := run_insert id r d t fuel
  have hinstalled := installed_of_insert h
  unfold EndsFrom
  rw [hrun, hmoments]
  refine .installed hinstalled fun m hm => .inr ?_
  rcases List.mem_pair.mp hm with rfl | rfl
  · exact h.linked_of_insert.answers
  · exact hinstalled.answers

/-- From the first byte of the jump on, the proxy knows its detour. -/
theorem endsFrom_patch (made : r.Made s d t) (linked : t.Linked d)
    (hstep : r.step id (.patch d) t = some (.insert d, t'))
    (hduring : ∀ m ∈ r.during (.patch d) t, m.forms = t.forms ∧ m.backs = t.backs) (fuel : Nat) :
    EndsFrom id r s (fuel + 2) (.patch d) t := by
  have hstage := (advances_patch made linked hstep).1
  obtain ⟨hrun, hmoments⟩ := run_insert id r d t' fuel
  have hinstalled := installed_of_insert hstage
  have hanswers : ∀ m ∈ r.during (.patch d) t, m.Answers d := by
    intro m hm
    obtain ⟨hforms, hbacks⟩ := hduring m hm
    exact Registry.Linked.answers ⟨hforms ▸ linked.form, hbacks ▸ linked.back⟩
  unfold EndsFrom
  simp only [runAlone, momentsFrom, hstep] at hrun hmoments ⊢
  rw [hrun, hmoments]
  refine .installed hinstalled fun m hm => .inr ?_
  rcases List.mem_cons.mp hm with rfl | hm
  · exact linked.answers
  rcases List.mem_append.mp hm with hm | hm
  · exact hanswers m hm
  rcases List.mem_pair.mp hm with rfl | rfl
  · exact hstage.linked_of_insert.answers
  · exact hinstalled.answers

/-- Only a request that waits for the lock, or one that is done, makes no step. -/
theorem waits_or_done_of_step (h : r.step id phase t = none) :
    phase = .acquire ∨ ∃ result, phase = .done result := by
  unfold Request.step at h
  cases phase with
  | acquire => exact .inl rfl
  | done result => exact .inr ⟨result, rfl⟩
  | link | insert => simp only [reduceCtorEq] at h
  | _ => dsimp only at h; split at h <;> simp only [reduceCtorEq] at h

theorem Stage.ends_of_none (h : r.Stage s phase t) (hstep : r.step id phase t = none) :
    r.Ends s (answerOf phase) t [t] := by
  rcases waits_or_done_of_step hstep with rfl | ⟨result, rfl⟩
  · cases h with
    | preparing h => cases h
    | acquire => exact .failed (.refl s) rfl (List.forall_mem_singleton.mpr (.refl s))
  · cases h with
    | preparing h => cases h
    | failed untouched released =>
        exact .failed untouched released (List.forall_mem_singleton.mpr untouched)
    | found registered untouched released =>
        exact .found registered untouched released (List.forall_mem_singleton.mpr untouched)
    | installed installed =>
        exact .installed installed (List.forall_mem_singleton.mpr (.inr installed.answers))

theorem endsFrom_of_stage {fuel : Nat} (h : r.Stage s phase t)
    (hfuel : phase.left ≤ fuel) : EndsFrom id r s fuel phase t := by
  -- Every step but the last two leaves all as it was, so that the registry in front of it
  -- only makes the list longer; a patch that goes through takes both last steps at once.
  induction fuel generalizing phase t with
  | zero =>
      obtain ⟨result, rfl⟩ := done_of_left (Nat.le_zero.mp hfuel)
      have hnone : r.step id (.done result) t = none := rfl
      exact endsFrom_of_none hnone (h.ends_of_none hnone)
  | succ fuel ih =>
      cases hstep : r.step id phase t with
      | none => exact endsFrom_of_none hstep (h.ends_of_none hstep)
      | some behind =>
          obtain ⟨phase', t'⟩ := behind
          have hadvances := h.step hstep
          have hlater : EndsFrom id r s fuel phase' t' :=
            ih hadvances.1 (Nat.le_of_lt_succ (Nat.lt_of_lt_of_le hadvances.2 hfuel))
          cases h with
          | lookup | check | acquire => exact endsFrom_of_step hstep (.refl s) rfl hlater
          | preparing hphase entered space =>
              have hduring : r.during phase t = [] := by cases hphase <;> rfl
              exact endsFrom_of_step hstep (entered.untouched space) hduring hlater
          | link made => exact endsFrom_of_step hstep made.untouched rfl hlater
          | @patch d t made linked =>
              rcases step_patch_cases id r d t with ⟨e, pages, -, hduring⟩ | ⟨pages, hdone, hduring⟩
              · exact endsFrom_of_step hstep made.untouched hduring hlater
              · obtain ⟨left, rfl⟩ : ∃ left, fuel = left + 1 :=
                  ⟨fuel - 1, by simp only [Phase.left] at hfuel; omega⟩
                exact endsFrom_patch made linked hdone hduring left
          | insert entered method entry vacant linked memory =>
              exact endsFrom_insert (.insert entered method entry vacant linked memory) fuel
          | retry untouched released => exact endsFrom_of_step hstep untouched rfl hlater
          | failed | found | installed => cases hstep

/-- **A request that fails leaves no trace, and no jump leads to a proxy that does not
know its detour.** -/
theorem detour_ends (r : Request) (s : Registry) :
    r.Ends s (s.detour r).1 (s.detour r).2 (r.moments s) := by
  rw [detour_eq]
  exact endsFrom_of_stage .lookup (Nat.le_refl 10)

theorem detour_ends_onePage :
    (Requests.onePage.detour Requests.idle).1.toOption.map Detour.entry = some 0x20000 ∧
      Requests.idle.Ends Requests.onePage (Requests.onePage.detour Requests.idle).1
        (Requests.onePage.detour Requests.idle).2 (Requests.idle.moments Requests.onePage) :=
  ⟨by decide +kernel, detour_ends Requests.idle Requests.onePage⟩

end Request

end Reroute
