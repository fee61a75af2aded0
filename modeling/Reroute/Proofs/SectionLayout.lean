import Reroute.Proofs.RegionNaming
/-!
# Which layout a section has

All clauses of a section are thin or all are fat. Nothing decides it but the
regions: a section is thin exactly if its size and every field of every
region fit (`FitThin`), so one region that is too large, among any number,
makes all clauses fat.

Some regions get no section (`Refusal`). That there are too many for a fat
one is found out before any region is looked at; then the first region that
cannot be stored, in their order, has its fault answered. `encode_outcome`
puts the two together.
-/

namespace Reroute

variable {source : Scope} {s s' : Interner} {regions : List Region} {bytes : Bytes} {e e' : Error}

theorem Region.Fault.unique {r : Region} (h : r.Fault source e) (h' : r.Fault source e') :
    e = e' := by
  cases h with
  | untyped _ noType =>
      cases h' with
      | untyped => rfl
      | unresolved _ hasType named => exact absurd (noType _ hasType) named
  | unresolved _ hasType named fails =>
      cases h' with
      | untyped _ noType => exact absurd (noType _ hasType) named
      | unresolved _ hasType' _ fails' =>
          cases hasType.symm.trans hasType'
          exact Except.error.inj (fails.symm.trans fails')

namespace Section

/-! ## The choice -/

/-- Regions that a thin section has room for, in number and in each field. -/
structure FitThin (regions : List Region) : Prop where
  count : 4 + 12 * regions.length ≤ 255
  offsets : ∀ r ∈ regions, r.tryOffset.toNat ≤ 0xFFFF ∧ r.handlerOffset.toNat ≤ 0xFFFF
  lengths : ∀ r ∈ regions, r.tryLength.toNat ≤ 0xFF ∧ r.handlerLength.toNat ≤ 0xFF

theorem layoutFor_eq_thin_iff_fitThin : layoutFor regions = .thin ↔ FitThin regions := by
  have hsize : Layout.thin.sectionSize regions.length = 4 + 12 * regions.length := by
    simp only [Layout.sectionSize, Layout.clauseSize, headerSize]
    omega
  rw [layoutFor_eq_thin_iff, hsize]
  simp only [Region.requiresFat_eq_false_iff]
  constructor
  · rintro ⟨hcount, hall⟩
    exact ⟨hcount, fun r hr => (hall r hr).1, fun r hr => (hall r hr).2⟩
  · intro h
    exact ⟨h.count, fun r hr => ⟨h.offsets r hr, h.lengths r hr⟩⟩

/-- A section that holds a clause for each region, all in one layout: what
its header says, how long it is, and what is behind the header. -/
structure Written (source : Scope) (s : Interner) (layout : Layout) (regions : List Region)
    (bytes : Bytes) : Prop where
  first : bytes.head? = some (headerFlags layout)
  length : bytes.length = 4 + layout.clauseSize * regions.length
  size : Bytes.toNat ((bytes.drop 1).take layout.sizeWidth) = bytes.length
  clauses : ∃ clauses, List.Forall₂ (Region.StoredAs source s) regions clauses ∧
    bytes.drop 4 = encodeClauses layout clauses

example : headerFlags .thin = 0x01 ∧ headerFlags .fat = 0x41 := ⟨rfl, rfl⟩

theorem written_of_encode (hs : s.Reachable) (hne : regions ≠ [])
    (h : encode source regions s = (.ok bytes, s')) :
    Written source s' (layoutFor regions) regions bytes := by
  rcases exists_clauses_of_encode h with ⟨hnil, -⟩ | ⟨-, clauses, hclauses, rfl, hsize, hfits⟩
  · exact absurd hnil hne
  · have hstored := storedAs_of_mapM hs hclauses
    generalize layoutFor regions = layout at hsize hfits ⊢
    obtain ⟨sec, hflags, -, hbytes, -⟩ := exists_raw_of_clauses hfits hsize
    have hlayout : layoutOf sec.flags = layout := hflags ▸ layoutOf_headerFlags layout
    refine ⟨by rw [header_eq]; rfl, ?_, ?_, clauses, hstored, by cases layout <;> rfl⟩
    · rw [header_eq, List.length_append, length_encodeClauses, hstored.length_eq, Nat.mul_comm]
      cases layout <;> simp [Layout.sizeWidth]
    · have hfield := sec.numberAt_size []
      rwa [List.append_nil, ← sec.length_bytes, hlayout, hbytes] at hfield

/-! ## Refusals -/

/-- Regions that do not fit a thin section and are too many for a fat one. -/
structure TooMany (regions : List Region) : Prop where
  fat : ¬FitThin regions
  size : 0xFFFFFF < 4 + 24 * regions.length

/-- Why regions get no section. -/
inductive Refusal (source : Scope) (regions : List Region) : Error → Prop where
  | tooMany (many : TooMany regions) : Refusal source regions
      (.invalidExceptionData (toString regions.length ++ " regions do not fit a section"))
  | fault {e : Error} (few : ¬TooMany regions) (first : FirstFault source regions e) :
      Refusal source regions e

theorem tooMany_iff :
    TooMany regions ↔
      ¬(layoutFor regions).sectionSize regions.length ≤ (layoutFor regions).maxSize := by
  have hthin := @layoutFor_eq_thin_iff_fitThin regions
  cases hlayout : layoutFor regions with
  | thin =>
      rw [hlayout] at hthin
      have hfits := hthin.mp rfl
      have hroom := (layoutFor_eq_thin_iff.mp hlayout).1
      exact ⟨fun h => absurd hfits h.fat, fun h => absurd hroom h⟩
  | fat =>
      rw [hlayout] at hthin
      have hfat : ¬FitThin regions := fun h => by cases hthin.mpr h
      have hsize : Layout.fat.sectionSize regions.length = 4 + 24 * regions.length := by
        simp only [Layout.sectionSize, Layout.clauseSize, headerSize]
        omega
      rw [hsize, Layout.maxSize, Nat.not_le]
      exact ⟨fun h => h.size, fun h => ⟨hfat, h⟩⟩

theorem FirstFault.unique (h : FirstFault source regions e) (h' : FirstFault source regions e') :
    e = e' := by
  induction h with
  | here rest fault =>
      cases h' with
      | here _ fault' => exact fault.unique fault'
      | later storable _ => exact absurd storable fault.not_storable
  | later storable _ ih =>
      cases h' with
      | here _ fault' => exact absurd storable fault'.not_storable
      | later _ behind => exact ih behind

theorem Refusal.unique (h : Refusal source regions e) (h' : Refusal source regions e') :
    e = e' := by
  cases h with
  | tooMany many =>
      cases h' with
      | tooMany => rfl
      | fault few => exact absurd many few
  | fault few first =>
      cases h' with
      | tooMany many => exact absurd many few
      | fault _ first' => exact first.unique first'

theorem Refusal.cause (h : Refusal source regions e) :
    TooMany regions ∨ ∃ r ∈ regions, ∃ e, r.Fault source e := by
  cases h with
  | tooMany many => exact .inl many
  | fault _ first =>
      obtain ⟨r, hmem, fault⟩ := first.exists_fault
      exact .inr ⟨r, hmem, e, fault⟩

/-- Regions with a cause for refusal cannot be stored. -/
theorem not_storable_of_cause (h : TooMany regions ∨ ∃ r ∈ regions, ∃ e, r.Fault source e) :
    ¬Storable source regions := by
  intro hstorable
  rcases h with many | ⟨r, hmem, e, fault⟩
  · exact tooMany_iff.mp many hstorable.fits
  · exact fault.not_storable (hstorable.regions r hmem)

theorem encode_of_tooMany (many : TooMany regions) (s : Interner) :
    encode source regions s = (.error (tooMany regions.length), s) := by
  have hlarge := tooMany_iff.mp many
  rcases encode_cases source regions with ⟨rfl, -⟩ | ⟨-, hrun⟩ | ⟨hfits, -⟩
  · exact absurd many.size (by decide)
  · rw [hrun]
    rfl
  · exact absurd hfits hlarge

theorem refusal_of_encode (hs : s.Reachable) (room : s'.size ≤ Token.maxRow)
    (h : encode source regions s = (.error e, s')) : Refusal source regions e := by
  by_cases hmany : TooMany regions
  · rw [encode_of_tooMany hmany] at h
    cases h
    exact .tooMany hmany
  · rcases encode_cases source regions with ⟨-, hrun⟩ | ⟨hlarge, -⟩ | ⟨-, hrun⟩
    · rw [hrun] at h
      exact absurd h pure_ne_error
    · exact absurd (tooMany_iff.mpr hlarge) hmany
    · rw [hrun] at h
      rcases bind_eq_error_iff.mp h with hclauses | ⟨clauses, s₁, -, hpure⟩
      · exact .fault hmany (firstFault_of_mapM hs room hclauses)
      · exact absurd hpure pure_ne_error

theorem exists_error_iff (hs : s.Reachable) (room : (encode source regions).Fits s) :
    (∃ e, (encode source regions s).1 = .error e) ↔
      TooMany regions ∨ ∃ r ∈ regions, ∃ e, r.Fault source e := by
  rcases hrun : encode source regions s with ⟨answer, s'⟩
  have hok := encode_ok_iff hs room
  rw [Interning.Fits] at room
  rw [hrun] at room hok
  constructor
  · rintro ⟨e, rfl⟩
    exact (refusal_of_encode hs room hrun).cause
  · intro hcause
    cases answer with
    | error e => exact ⟨e, rfl⟩
    | ok bytes => exact absurd (hok.mp ⟨bytes, rfl⟩) (not_storable_of_cause hcause)

theorem encode_error_iff (hs : s.Reachable) (room : (encode source regions).Fits s) :
    (encode source regions s).1 = .error e ↔ Refusal source regions e := by
  have hexists := exists_error_iff hs room
  rcases hrun : encode source regions s with ⟨answer, s'⟩
  rw [Interning.Fits, hrun] at room
  rw [hrun] at hexists
  constructor
  · rintro rfl
    exact refusal_of_encode hs room hrun
  · intro h
    obtain ⟨e', rfl⟩ := hexists.mpr h.cause
    rw [h.unique (refusal_of_encode hs room hrun)]

/-! ## What becomes of regions -/

/-- What a section for regions is to be, where `run` is the answer and the
scope behind it. -/
structure Outcome (source : Scope) (regions : List Region) (s : Interner)
    (run : Except Error Bytes × Interner) : Prop where
  none : regions = [] → run = (.ok [], s)
  written : ∀ bytes, run.1 = .ok bytes → regions ≠ [] →
    ∃ layout, (layout = .thin ↔ FitThin regions) ∧ Written source run.2 layout regions bytes
  fails : (∃ e, run.1 = .error e) ↔ TooMany regions ∨ ∃ r ∈ regions, ∃ e, r.Fault source e
  refused : ∀ e, run.1 = .error e ↔ Refusal source regions e
  unlooked : TooMany regions → run.2 = s

/-- **The layout is canonical and every refusal has its reason.** What
becomes of regions in a scope with room is told by the regions and by what
their types are in the source. -/
theorem encode_outcome (source : Scope) (regions : List Region) (s : Interner)
    (reachable : s.Reachable) (room : (encode source regions).Fits s) :
    Outcome source regions s (encode source regions s) where
  none hnil := by
    rw [hnil]
    rfl
  written bytes hbytes hne :=
    ⟨layoutFor regions, layoutFor_eq_thin_iff_fitThin,
      written_of_encode reachable hne (Prod.ext hbytes rfl)⟩
  fails := exists_error_iff reachable room
  refused _ := encode_error_iff reachable room
  unlooked many := by rw [encode_of_tooMany many]

/-- A scope that knows one type. -/
def oneType : Scope :=
  TokenTable.toScope ⟨[(⟨0x01000005⟩, .type ⟨⟨77⟩, "Failure", false, false⟩)], [], []⟩

/-- The second of two regions is too long for a thin clause, so both are
fat. Behind a region with an unknown type, one without a type is not looked
at. -/
theorem encode_outcome_longHandler :
    (∃ bytes, (encode oneType [.catching 0 8 8 3 ⟨0x01000005⟩,
        .ofFlags .finallyFlag 0 12 12 0x100] .empty).1 = .ok bytes ∧ bytes.length = 52) ∧
      Refusal oneType [.catching 0 8 8 3 ⟨0x01000006⟩, .catching 0 8 8 3 .null]
        (.unresolvedToken ⟨0x01000006⟩) := by
  constructor
  · have houtcome := encode_outcome oneType [.catching 0 8 8 3 ⟨0x01000005⟩,
      .ofFlags .finallyFlag 0 12 12 0x100] .empty (.refl _) ((grows_encode _ _).fits (by decide))
    obtain ⟨layout, hthin, hwritten⟩ := houtcome.written _ rfl (List.cons_ne_nil _ _)
    refine ⟨_, rfl, ?_⟩
    cases layout with
    | thin => exact absurd ((hthin.mp rfl).lengths _ (.tail _ (.head _))).2 (by decide)
    | fat => exact hwritten.length
  · exact ((encode_outcome oneType [.catching 0 8 8 3 ⟨0x01000006⟩, .catching 0 8 8 3 .null]
      .empty (.refl _) ((grows_encode _ _).fits (by decide))).refused _).mp rfl

end Section

end Reroute
