import Reroute.Proofs.SectionGrammar
import Reroute.Proofs.Settling
/-!
# Regions whose types are named anew

A clone stores the regions of its original with the types that they catch
named in its own scope. A region can be stored unless it is a catch clause
without a type, or with one that the source does not resolve
(`Region.Storable`), and regions can be if each can and a section has room
for them all (`Section.Storable`). What is read back from the section are
the same regions with their types renamed (`Region.Cloned`).
-/

namespace Reroute

namespace Region

/-- A catch clause has a type, and the source knows it. -/
def Storable (source : Scope) (r : Region) : Prop :=
  r.kind = .catchClause →
    ∃ t entry, r.catchType = some t ∧ t ≠ .null ∧ source.entry .type t = .ok entry

/-- What keeps a region from being stored. -/
inductive Fault (source : Scope) (r : Region) : Error → Prop where
  | untyped (kind : r.kind = .catchClause) (noType : ∀ t, r.catchType = some t → t = .null) :
      Fault source r (.invalidExceptionData
        ("catch clause at " ++ Text.label r.handlerOffset.toNat ++ " has no exception type"))
  | unresolved {t : Token} {e : Error} (kind : r.kind = .catchClause)
      (hasType : r.catchType = some t) (named : t ≠ .null)
      (fails : source.entry .type t = .error e) : Fault source r e

/-- The last field of a region's clause in a scope. -/
inductive Trailer (source : Scope) (s : Interner) (r : Region) : UInt32 → Prop where
  | caught {t t' : Token} (kind : r.kind = .catchClause) (hasType : r.catchType = some t)
      (named : t ≠ .null) (renames : source.Renames s .type t t') : Trailer source s r t'.value
  | filter (kind : r.kind = .filterClause) : Trailer source s r r.filterOffset
  | nothing (kind : r.kind = .finallyClause ∨ r.kind = .faultClause) : Trailer source s r 0

/-- A region and the clause that it is stored as. -/
def StoredAs (source : Scope) (s : Interner) (r : Region) (k : Clause) : Prop :=
  ∃ trailer, r.Trailer source s trailer ∧ Clause.ofRegion r trailer = k

/-- A region and the one that takes its place in a clone. -/
structure Cloned (source : Scope) (s : Interner) (r found : Region) : Prop where
  kind : found.kind = r.kind
  tryOffset : found.tryOffset = r.tryOffset
  tryLength : found.tryLength = r.tryLength
  handlerOffset : found.handlerOffset = r.handlerOffset
  handlerLength : found.handlerLength = r.handlerLength
  filterOffset : r.kind = .filterClause → found.filterOffset = r.filterOffset
  catchType : r.kind = .catchClause → ∃ t t' entry, r.catchType = some t ∧
    found.catchType = some t' ∧ source.entry .type t = .ok entry ∧ s.get? t' = some entry

variable {source : Scope} {s s' : Interner} {r : Region} {k : Clause} {v : UInt32} {e : Error}

theorem Fault.not_storable (h : r.Fault source e) : ¬r.Storable source := by
  intro hstorable
  cases h with
  | untyped kind noType =>
      obtain ⟨t, entry, hasType, named, -⟩ := hstorable kind
      exact named (noType t hasType)
  | unresolved kind hasType named fails =>
      obtain ⟨t', entry, hasType', -, meant⟩ := hstorable kind
      cases hasType.symm.trans hasType'
      rw [fails] at meant
      cases meant

theorem Trailer.storable (h : r.Trailer source s v) : r.Storable source := by
  intro hkind
  cases h with
  | caught _ hasType named renames =>
      cases renames with
      | null => exact absurd rfl named
      | entry _ meant _ => exact ⟨_, _, hasType, named, meant⟩
  | filter kind =>
      rw [kind] at hkind
      cases hkind
  | nothing kind =>
      rw [hkind] at kind
      rcases kind with kind | kind <;> cases kind

theorem Cloned.later {found : Region} (h : r.Cloned source s found) (hlater : s.Later s') :
    r.Cloned source s' found := by
  refine ⟨h.kind, h.tryOffset, h.tryLength, h.handlerOffset, h.handlerLength, h.filterOffset, ?_⟩
  intro hcatch
  obtain ⟨t, t', entry, hasType, hasType', meant, hget⟩ := h.catchType hcatch
  exact ⟨t, t', entry, hasType, hasType', meant, hlater.get?_eq_some hget⟩

/-! ## The last field -/

/-- A catch clause has its type named anew or is at fault. -/
theorem trailer_catchClause (source : Scope) (hkind : r.kind = .catchClause) :
    (∃ t, r.catchType = some t ∧ t ≠ .null ∧
      r.trailer source = Interning.resolve source .type t >>= fun t' => pure t'.value) ∨
    ∃ e, r.Fault source e ∧ r.trailer source = Interning.ofExcept (.error e) := by
  by_cases htyped : ∃ t, r.catchType = some t ∧ t ≠ .null
  · obtain ⟨t, hasType, named⟩ := htyped
    refine Or.inl ⟨t, hasType, named, ?_⟩
    have hnull : ¬t.isNull = true := by
      rw [Token.isNull_eq_true_iff]
      exact named
    rw [trailer, hkind, hasType]
    exact if_neg hnull
  · have noType : ∀ t, r.catchType = some t → t = .null := by
      intro t hasType
      by_contra named
      exact htyped ⟨t, hasType, named⟩
    refine Or.inr ⟨_, .untyped hkind noType, ?_⟩
    rw [trailer, hkind]
    cases hasType : r.catchType with
    | none => rfl
    | some t =>
        rw [noType t hasType]
        rfl

/-- All other clauses have a last field that the scope has no part in. -/
theorem trailer_cases (source : Scope) (r : Region) :
    (∃ t, r.kind = .catchClause ∧ r.catchType = some t ∧ t ≠ .null ∧
      r.trailer source = Interning.resolve source .type t >>= fun t' => pure t'.value) ∨
    (∃ e, r.Fault source e ∧ r.trailer source = Interning.ofExcept (.error e)) ∨
    ∃ v, (∀ s, r.Trailer source s v) ∧ r.trailer source = pure v := by
  cases hkind : r.kind with
  | filterClause => exact Or.inr (Or.inr ⟨_, fun s => .filter hkind, by rw [trailer, hkind]⟩)
  | finallyClause =>
      exact Or.inr (Or.inr ⟨_, fun s => .nothing (Or.inl hkind), by rw [trailer, hkind]⟩)
  | faultClause =>
      exact Or.inr (Or.inr ⟨_, fun s => .nothing (Or.inr hkind), by rw [trailer, hkind]⟩)
  | catchClause =>
      rcases trailer_catchClause source hkind with ⟨t, hasType, named, hrun⟩ | hfault
      · exact Or.inl ⟨t, rfl, hasType, named, hrun⟩
      · exact Or.inr (Or.inl hfault)

theorem grows_toClause (source : Scope) (r : Region) :
    Interning.Grows (r.toClause source) 1 := by
  have htrailer : Interning.Grows (r.trailer source) 1 := by
    rcases r.trailer_cases source with ⟨t, -, -, -, hrun⟩ | ⟨e, -, hrun⟩ | ⟨v, -, hrun⟩
    · rw [hrun]
      exact (Interning.grows_resolve source .type t).bind fun t' => .pure _
    · rw [hrun]
      exact (Interning.Grows.ofExcept _).mono (Nat.zero_le 1)
    · rw [hrun]
      exact (Interning.Grows.pure v).mono (Nat.zero_le 1)
  exact htrailer.bind fun v => .pure _

theorem settles_toClause (source : Scope) (r : Region) :
    Interning.Settles (r.toClause source) := by
  have htrailer : Interning.Settles (r.trailer source) := by
    rcases r.trailer_cases source with ⟨t, -, -, -, hrun⟩ | ⟨e, -, hrun⟩ | ⟨v, -, hrun⟩
    · rw [hrun]
      exact (Interning.Settles.resolve source .type t).bind (fun t' => .pure _) fun t' => .pure _
    · rw [hrun]
      exact .ofExcept _
    · rw [hrun]
      exact .pure v
  exact htrailer.bind (fun v => .pure _) fun v => .pure _

theorem exists_ofRegion_of_toClause (h : r.toClause source s = (.ok k, s')) :
    ∃ v, r.trailer source s = (.ok v, s') ∧ Clause.ofRegion r v = k := by
  rw [toClause, bind_eq_ok_iff] at h
  obtain ⟨v, s₁, htrailer, hpure⟩ := h
  obtain ⟨hk, rfl⟩ := pure_eq_ok_iff.mp hpure
  exact ⟨v, htrailer, hk⟩

theorem storedAs_of_toClause (hs : s.Reachable) (h : r.toClause source s = (.ok k, s')) :
    r.StoredAs source s' k := by
  obtain ⟨v, htrailer, hk⟩ := exists_ofRegion_of_toClause h
  refine ⟨v, ?_, hk⟩
  rcases r.trailer_cases source with ⟨t, kind, hasType, named, hrun⟩ | ⟨e, -, hrun⟩ | ⟨v, hv, hrun⟩
  · rw [hrun, bind_eq_ok_iff] at htrailer
    obtain ⟨t', s₂, hresolve, hvalue⟩ := htrailer
    obtain ⟨rfl, rfl⟩ := pure_eq_ok_iff.mp hvalue
    exact .caught kind hasType named (Interning.renames_of_resolve hs hresolve)
  · rw [hrun] at htrailer
    cases (Interning.ofExcept_eq_ok_iff.mp htrailer).1
  · rw [hrun] at htrailer
    obtain ⟨rfl, -⟩ := pure_eq_ok_iff.mp htrailer
    exact hv _

theorem fault_of_toClause (hs : s.Reachable) (room : s'.size ≤ Token.maxRow)
    (h : r.toClause source s = (.error e, s')) : r.Fault source e := by
  rw [toClause, bind_eq_error_iff] at h
  rcases h with htrailer | ⟨v, s₁, -, hpure⟩
  · rcases r.trailer_cases source with
      ⟨t, kind, hasType, named, hrun⟩ | ⟨e', hfault, hrun⟩ | ⟨v, -, hrun⟩
    · rw [hrun, bind_eq_error_iff] at htrailer
      rcases htrailer with hresolve | ⟨t', s₁, -, hvalue⟩
      · exact .unresolved kind hasType named (Interning.entry_of_resolve_error hs room hresolve).2
      · exact absurd hvalue pure_ne_error
    · rw [hrun] at htrailer
      cases (Interning.ofExcept_eq_error_iff.mp htrailer).1
      exact hfault
    · rw [hrun] at htrailer
      exact absurd htrailer pure_ne_error
  · exact absurd hpure pure_ne_error

/-! ## Reading a region back -/

/-- What a stored region is read back as takes its place. -/
theorem StoredAs.cloned (h : r.StoredAs source s k) : r.Cloned source s k.defined.toRegion := by
  obtain ⟨v, htrailer, rfl⟩ := h
  obtain ⟨htryOffset, htryLength, hhandlerOffset, hhandlerLength⟩ :=
    (Clause.ofRegion r v).defined.toRegion_places
  have hkind : (Clause.ofRegion r v).defined.toRegion.kind = r.kind :=
    kind_defined (Clause.ofRegion r v).defined.toRegion_flags
  refine ⟨hkind, htryOffset, htryLength, hhandlerOffset, hhandlerLength, ?_, ?_⟩
  · intro hfilter
    rw [Clause.toRegion_filterOffset (hkind.trans hfilter)]
    cases htrailer with
    | filter => rfl
    | caught kind =>
        rw [hfilter] at kind
        cases kind
    | nothing kind =>
        rw [hfilter] at kind
        rcases kind with kind | kind <;> cases kind
  · intro hcatch
    have htype := Clause.toRegion_catchType (hkind.trans hcatch)
    cases htrailer with
    | @caught t t' _ hasType named renames =>
        cases renames with
        | null => exact absurd rfl named
        | @entry _ _ entry _ meant found => exact ⟨t, t', entry, hasType, htype, meant, found⟩
    | filter kind =>
        rw [hcatch] at kind
        cases kind
    | nothing kind =>
        rw [hcatch] at kind
        rcases kind with kind | kind <;> cases kind

theorem StoredAs.storable (h : r.StoredAs source s k) : r.Storable source := by
  obtain ⟨v, htrailer, -⟩ := h
  exact htrailer.storable

theorem requiresFat_eq_false_iff :
    r.requiresFat = false ↔ (r.tryOffset.toNat ≤ 0xFFFF ∧ r.handlerOffset.toNat ≤ 0xFFFF) ∧
      r.tryLength.toNat ≤ 0xFF ∧ r.handlerLength.toNat ≤ 0xFF := by
  simp only [requiresFat, Bool.or_eq_false_iff, decide_eq_false_iff_not,
    UInt32.lt_iff_toNat_lt, Nat.not_lt, and_assoc]
  exact Iff.rfl

/-- A region that does not require the fat layout fits the thin one. -/
theorem fits_thin_ofRegion (v : UInt32) (hthin : r.requiresFat = false) :
    (Clause.ofRegion r v).Fits .thin := by
  intro _
  obtain ⟨⟨htryOffset, hhandlerOffset⟩, htryLength, hhandlerLength⟩ :=
    requiresFat_eq_false_iff.mp hthin
  exact ⟨htryOffset, htryLength, hhandlerOffset, hhandlerLength⟩

end Region

/-! ## A section -/

namespace Section

/-- Regions that a section can store. -/
structure Storable (source : Scope) (regions : List Region) : Prop where
  fits : (layoutFor regions).sectionSize regions.length ≤ (layoutFor regions).maxSize
  regions : ∀ r ∈ regions, r.Storable source

variable {source : Scope} {s s' : Interner} {regions : List Region} {bytes : Bytes} {e : Error}

theorem grows_mapM_toClause (source : Scope) (regions : List Region) :
    Interning.Grows (regions.mapM (Region.toClause source)) regions.length := by
  induction regions with
  | nil => exact .pure []
  | cons r rest ih =>
      rw [List.mapM_cons, List.length_cons, Nat.add_comm]
      exact (Region.grows_toClause source r).bind fun k => ih.bind fun clauses => .pure _

theorem clauses_of_mapM {clauses : List Clause}
    (h : regions.mapM (Region.toClause source) s = (.ok clauses, s')) :
    s.Later s' ∧ List.Forall₂ (fun r k => r.toClause source s' = (.ok k, s')) regions clauses :=
  Interning.forall₂_of_mapM (Region.settles_toClause source) (Region.grows_toClause source) h

theorem storedAs_of_mapM {clauses : List Clause} (hs : s.Reachable)
    (h : regions.mapM (Region.toClause source) s = (.ok clauses, s')) :
    List.Forall₂ (Region.StoredAs source s') regions clauses := by
  obtain ⟨hlater, hclauses⟩ := clauses_of_mapM h
  exact hclauses.imp fun r k hk => Region.storedAs_of_toClause (hs.trans hlater) hk

/-- The error of the first region that cannot be stored. -/
inductive FirstFault (source : Scope) : List Region → Error → Prop where
  | here {r : Region} {e : Error} (rest : List Region) (fault : r.Fault source e) :
      FirstFault source (r :: rest) e
  | later {r : Region} {rest : List Region} {e : Error} (storable : r.Storable source)
      (behind : FirstFault source rest e) : FirstFault source (r :: rest) e

theorem FirstFault.exists_fault (h : FirstFault source regions e) :
    ∃ r ∈ regions, r.Fault source e := by
  induction h with
  | here rest fault => exact ⟨_, List.mem_cons_self .., fault⟩
  | later _ _ ih =>
      obtain ⟨q, hmem, hfault⟩ := ih
      exact ⟨q, List.mem_cons_of_mem _ hmem, hfault⟩

theorem firstFault_of_mapM (hs : s.Reachable) (room : s'.size ≤ Token.maxRow)
    (h : regions.mapM (Region.toClause source) s = (.error e, s')) :
    FirstFault source regions e := by
  induction regions generalizing s with
  | nil => exact absurd h pure_ne_error
  | cons r rest ih =>
      simp only [List.mapM_cons, bind_eq_error_iff, pure_ne_error, and_false, exists_false,
        or_false] at h
      rcases h with hfirst | ⟨k, s₁, hfirst, hrest⟩
      · exact .here rest (Region.fault_of_toClause hs room hfirst)
      · have hs₁ := hs.trans ((Region.grows_toClause source r).later hfirst)
        exact .later (Region.storedAs_of_toClause hs hfirst).storable (ih hs₁ hrest)

theorem layoutFor_eq_thin_iff :
    layoutFor regions = .thin ↔
      Layout.thin.sectionSize regions.length ≤ Layout.thin.maxSize ∧
        ∀ r ∈ regions, r.requiresFat = false := by
  simp [layoutFor]

/-- The layout is chosen so that what is stored fits it. -/
theorem fits_of_toClause {clauses : List Clause}
    (h : List.Forall₂ (fun r k => r.toClause source s = (.ok k, s)) regions clauses) :
    ∀ k ∈ clauses, k.Fits (layoutFor regions) := by
  cases hlayout : layoutFor regions with
  | fat =>
      intro k _ hthin
      cases hthin
  | thin =>
      have hthin := (layoutFor_eq_thin_iff.mp hlayout).2
      clear hlayout
      induction h with
      | nil =>
          intro k hmem
          cases hmem
      | @cons r k rest clauses hfirst _ ih =>
          intro k' hmem
          rcases List.mem_cons.mp hmem with rfl | hmem
          · obtain ⟨v, -, rfl⟩ := Region.exists_ofRegion_of_toClause hfirst
            exact Region.fits_thin_ofRegion v (hthin r (List.mem_cons_self ..))
          · exact ih (fun r' hr' => hthin r' (List.mem_cons_of_mem r hr')) k' hmem

/-- The answer for more regions than a section can hold. -/
def tooMany (count : Nat) : Error :=
  .invalidExceptionData (toString count ++ " regions do not fit a section")

/-- No regions have no section, regions that need too large a section are
refused before they are looked at, and all others get one. -/
theorem encode_cases (source : Scope) (regions : List Region) :
    (regions = [] ∧ encode source regions = pure []) ∨
    (¬(layoutFor regions).sectionSize regions.length ≤ (layoutFor regions).maxSize ∧
      encode source regions = Interning.ofExcept (.error (tooMany regions.length))) ∨
    (layoutFor regions).sectionSize regions.length ≤ (layoutFor regions).maxSize ∧
      encode source regions = regions.mapM (Region.toClause source) >>= fun clauses =>
        pure (header (layoutFor regions) regions.length ++
          encodeClauses (layoutFor regions) clauses) := by
  cases regions with
  | nil => exact Or.inl ⟨rfl, rfl⟩
  | cons r rest =>
      refine Or.inr ?_
      by_cases hlarge : layoutFor (r :: rest) = .fat ∧
          (layoutFor (r :: rest)).maxSize < (layoutFor (r :: rest)).sectionSize (r :: rest).length
      · refine Or.inl ⟨Nat.not_le.mpr hlarge.2, ?_⟩
        rw [encode, if_neg (by simp)]
        exact if_pos hlarge
      · refine Or.inr ⟨?_, ?_⟩
        · cases hlayout : layoutFor (r :: rest) with
          | thin => exact (layoutFor_eq_thin_iff.mp hlayout).1
          | fat =>
              rw [hlayout] at hlarge
              exact Nat.not_lt.mp fun hlt => hlarge ⟨rfl, hlt⟩
        · rw [encode, if_neg (by simp)]
          exact if_neg hlarge

theorem grows_encode (source : Scope) (regions : List Region) :
    Interning.Grows (encode source regions) regions.length := by
  rcases encode_cases source regions with ⟨-, hrun⟩ | ⟨-, hrun⟩ | ⟨-, hrun⟩
  · rw [hrun]
    exact (Interning.Grows.pure []).mono (Nat.zero_le _)
  · rw [hrun]
    exact (Interning.Grows.ofExcept _).mono (Nat.zero_le _)
  · rw [hrun]
    exact (grows_mapM_toClause source regions).bind fun clauses => .pure _

theorem settles_encode (source : Scope) (regions : List Region) :
    Interning.Settles (encode source regions) := by
  rcases encode_cases source regions with ⟨-, hrun⟩ | ⟨-, hrun⟩ | ⟨-, hrun⟩
  · rw [hrun]
    exact .pure []
  · rw [hrun]
    exact .ofExcept _
  · rw [hrun]
    exact (Interning.Settles.mapM (Region.settles_toClause source) (Region.grows_toClause source)
      regions).bind (fun clauses => .pure _) fun clauses => .pure _

/-- A section is written exactly if the regions can be stored in one. -/
theorem encode_ok_iff (hs : s.Reachable) (room : (encode source regions).Fits s) :
    (∃ bytes, (encode source regions s).1 = .ok bytes) ↔ Storable source regions := by
  rcases hrun : encode source regions s with ⟨answer, s'⟩
  rw [Interning.Fits, hrun] at room
  rcases encode_cases source regions with ⟨rfl, -⟩ | ⟨hlarge, hencode⟩ | ⟨hfits, hencode⟩
  · cases hrun
    exact ⟨fun _ => ⟨by decide, fun r hmem => by cases hmem⟩, fun _ => ⟨[], rfl⟩⟩
  · rw [hencode] at hrun
    cases hrun
    constructor
    · rintro ⟨bytes, h⟩
      cases h
    · intro hstorable
      exact absurd hstorable.fits hlarge
  · rw [hencode] at hrun
    constructor
    · rintro ⟨bytes, rfl⟩
      obtain ⟨clauses, s₁, hclauses, hpure⟩ := bind_eq_ok_iff.mp hrun
      obtain ⟨-, rfl⟩ := pure_eq_ok_iff.mp hpure
      have hstored := (storedAs_of_mapM hs hclauses).imp
        fun r k (hk : Region.StoredAs source s₁ r k) => And.intro hk.storable hk
      exact ⟨hfits, ((List.forall₂_and_left _ _).mp hstored).1⟩
    · intro hstorable
      cases answer with
      | ok bytes => exact ⟨bytes, rfl⟩
      | error e =>
          rcases bind_eq_error_iff.mp hrun with hclauses | ⟨clauses, s₁, -, hpure⟩
          · obtain ⟨r, hmem, hfault⟩ := (firstFault_of_mapM hs room hclauses).exists_fault
            exact absurd (hstorable.regions r hmem) hfault.not_storable
          · exact absurd hpure pure_ne_error

/-- A section that was written is a header with the clauses of the regions
behind it, and there is room for them in the layout. -/
theorem exists_clauses_of_encode (h : encode source regions s = (.ok bytes, s')) :
    (regions = [] ∧ bytes = []) ∨ bytes ≠ [] ∧ ∃ clauses,
      regions.mapM (Region.toClause source) s = (.ok clauses, s') ∧
      bytes = header (layoutFor regions) clauses.length ++
        encodeClauses (layoutFor regions) clauses ∧
      (layoutFor regions).sectionSize clauses.length ≤ (layoutFor regions).maxSize ∧
      ∀ k ∈ clauses, k.Fits (layoutFor regions) := by
  rcases encode_cases source regions with ⟨rfl, -⟩ | ⟨-, hencode⟩ | ⟨hfits, hencode⟩
  · cases h
    exact Or.inl ⟨rfl, rfl⟩
  · rw [hencode] at h
    cases h
  · rw [hencode] at h
    obtain ⟨clauses, s₁, hclauses, hpure⟩ := bind_eq_ok_iff.mp h
    obtain ⟨rfl, rfl⟩ := pure_eq_ok_iff.mp hpure
    have hsame := (clauses_of_mapM hclauses).2
    rw [hsame.length_eq] at hfits ⊢
    refine Or.inr ⟨?_, clauses, hclauses, rfl, hfits, fits_of_toClause hsame⟩
    cases layoutFor regions <;> exact List.cons_ne_nil _ _

/-- The section is read back as regions that take the place of those that
were stored, wherever it stands behind its padding. -/
theorem readChain_of_encode (hs : s.Reachable)
    (h : encode source regions s = (.ok bytes, s')) :
    (regions = [] ∧ bytes = []) ∨ bytes ≠ [] ∧
      ∀ {c c' : Cursor} {skipped : Bytes}, skipped.length = c.padding 4 →
        c.Passes (skipped ++ bytes) c' →
        ∃ found, readChain c = (.ok found, c') ∧
          List.Forall₂ (Region.Cloned source s') regions found := by
  rcases exists_clauses_of_encode h with hnone | ⟨hne, clauses, hclauses, rfl, hsize, hfits⟩
  · exact Or.inl hnone
  · refine Or.inr ⟨hne, ?_⟩
    intro c c' skipped hskipped hpass
    refine ⟨_, readChain_eq_ok hskipped hfits hsize hpass, ?_⟩
    rw [List.forall₂_map_right_iff]
    exact (storedAs_of_mapM hs hclauses).imp fun r k hk => hk.cloned

end Section

end Reroute
