import Reroute.Proofs.RegionNaming
/-!
# What is read back from a section

A section on its own is read back as the regions that it was written from,
each with its fields, less what has no place in a clause: bits of the flags
without a meaning, and of the caught type and the filter the one that is not
of the region's kind. A caught type comes back as the token that the scope
of the clone has for it (`Region.Restored`).
-/

namespace Reroute

namespace Region

/-- A region and what is read back for it from a section that was written
in the scope `s`. -/
structure Restored (source : Scope) (s : Interner) (r found : Region) : Prop where
  kind : found.kind = r.kind
  flags : found.flags = .defined r.flags.bits
  tryOffset : found.tryOffset = r.tryOffset
  tryLength : found.tryLength = r.tryLength
  handlerOffset : found.handlerOffset = r.handlerOffset
  handlerLength : found.handlerLength = r.handlerLength
  catchType : r.kind = .catchClause → ∃ t t', r.catchType = some t ∧ t ≠ .null ∧
    Interning.resolve source .type t s = (.ok t', s) ∧ found.catchType = some t'
  noCatchType : r.kind ≠ .catchClause → found.catchType = none
  filterOffset : r.kind = .filterClause → found.filterOffset = r.filterOffset
  noFilterOffset : r.kind ≠ .filterClause → found.filterOffset = 0

variable {source : Scope} {s s' : Interner} {r : Region} {k : Clause}

theorem trailer_of_catch {v : UInt32} (hkind : r.kind = .catchClause)
    (h : r.trailer source s = (.ok v, s')) :
    ∃ t t', r.catchType = some t ∧ t ≠ .null ∧
      Interning.resolve source .type t s = (.ok t', s') ∧ t'.value = v := by
  rcases trailer_catchClause source hkind with ⟨t, hasType, named, hrun⟩ | ⟨e, -, hrun⟩
  · simp only [hrun, bind_eq_ok_iff, pure_eq_ok_iff] at h
    obtain ⟨t', _, hresolve, hvalue, rfl⟩ := h
    exact ⟨t, t', hasType, named, hresolve, hvalue⟩
  · rw [hrun] at h
    cases h

theorem restored_of_toClause (h : r.toClause source s = (.ok k, s)) :
    r.Restored source s k.defined.toRegion := by
  obtain ⟨v, htrailer, rfl⟩ := exists_ofRegion_of_toClause h
  have hkind : (Clause.ofRegion r v).defined.toRegion.kind = r.kind :=
    kind_defined (Clause.ofRegion r v).defined.toRegion_flags
  obtain ⟨htryOffset, htryLength, hhandlerOffset, hhandlerLength⟩ :=
    (Clause.ofRegion r v).defined.toRegion_places
  refine ⟨hkind, Clause.toRegion_flags _, htryOffset, htryLength, hhandlerOffset,
    hhandlerLength, ?_, ?_, ?_, ?_⟩
  · intro hcatch
    obtain ⟨t, t', hasType, named, hresolve, rfl⟩ := trailer_of_catch hcatch htrailer
    exact ⟨t, t', hasType, named, hresolve, Clause.toRegion_catchType (hkind.trans hcatch)⟩
  · intro hcatch
    exact Clause.toRegion_catchType_eq_none (hkind ▸ hcatch)
  · intro hfilter
    rw [trailer, hfilter] at htrailer
    obtain ⟨rfl, -⟩ := pure_eq_ok_iff.mp htrailer
    exact Clause.toRegion_filterOffset (hkind.trans hfilter)
  · intro hfilter
    exact Clause.toRegion_filterOffset_eq_zero (hkind ▸ hfilter)

end Region

namespace Section

/-- **Sections are read back.** A section that was written for regions is
read to its end, and there is one region for each, in their order, which
restores it. -/
theorem restored_of_encode {source : Scope} {regions : List Region} {s s' : Interner}
    {bytes : Bytes} (written : encode source regions s = (.ok bytes, s')) (filled : bytes ≠ []) :
    ∃ found c, readChain.runOn bytes = (.ok found, c) ∧ c.position = bytes.length ∧
      List.Forall₂ (Region.Restored source s') regions found := by
  rcases exists_clauses_of_encode written with
    ⟨-, hnil⟩ | ⟨-, clauses, hclauses, hbytes, hsize, hfits⟩
  · exact absurd hnil filled
  · obtain ⟨c, hpass, hposition⟩ := Cursor.exists_passes_start bytes
    have hpadding : ([] : Bytes).length = (Cursor.start bytes).padding 4 :=
      (Cursor.padding_start bytes 4).symm
    subst hbytes
    refine ⟨_, c, readChain_eq_ok hpadding hfits hsize hpass, hposition, ?_⟩
    rw [List.forall₂_map_right_iff]
    exact (clauses_of_mapM hclauses).2.imp fun r k hk => Region.restored_of_toClause hk

/-- A catch clause and a filter clause with bits in its flags that mean
nothing, whose handler is too long for the thin layout. -/
def caughtAndFiltered : List Region :=
  [.catching 0 8 8 3 ⟨0x02000005⟩, { Region.filtering 0 8 20 300 12 with flags := ⟨0x8009⟩ }]

/-- A scope with one type. -/
def failureScope : Scope :=
  TokenTable.toScope ⟨[(⟨0x02000005⟩, .type ⟨⟨7⟩, "Failure", false, false⟩)], [], []⟩

theorem restored_of_encode_caughtAndFiltered :
    ∃ bytes s', encode failureScope caughtAndFiltered .empty = (.ok bytes, s') ∧ bytes ≠ [] ∧
      ∃ found c, readChain.runOn bytes = (.ok found, c) ∧ c.position = bytes.length ∧
        List.Forall₂ (Region.Restored failureScope s') caughtAndFiltered found := by
  obtain ⟨bytes, s', written, filled⟩ : ∃ bytes s',
      encode failureScope caughtAndFiltered .empty = (.ok bytes, s') ∧ bytes ≠ [] :=
    ⟨_, _, rfl, List.cons_ne_nil _ _⟩
  exact ⟨bytes, s', written, filled, restored_of_encode written filled⟩

end Section

end Reroute
