import Reroute.Proofs.Robustness
/-!
# Chains of sections

Sections that each announce another are read one after the other from a place
divisible by four, and what stands behind them decides what becomes of the
chain (`Section.Continued`): a section that announces none ends it, and so
does a byte that starts no section of regions, but a section whose header
announces a wrong size makes all of it fail. A section says itself how long
it is, so there is one way only to cut bytes into sections
(`Section.Raw.append_inj`), and no other reading of the bytes can come to
another end.
-/

namespace Reroute

namespace Section

open Bytes (numberAt)

/-! ## Cutting bytes into sections -/

/-- The size in the header that the bytes of a section start with. -/
def announcedSize (flags : UInt8) (bytes : Bytes) : Nat :=
  numberAt bytes 1 (layoutOf flags).sizeWidth

/-- What can be wrong with the size of a section of regions. The bytes include
the flags. -/
inductive Broken (flags : UInt8) (bytes : Bytes) : Prop where
  | small (h : announcedSize flags bytes < headerSize)
  | uneven (h : (announcedSize flags bytes - headerSize) % (layoutOf flags).clauseSize ≠ 0)
  | long (h : bytes.length < announcedSize flags bytes)
  | cut (h : bytes.length < headerSize)

namespace Raw

variable (sec : Raw)

theorem not_broken (rest : Bytes) : ¬Broken sec.flags (sec.bytes ++ rest) := by
  have hannounced : announcedSize sec.flags (sec.bytes ++ rest) = sec.size :=
    sec.numberAt_size rest
  have hsize := sec.size_eq
  have hlength : sec.size ≤ (sec.bytes ++ rest).length := by
    rw [List.length_append, sec.length_bytes]
    exact Nat.le_add_right ..
  rintro (hsmall | huneven | hlong | hcut)
  · omega
  · rw [hannounced, hsize, Nat.add_sub_cancel_left, Nat.mul_mod_left] at huneven
    exact huneven rfl
  · omega
  · omega

/-- Bytes start with one section at most. -/
theorem append_inj {sec sec' : Raw} {rest rest' : Bytes}
    (h : sec.bytes ++ rest = sec'.bytes ++ rest') : sec.flags = sec'.flags ∧ rest = rest' := by
  have hflags : sec.flags = sec'.flags := (List.cons.inj h).1
  have hsize : sec.size = sec'.size := by
    rw [← sec.numberAt_size rest, h, hflags, sec'.numberAt_size rest']
  rw [← sec.length_bytes, ← sec'.length_bytes] at hsize
  exact ⟨hflags, (List.append_inj h hsize).2⟩

end Raw

namespace Chain

variable {front : List Raw} {bytes rest : Bytes} {regions : List Region}

/-- Sections that announce another go in front of a chain. -/
theorem behind (hmore : ∀ sec ∈ front, sec.more = true) (h : Chain bytes regions) :
    Chain (front.flatMap Raw.bytes ++ bytes) (front.flatMap Raw.regions ++ regions) := by
  induction front with
  | nil => exact h
  | cons first front ih =>
    obtain ⟨hfirst, hrest⟩ := List.forall_mem_cons.mp hmore
    rw [List.flatMap_cons, List.flatMap_cons, List.append_assoc, List.append_assoc]
    exact .more first hfirst (ih hrest)

/-- There is no chain through a broken section. -/
theorem not_prefix_of_broken (hmore : ∀ sec ∈ front, sec.more = true) {flags : UInt8}
    (isTable : flags &&& tableFlag ≠ 0) (hbroken : Broken flags (flags :: rest))
    (h : Chain bytes regions) : ¬bytes <+: front.flatMap Raw.bytes ++ flags :: rest := by
  rintro ⟨behind, hsame⟩
  induction front generalizing bytes regions with
  | nil =>
    have hsection {sec : Raw} {tail : Bytes} (h : sec.bytes ++ tail = flags :: rest) : False := by
      obtain rfl : sec.flags = flags := (List.cons.inj h).1
      exact sec.not_broken tail (h ▸ hbroken)
    cases h with
    | last sec ends => exact hsection hsame
    | other flags' noTable => exact isTable ((List.cons.inj hsame).1 ▸ noTable)
    | more sec goesOn behind => exact hsection ((List.append_assoc ..).symm.trans hsame)
  | cons first front ih =>
    obtain ⟨hfirst, hfront⟩ := List.forall_mem_cons.mp hmore
    rw [List.flatMap_cons, List.append_assoc] at hsame
    cases h with
    | last sec ends =>
      -- The sections have the same flags, but only the first of the front announces another.
      obtain ⟨hflags, -⟩ := Raw.append_inj hsame
      rw [Raw.more, hflags, ← Raw.more, hfirst] at ends
      cases ends
    | other flags' noTable => exact first.isTable ((List.cons.inj hsame).1 ▸ noTable)
    | more sec goesOn behind =>
      rw [List.append_assoc] at hsame
      exact ih hfront behind (Raw.append_inj hsame).2

end Chain

/-! ## Reading on -/

/-- What becomes of a chain at a cursor behind whose front `rest` follows. -/
structure Continued (c : Cursor) (front : List Raw) (rest : Bytes) : Prop where
  last : ∀ (sec : Raw) (tail : Bytes), sec.more = false → rest = sec.bytes ++ tail →
    ∃ c', readChain c = (.ok (front.flatMap Raw.regions ++ sec.regions), c') ∧
      c.Passes (front.flatMap Raw.bytes ++ sec.bytes) c'
  other : ∀ (flags : UInt8) (tail : Bytes), flags &&& tableFlag = 0 → rest = flags :: tail →
    ∃ c', readChain c = (.ok (front.flatMap Raw.regions), c') ∧
      c.Passes (front.flatMap Raw.bytes ++ [flags]) c'
  broken : ∀ (flags : UInt8) (tail : Bytes), flags &&& tableFlag ≠ 0 → rest = flags :: tail →
    Broken flags rest → ∃ e c', readChain c = (.error e, c') ∧ e.isMalformed

theorem exists_readChain_of_chain {c : Cursor} {bytes tail : Bytes} {regions : List Region}
    (haligned : c.position % 4 = 0) (hchain : Chain bytes regions)
    (hahead : c.ahead = bytes ++ tail) :
    ∃ c', readChain c = (.ok regions, c') ∧ c.Passes bytes c' := by
  obtain ⟨c', hpass, -⟩ := Cursor.exists_passes hahead
  exact ⟨c', readChain_eq_ok_iff.mpr ⟨[], bytes, padding_of_aligned haligned, hchain, hpass⟩, hpass⟩

/-- **Chains are read as they are laid out.** From a place divisible by four,
sections that each announce another are followed by the last one, by what is
no section of regions or by a broken one, and the regions of all of them are
found in order, those up to there, or none. -/
theorem readChain_continued {c : Cursor} {front : List Raw} {rest : Bytes}
    (hmore : ∀ sec ∈ front, sec.more = true) (haligned : c.position % 4 = 0)
    (hahead : c.ahead = front.flatMap Raw.bytes ++ rest) : Continued c front rest where
  last := by
    rintro sec tail hends rfl
    rw [← List.append_assoc] at hahead
    exact exists_readChain_of_chain haligned (Chain.behind hmore (.last sec hends)) hahead
  other := by
    rintro flags tail hnone rfl
    have hchain := Chain.behind hmore (.other flags hnone)
    rw [List.append_nil] at hchain
    have hahead' : c.ahead = front.flatMap Raw.bytes ++ [flags] ++ tail := by simp [hahead]
    exact exists_readChain_of_chain haligned hchain hahead'
  broken := by
    rintro flags tail hflags rfl hbroken
    rcases hrun : readChain c with ⟨answer, c'⟩
    cases answer with
    | error e => exact ⟨e, c', rfl, onlyMalformed_readChain c e c' hrun⟩
    | ok regions =>
      obtain ⟨bytes, hchain, hfront⟩ :=
        (exists_readChain_iff (padding_of_aligned haligned) hahead).mp ⟨c', hrun⟩
      exact absurd hfront (hchain.not_prefix_of_broken hmore hflags hbroken)

/-- A fat section that announces another. Bits of its flags and of those of its
clause are set that have no meaning. -/
def announcing : Raw where
  flags := 0xD9
  reserved := []
  clauses := [[0x0A, 0, 1, 0, 0, 0, 0, 0, 4, 0, 0, 0, 8, 0, 0, 0, 4, 0, 0, 0, 9, 9, 9, 9]]
  isTable := by decide
  reservedLength := by decide
  clauseLength := by decide
  sizeFits := by decide

/-- A thin section that is the last. -/
def closing : Raw where
  flags := 0x01
  reserved := [7, 8]
  clauses := [[0, 0, 1, 0, 2, 12, 0, 3, 5, 0, 0, 2]]
  isTable := by decide
  reservedLength := by decide
  clauseLength := by decide
  sizeFits := by decide

/-- Four bytes, the two sections, and more. -/
def twoSections : Bytes := [1, 2, 3, 4] ++ (announcing.bytes ++ (closing.bytes ++ [0xFF, 0xFF]))

theorem readChain_twoSections :
    ∃ c', readChain ⟨twoSections, 4, by decide⟩ =
        (.ok [.ofFlags .finallyFlag 0 4 8 4, .catching 1 2 12 3 ⟨0x02000005⟩], c') ∧
      c'.position = 48 := by
  have hmore : ∀ sec ∈ [announcing], sec.more = true := by decide
  have hahead : (⟨twoSections, 4, by decide⟩ : Cursor).ahead =
      [announcing].flatMap Raw.bytes ++ (closing.bytes ++ [0xFF, 0xFF]) := by decide
  obtain ⟨c', hread, hpass⟩ :=
    (readChain_continued hmore rfl hahead).last closing [0xFF, 0xFF] (by decide) rfl
  exact ⟨c', hread, hpass.position⟩

end Section

end Reroute
