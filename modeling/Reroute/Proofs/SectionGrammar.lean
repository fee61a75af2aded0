import Reroute.Proofs.Places
import Reroute.Proofs.SectionForm
/-!
# The grammar of section chains

What readers accept as sections of regions is described here by itself. A
section is its flags, bytes without a meaning and clauses, all of any
content (`Section.Raw`), and a clause is twelve or twenty-four bytes whose
fields have fixed places (`Region.ofBytes`). A `Section.Chain` is sections of
which each but the last announces another, or is cut short by a byte that
starts no section of regions.

The readers accept just these bytes: `Section.readChain_eq_ok_iff` says that a
chain is read exactly if one stands behind the padding, and that the cursor
then is behind it.
-/

namespace Reroute

open Bytes (slice numberAt)

/-! ## Clauses -/

/-- The clause that some bytes store, by the places of its fields. -/
def Clause.ofBytes (layout : Section.Layout) (raw : Bytes) : Clause :=
  match layout with
  | .thin =>
    { flags := .defined (.ofNat (numberAt raw 0 2)), tryOffset := .ofNat (numberAt raw 2 2),
      tryLength := .ofNat (numberAt raw 4 1), handlerOffset := .ofNat (numberAt raw 5 2),
      handlerLength := .ofNat (numberAt raw 7 1), trailer := .ofNat (numberAt raw 8 4) }
  | .fat =>
    { flags := .defined (.ofNat (numberAt raw 0 4)), tryOffset := .ofNat (numberAt raw 4 4),
      tryLength := .ofNat (numberAt raw 8 4), handlerOffset := .ofNat (numberAt raw 12 4),
      handlerLength := .ofNat (numberAt raw 16 4), trailer := .ofNat (numberAt raw 20 4) }

/-- The region of a clause. Its kind says what the last field is: the caught
type, the filter, or nothing that is kept. -/
def Region.ofBytes (layout : Section.Layout) (raw : Bytes) : Region :=
  let k := Clause.ofBytes layout raw
  let kind := (ofFlags k.flags k.tryOffset k.tryLength k.handlerOffset k.handlerLength).kind
  { flags := k.flags, tryOffset := k.tryOffset, tryLength := k.tryLength,
    handlerOffset := k.handlerOffset, handlerLength := k.handlerLength,
    catchType := if kind = .catchClause then some ⟨k.trailer⟩ else none,
    filterOffset := if kind = .filterClause then k.trailer else 0 }

namespace Clause

open Section (Layout)

variable {layout : Layout} {raw : Bytes} {c c' : Cursor}

theorem toRegion_ofBytes (layout : Layout) (raw : Bytes) :
    (ofBytes layout raw).toRegion = Region.ofBytes layout raw := by
  unfold toRegion Region.ofBytes
  dsimp only
  split <;> rename_i hkind <;> rw [hkind] <;> rfl

/-- The clause at a place, by the fields that follow each other there. -/
theorem ofBytes_slice {bytes : Bytes} {place : Nat} :
    ofBytes layout (slice bytes place layout.clauseSize) =
      match layout with
      | .thin =>
        { flags := .defined (.ofNat (numberAt bytes place 2)),
          tryOffset := (UInt16.ofNat (numberAt bytes (place + 2) 2)).toUInt32,
          tryLength := (UInt8.ofNat (numberAt bytes (place + 4) 1)).toUInt32,
          handlerOffset := (UInt16.ofNat (numberAt bytes (place + 5) 2)).toUInt32,
          handlerLength := (UInt8.ofNat (numberAt bytes (place + 7) 1)).toUInt32,
          trailer := .ofNat (numberAt bytes (place + 8) 4) }
      | .fat =>
        { flags := .defined (UInt32.ofNat (numberAt bytes place 4)).toUInt16,
          tryOffset := .ofNat (numberAt bytes (place + 4) 4),
          tryLength := .ofNat (numberAt bytes (place + 8) 4),
          handlerOffset := .ofNat (numberAt bytes (place + 12) 4),
          handlerLength := .ofNat (numberAt bytes (place + 16) 4),
          trailer := .ofNat (numberAt bytes (place + 20) 4) } := by
  have h16 {offset : Nat} : (UInt16.ofNat (numberAt bytes offset 2)).toUInt32 =
      .ofNat (numberAt bytes offset 2) := UInt16.toUInt32_ofNat' Bytes.numberAt_lt
  have h8 {offset : Nat} : (UInt8.ofNat (numberAt bytes offset 1)).toUInt32 =
      .ofNat (numberAt bytes offset 1) := UInt8.toUInt32_ofNat' Bytes.numberAt_lt
  cases layout with
  | thin =>
    simp (disch := decide) only [ofBytes, Layout.clauseSize, Bytes.numberAt_slice, h16, h8,
      Nat.add_zero]
  | fat =>
    simp (disch := decide) only [ofBytes, Layout.clauseSize, Bytes.numberAt_slice,
      UInt32.toUInt16_ofNat', Nat.add_zero]

theorem read_eq_ok_iff_slice {k : Clause} :
    read layout c = (.ok k, c') ↔ ∃ h : c.position + layout.clauseSize ≤ c.data.length,
      k = ofBytes layout (slice c.data c.position layout.clauseSize) ∧
        c' = ⟨c.data, c.position + layout.clauseSize, h⟩ := by
  rw [ofBytes_slice]
  cases layout <;>
    simp only [read, Reader.value_bind_eq_ok_iff, pure_eq_ok_iff, LittleEndian.width, Nat.add_assoc,
      Nat.reduceAdd]
  all_goals
    constructor
    · rintro ⟨_, _, _, _, _, h, rfl, rfl⟩
      exact ⟨h, rfl, rfl⟩
    · rintro ⟨h, rfl, rfl⟩
      simp only [Layout.clauseSize] at h
      exact ⟨by omega, by omega, by omega, by omega, by omega, h, rfl, rfl⟩

/-- A clause is read off any bytes, if there are enough of them. -/
theorem read_eq_ok_iff {k : Clause} :
    read layout c = (.ok k, c') ↔
      ∃ raw, raw.length = layout.clauseSize ∧ k = ofBytes layout raw ∧ c.Passes raw c' := by
  rw [read_eq_ok_iff_slice, Cursor.exists_passes_iff_slice]

end Clause

/-! ## Sections -/

namespace Section

variable {layout : Layout} {c c' : Cursor}

/-- The layout that the flags of a section announce. -/
def layoutOf (flags : UInt8) : Layout := if flags &&& fatFlag = 0 then .thin else .fat

theorem Layout.clauseSize_pos (layout : Layout) : 0 < layout.clauseSize := by
  cases layout <;> decide

/-- A size that passes the checks of a header is that of a section. -/
theorem Layout.sectionSize_div {size : Nat} (hleast : headerSize ≤ size)
    (hmultiple : (size - headerSize) % layout.clauseSize = 0) :
    layout.sectionSize ((size - headerSize) / layout.clauseSize) = size := by
  rw [sectionSize, Nat.div_mul_cancel (Nat.dvd_of_mod_eq_zero hmultiple)]
  exact Nat.add_sub_of_le hleast

/-- A section of regions as it stands in a body, whatever its clauses hold.
The header has room for its size, so a thin one has twenty clauses at most. -/
structure Raw where
  flags : UInt8
  /-- What is between the size and the first clause. -/
  reserved : Bytes
  clauses : List Bytes
  isTable : flags &&& tableFlag ≠ 0
  reservedLength : reserved.length = 3 - (layoutOf flags).sizeWidth
  clauseLength : ∀ raw ∈ clauses, raw.length = (layoutOf flags).clauseSize
  sizeFits : (layoutOf flags).sectionSize clauses.length ≤ (layoutOf flags).maxSize

namespace Raw

/-- Whether the section announces another. -/
def more (sec : Raw) : Bool := sec.flags &&& moreFlag ≠ 0

def size (sec : Raw) : Nat := (layoutOf sec.flags).sectionSize sec.clauses.length

/-- The bytes of a section behind its flags. -/
def behind (sec : Raw) : Bytes :=
  Bytes.ofNat (layoutOf sec.flags).sizeWidth sec.size ++ sec.reserved ++ sec.clauses.flatten

def bytes (sec : Raw) : Bytes := sec.flags :: sec.behind

def regions (sec : Raw) : List Region := sec.clauses.map (Region.ofBytes (layoutOf sec.flags))

variable (sec : Raw)

theorem size_eq :
    sec.size = headerSize + sec.clauses.length * (layoutOf sec.flags).clauseSize := rfl

theorem length_clauses :
    sec.clauses.flatten.length = sec.clauses.length * (layoutOf sec.flags).clauseSize := by
  rw [List.length_flatten, List.map_congr_left sec.clauseLength, List.map_const',
    List.sum_replicate_nat]

theorem length_bytes : sec.bytes.length = sec.size := by
  have hwidth : (layoutOf sec.flags).sizeWidth ≤ 3 := by
    cases layoutOf sec.flags <;> decide
  simp only [bytes, behind, List.length_cons, List.length_append, Bytes.length_ofNat,
    sec.reservedLength, sec.length_clauses, sec.size_eq, headerSize]
  omega

/-- The header holds the size, whatever follows the section. -/
theorem numberAt_size (rest : Bytes) :
    numberAt (sec.bytes ++ rest) 1 (layoutOf sec.flags).sizeWidth = sec.size := by
  have hfield : slice (sec.bytes ++ rest) 1 (layoutOf sec.flags).sizeWidth =
      Bytes.ofNat (layoutOf sec.flags).sizeWidth sec.size := by
    rw [bytes, behind, slice, List.cons_append, List.drop_one, List.tail_cons,
      List.append_assoc, List.append_assoc, List.take_left' (Bytes.length_ofNat ..)]
  have hlt : sec.size < Bytes.count (layoutOf sec.flags).sizeWidth := by
    rw [count_sizeWidth]
    exact Nat.lt_succ_of_le sec.sizeFits
  rw [numberAt, hfield, Bytes.toNat_ofNat, Nat.mod_eq_of_lt hlt]

/-- Behind a section the next one needs no padding. -/
theorem size_mod_four : sec.size % 4 = 0 := by
  rw [sec.size_eq, headerSize]
  cases layoutOf sec.flags <;> simp only [Layout.clauseSize] <;> omega

end Raw

theorem readSize_eq_ok_iff {size : Nat} :
    readSize layout c = (.ok size, c') ↔ size ≤ layout.maxSize ∧
      ∃ reserved : Bytes, reserved.length = 3 - layout.sizeWidth ∧
        c.Passes (Bytes.ofNat layout.sizeWidth size ++ reserved) c' := by
  cases layout with
  | thin =>
    simp only [readSize, bind_eq_ok_iff, Reader.value_eq_ok_iff, toBytes_uint8, pure_eq_ok_iff]
    constructor
    · rintro ⟨byte, c₁, hbyte, _, _, hadvance, rfl, rfl⟩
      obtain ⟨reserved, hreserved, hskip⟩ := Reader.advance_eq_ok_iff.mp hadvance
      refine ⟨Nat.le_of_lt_succ byte.toNat_lt, reserved, hreserved, ?_⟩
      have hfield : Bytes.ofNat 1 byte.toNat = [byte] := Bytes.ofNat_toNat [byte]
      exact hfield ▸ hbyte.trans hskip
    · rintro ⟨hmax, reserved, hreserved, hpass⟩
      obtain ⟨c₁, hfield, hskip⟩ := Cursor.passes_append_iff.mp hpass
      refine ⟨.ofNat size, c₁, hfield, (), c',
        Reader.advance_eq_ok_iff.mpr ⟨reserved, hreserved, hskip⟩, ?_, rfl⟩
      exact UInt8.toNat_ofNat_of_lt' (Nat.lt_succ_of_le hmax)
  | fat =>
    have hlt {taken : Bytes} (h : taken.length = 3) : Bytes.toNat taken < Bytes.count 3 :=
      h ▸ Bytes.toNat_lt taken
    have hsmall {taken : Bytes} (h : taken.length = 3) :
        (UInt32.ofNat (Bytes.toNat taken)).toNat = Bytes.toNat taken :=
      UInt32.toNat_ofNat_of_lt' (Nat.lt_trans (hlt h) (by decide))
    simp only [readSize, bind_eq_ok_iff, Reader.u24_eq_ok_iff, pure_eq_ok_iff]
    constructor
    · rintro ⟨_, _, ⟨taken, htaken, rfl, hpass⟩, rfl, rfl⟩
      rw [hsmall htaken]
      have hfield : Bytes.ofNat 3 (Bytes.toNat taken) = taken := htaken ▸ Bytes.ofNat_toNat taken
      refine ⟨Nat.le_of_lt_succ (hlt htaken), [], rfl, ?_⟩
      rw [List.append_nil, Layout.sizeWidth, hfield]
      exact hpass
    · rintro ⟨hmax, reserved, hreserved, hpass⟩
      have hlength : (Bytes.ofNat 3 size).length = 3 := Bytes.length_ofNat ..
      have hfield : Bytes.toNat (Bytes.ofNat 3 size) = size :=
        (Bytes.toNat_ofNat 3 size).trans (Nat.mod_eq_of_lt (Nat.lt_succ_of_le hmax))
      rw [List.length_eq_zero_iff.mp hreserved, List.append_nil] at hpass
      exact ⟨_, c', ⟨_, hlength, rfl, hpass⟩, (hsmall hlength).trans hfield, rfl⟩

theorem readClauses_eq_ok_iff {count : Nat} {regions : List Region} :
    readClauses layout count c = (.ok regions, c') ↔
      ∃ clauses : List Bytes, clauses.length = count ∧
        (∀ raw ∈ clauses, raw.length = layout.clauseSize) ∧
        regions = clauses.map (Region.ofBytes layout) ∧ c.Passes clauses.flatten c' := by
  induction count generalizing regions c c' with
  | zero =>
    simp only [readClauses, pure_eq_ok_iff, List.length_eq_zero_iff]
    constructor
    · rintro ⟨rfl, rfl⟩
      exact ⟨[], rfl, List.forall_mem_nil _, rfl, Cursor.passes_nil_iff.mpr rfl⟩
    · rintro ⟨_, rfl, -, rfl, hpass⟩
      exact ⟨rfl, (Cursor.passes_nil_iff.mp hpass).symm⟩
  | succ count ih =>
    simp only [readClauses, bind_eq_ok_iff, pure_eq_ok_iff, Clause.read_eq_ok_iff, ih]
    constructor
    · rintro ⟨_, c₁, ⟨raw, hraw, rfl, hfirst⟩, _, _, ⟨clauses, rfl, hall, rfl, hrest⟩, rfl, rfl⟩
      refine ⟨raw :: clauses, rfl, List.forall_mem_cons.mpr ⟨hraw, hall⟩, ?_, hfirst.trans hrest⟩
      rw [List.map_cons, Clause.toRegion_ofBytes]
    · rintro ⟨_ | ⟨raw, clauses⟩, hlength, hall, rfl, hpass⟩
      · cases hlength
      · obtain ⟨hraw, hrest⟩ := List.forall_mem_cons.mp hall
        obtain ⟨c₁, hfirst, hbehind⟩ := Cursor.passes_append_iff.mp hpass
        refine ⟨_, c₁, ⟨raw, hraw, rfl, hfirst⟩, _, c',
          ⟨clauses, Nat.succ.inj hlength, hrest, rfl, hbehind⟩, ?_, rfl⟩
        rw [List.map_cons, Clause.toRegion_ofBytes]

/-- What is read of a section behind the first byte of its header. -/
def readBehind (start : Nat) (flags : UInt8) : Reader (Option (List Region × Bool)) :=
  if flags &&& tableFlag = 0 then return none
  else
    let layout := if flags &&& fatFlag = 0 then Layout.thin else .fat
    readSize layout >>= fun size =>
      if size < headerSize ∨ (size - headerSize) % layout.clauseSize ≠ 0 then
        Reader.fail (.ofDefect (.sectionSize start size))
      else
        Reader.remaining >>= fun remaining =>
          if remaining < size - headerSize then Reader.fail (.ofDefect (.truncatedSection start))
          else
            readClauses layout ((size - headerSize) / layout.clauseSize) >>= fun regions =>
              return some (regions, flags &&& moreFlag ≠ 0)

theorem readOne_eq (start : Nat) : readOne start = Reader.value UInt8 >>= readBehind start := rfl

/-- Behind flags that announce regions stands a section. -/
theorem readBehind_eq_ok_iff {start : Nat} {flags : UInt8} {found : Option (List Region × Bool)}
    (isTable : flags &&& tableFlag ≠ 0) :
    readBehind start flags c = (.ok found, c') ↔
      ∃ sec : Raw, sec.flags = flags ∧ found = some (sec.regions, sec.more) ∧
        c.Passes sec.behind c' := by
  rw [readBehind, if_neg isTable, ← layoutOf, bind_eq_ok_iff]
  constructor
  · rintro ⟨size, c₁, hsize, hrest⟩
    obtain ⟨hmax, reserved, hreserved, hheader⟩ := readSize_eq_ok_iff.mp hsize
    split at hrest
    · exact absurd hrest Reader.fail_ne_ok
    · rename_i hgood
      obtain ⟨remaining, _, hremaining, hclauses⟩ := bind_eq_ok_iff.mp hrest
      obtain ⟨-, rfl⟩ := Reader.remaining_eq_ok_iff.mp hremaining
      split at hclauses
      · exact absurd hclauses Reader.fail_ne_ok
      · obtain ⟨regions, _, hregions, hfound⟩ := bind_eq_ok_iff.mp hclauses
        obtain ⟨rfl, rfl⟩ := pure_eq_ok_iff.mp hfound
        obtain ⟨clauses, hcount, hall, rfl, hpass⟩ := readClauses_eq_ok_iff.mp hregions
        obtain ⟨hleast, hmultiple⟩ := not_or.mp hgood
        have hsection : (layoutOf flags).sectionSize clauses.length = size := by
          rw [hcount]
          exact Layout.sectionSize_div (Nat.not_lt.mp hleast) (Decidable.not_not.mp hmultiple)
        subst hsection
        exact ⟨⟨flags, reserved, clauses, isTable, hreserved, hall, hmax⟩, rfl, rfl,
          hheader.trans hpass⟩
  · rintro ⟨sec, rfl, rfl, hpass⟩
    obtain ⟨c₁, hheader, hclauses⟩ := Cursor.passes_append_iff.mp hpass
    have hleft : sec.size - headerSize =
        sec.clauses.length * (layoutOf sec.flags).clauseSize := by
      rw [sec.size_eq, Nat.add_sub_cancel_left]
    have hroom := hclauses.remaining
    rw [sec.length_clauses] at hroom
    refine ⟨sec.size, c₁, readSize_eq_ok_iff.mpr ⟨sec.sizeFits, _, sec.reservedLength, hheader⟩, ?_⟩
    rw [hleft, Nat.mul_mod_left, if_neg (by
      rintro (hshort | hrest)
      · exact Nat.not_lt.mpr (Nat.le_add_right headerSize _) hshort
      · exact hrest rfl)]
    rw [bind_of_ok (Reader.remaining_eq_ok_iff.mpr ⟨rfl, rfl⟩), if_neg (by omega),
      Nat.mul_div_cancel _ (Layout.clauseSize_pos _), bind_of_ok (readClauses_eq_ok_iff.mpr
        ⟨sec.clauses, rfl, sec.clauseLength, rfl, hclauses⟩)]
    rfl

theorem readOne_eq_ok_iff {start : Nat} {found : Option (List Region × Bool)} :
    readOne start c = (.ok found, c') ↔
      (∃ flags, flags &&& tableFlag = 0 ∧ found = none ∧ c.Passes [flags] c') ∨
        ∃ sec : Raw, found = some (sec.regions, sec.more) ∧ c.Passes sec.bytes c' := by
  rw [readOne_eq, bind_eq_ok_iff]
  simp only [Reader.value_eq_ok_iff, toBytes_uint8]
  constructor
  · rintro ⟨flags, c₁, hflags, hrest⟩
    by_cases hnone : flags &&& tableFlag = 0
    · rw [readBehind, if_pos hnone] at hrest
      obtain ⟨rfl, rfl⟩ := pure_eq_ok_iff.mp hrest
      exact .inl ⟨flags, hnone, rfl, hflags⟩
    · obtain ⟨sec, rfl, hfound, hbehind⟩ := (readBehind_eq_ok_iff hnone).mp hrest
      exact .inr ⟨sec, hfound, hflags.trans hbehind⟩
  · rintro (⟨flags, hnone, rfl, hflags⟩ | ⟨sec, hfound, hpass⟩)
    · refine ⟨flags, c', hflags, ?_⟩
      rw [readBehind, if_pos hnone]
      rfl
    · obtain ⟨c₁, hflags, hbehind⟩ : ∃ c₁, c.Passes [sec.flags] c₁ ∧ c₁.Passes sec.behind c' :=
        Cursor.passes_append_iff.mp hpass
      exact ⟨sec.flags, c₁, hflags,
        (readBehind_eq_ok_iff sec.isTable).mpr ⟨sec, rfl, hfound, hbehind⟩⟩

/-! ## Chains -/

/-- The bytes that a chain takes where it needs no padding, and its regions. -/
inductive Chain : Bytes → List Region → Prop where
  | last (sec : Raw) (ends : sec.more = false) : Chain sec.bytes sec.regions
  | other (flags : UInt8) (noTable : flags &&& tableFlag = 0) : Chain [flags] []
  | more (sec : Raw) (goesOn : sec.more = true) {bytes : Bytes} {regions : List Region}
      (behind : Chain bytes regions) : Chain (sec.bytes ++ bytes) (sec.regions ++ regions)

theorem Chain.ne_nil {bytes : Bytes} {regions : List Region} (h : Chain bytes regions) :
    bytes ≠ [] := by
  cases h <;> exact List.cons_ne_nil _ _

theorem padding_of_aligned (haligned : c.position % 4 = 0) :
    ([] : Bytes).length = c.padding 4 := by
  rw [Cursor.padding, haligned]
  rfl

theorem align_of_aligned (haligned : c.position % 4 = 0) : Reader.align 4 c = (.ok (), c) :=
  Reader.align_eq_ok_iff.mpr ⟨[], padding_of_aligned haligned, Cursor.passes_nil_iff.mpr rfl⟩

/-- The first step of a chain that needs no padding. -/
theorem readMany_of_aligned {count : Nat} (haligned : c.position % 4 = 0) :
    readMany (count + 1) c =
      (readOne c.position >>= fun found =>
        match found with
        | none => pure []
        | some (regions, false) => pure regions
        | some (regions, true) => do return regions ++ (← readMany count)) c := by
  conv => lhs; rw [readMany]
  exact (bind_of_ok (align_of_aligned haligned)).trans
    (bind_of_ok (Reader.position_eq_ok_iff.mpr ⟨rfl, rfl⟩))

namespace Raw

variable (sec : Raw)

theorem aligned (haligned : c.position % 4 = 0) (hpass : c.Passes sec.bytes c') :
    c'.position % 4 = 0 := by
  have hposition := hpass.position
  have hsize := sec.size_mod_four
  rw [sec.length_bytes] at hposition
  omega

theorem remaining_lt (hpass : c.Passes sec.bytes c') : c'.remaining < c.remaining := by
  have hremaining := hpass.remaining
  rw [Raw.bytes, List.length_cons] at hremaining
  omega

theorem readOne_eq_ok {start : Nat} (hpass : c.Passes sec.bytes c') :
    readOne start c = (.ok (some (sec.regions, sec.more)), c') :=
  readOne_eq_ok_iff.mpr (.inr ⟨sec, rfl, hpass⟩)

end Raw

theorem readMany_eq_ok_iff {count : Nat} {regions : List Region} (hcount : c.remaining < count)
    (haligned : c.position % 4 = 0) :
    readMany count c = (.ok regions, c') ↔ ∃ bytes, Chain bytes regions ∧ c.Passes bytes c' := by
  induction count generalizing c regions with
  | zero => exact absurd hcount (Nat.not_lt_zero _)
  | succ count ih =>
    rw [readMany_of_aligned haligned]
    constructor
    · intro h
      obtain ⟨found, c₁, hone, hrest⟩ := bind_eq_ok_iff.mp h
      rcases readOne_eq_ok_iff.mp hone with ⟨flags, hnone, rfl, hpass⟩ | ⟨sec, rfl, hpass⟩
      · obtain ⟨rfl, rfl⟩ := pure_eq_ok_iff.mp hrest
        exact ⟨[flags], .other flags hnone, hpass⟩
      · cases hmore : sec.more with
        | false =>
          rw [hmore] at hrest
          obtain ⟨rfl, rfl⟩ := pure_eq_ok_iff.mp hrest
          exact ⟨sec.bytes, .last sec hmore, hpass⟩
        | true =>
          rw [hmore] at hrest
          obtain ⟨behind, _, hbehind, hregions⟩ := bind_eq_ok_iff.mp hrest
          obtain ⟨rfl, rfl⟩ := pure_eq_ok_iff.mp hregions
          -- A section takes bytes, so one try less is enough for what is behind it.
          have hless := sec.remaining_lt hpass
          obtain ⟨bytes, hchain, hpass'⟩ := (ih (by omega) (sec.aligned haligned hpass)).mp hbehind
          exact ⟨sec.bytes ++ bytes, .more sec hmore hchain, hpass.trans hpass'⟩
    · rintro ⟨bytes, hchain, hpass⟩
      cases hchain with
      | last sec ends => rw [bind_of_ok (sec.readOne_eq_ok hpass), ends]; rfl
      | other flags noTable =>
        rw [bind_of_ok (readOne_eq_ok_iff.mpr (.inl ⟨flags, noTable, rfl, hpass⟩))]
        rfl
      | more sec goesOn behind =>
        obtain ⟨c₁, hfirst, hbehind⟩ := Cursor.passes_append_iff.mp hpass
        have hless := sec.remaining_lt hfirst
        have hmany := (ih (by omega) (sec.aligned haligned hfirst)).mpr ⟨_, behind, hbehind⟩
        rw [bind_of_ok (sec.readOne_eq_ok hfirst), goesOn]
        exact bind_of_ok hmany

/-- Behind the padding there is none, so it makes no difference to a chain
whether the cursor is before or behind it. -/
theorem readMany_behind {skipped : Bytes} (count : Nat) (hskipped : skipped.length = c.padding 4)
    (hpass : c.Passes skipped c') :
    c'.position % 4 = 0 ∧ readMany (count + 1) c = readMany (count + 1) c' := by
  have hposition := hpass.position
  rw [hskipped, Cursor.padding] at hposition
  have haligned : c'.position % 4 = 0 := by omega
  have halign : Reader.align 4 c = (.ok (), c') :=
    Reader.align_eq_ok_iff.mpr ⟨skipped, hskipped, hpass⟩
  refine ⟨haligned, ?_⟩
  rw [readMany, bind_of_ok halign, bind_of_ok (align_of_aligned haligned)]

/-- **Chains are read by their grammar.** Behind the padding, the bytes of a
chain are read, all of them, and nothing else is. -/
theorem readChain_eq_ok_iff {regions : List Region} :
    readChain c = (.ok regions, c') ↔ ∃ skipped bytes, skipped.length = c.padding 4 ∧
      Chain bytes regions ∧ c.Passes (skipped ++ bytes) c' := by
  have hchain : readChain c = (.ok regions, c') ↔
      readMany (c.remaining + 1) c = (.ok regions, c') := by
    show (readMany (c.remaining + 1)).namingDefect _ c = _ ↔ _
    rw [Reader.namingDefect_eq_ok_iff]
  rw [hchain]
  constructor
  · intro h
    obtain ⟨_, c₁, halign, -⟩ := bind_eq_ok_iff.mp h
    obtain ⟨skipped, hskipped, hskip⟩ := Reader.align_eq_ok_iff.mp halign
    obtain ⟨haligned, hsame⟩ := readMany_behind c.remaining hskipped hskip
    have hcount : c₁.remaining < c.remaining + 1 := by
      have hremaining := hskip.remaining
      omega
    rw [hsame, readMany_eq_ok_iff hcount haligned] at h
    obtain ⟨bytes, hbytes, hpass⟩ := h
    exact ⟨skipped, bytes, hskipped, hbytes, hskip.trans hpass⟩
  · rintro ⟨skipped, bytes, hskipped, hbytes, hpass⟩
    obtain ⟨c₁, hskip, hpass⟩ := Cursor.passes_append_iff.mp hpass
    obtain ⟨haligned, hsame⟩ := readMany_behind c.remaining hskipped hskip
    have hcount : c₁.remaining < c.remaining + 1 := by
      have hremaining := hskip.remaining
      omega
    rw [hsame, readMany_eq_ok_iff hcount haligned]
    exact ⟨bytes, hbytes, hpass⟩

/-- Whether there are regions behind the padding is told by the bytes there. -/
theorem exists_readChain_iff {regions : List Region} {skipped rest : Bytes}
    (hskipped : skipped.length = c.padding 4) (hahead : c.ahead = skipped ++ rest) :
    (∃ c', readChain c = (.ok regions, c')) ↔ ∃ bytes, Chain bytes regions ∧ bytes <+: rest := by
  simp only [readChain_eq_ok_iff]
  constructor
  · rintro ⟨c', skipped', bytes, hskipped', hchain, hpass⟩
    have hsame := hahead.symm.trans hpass.ahead
    rw [List.append_assoc] at hsame
    obtain ⟨-, rfl⟩ := List.append_inj hsame (hskipped.trans hskipped'.symm)
    exact ⟨bytes, hchain, List.prefix_append ..⟩
  · rintro ⟨bytes, hchain, behind, rfl⟩
    rw [← List.append_assoc] at hahead
    obtain ⟨c', hpass, -⟩ := Cursor.exists_passes hahead
    exact ⟨c', skipped, bytes, hskipped, hchain, hpass⟩

/-! ## Written sections -/

theorem layoutOf_headerFlags (layout : Layout) : layoutOf (headerFlags layout) = layout := by
  cases layout <;> rfl

/-- The clauses that are written are those that their bytes store. -/
theorem ofBytes_encode {k : Clause} (hfits : k.Fits layout) :
    Clause.ofBytes layout (k.encode layout) = k.defined := by
  obtain ⟨c, hpass, -⟩ := Cursor.exists_passes_start (k.encode layout)
  exact (ok_unique (Clause.read_eq_ok_iff.mpr ⟨_, k.length_encode layout, rfl, hpass⟩)
    (Clause.read_eq_ok hfits hpass)).1

/-- A section that was written is a section. -/
theorem exists_raw_of_clauses {clauses : List Clause} (hfits : ∀ k ∈ clauses, k.Fits layout)
    (hsize : layout.sectionSize clauses.length ≤ layout.maxSize) :
    ∃ sec : Raw, sec.flags = headerFlags layout ∧ sec.more = false ∧
      sec.bytes = header layout clauses.length ++ encodeClauses layout clauses ∧
      sec.regions = clauses.map fun k => k.defined.toRegion := by
  have hlayout := layoutOf_headerFlags layout
  refine ⟨⟨headerFlags layout, List.replicate (3 - layout.sizeWidth) 0,
    clauses.map (Clause.encode layout), by cases layout <;> decide, ?_, ?_, ?_⟩, rfl, ?_, ?_, ?_⟩
  · rw [hlayout, List.length_replicate]
  · rw [hlayout]
    simp [Clause.length_encode]
  · rwa [hlayout, List.length_map]
  · show decide (headerFlags layout &&& moreFlag ≠ 0) = false
    cases layout <;> decide
  · simp only [Raw.bytes, Raw.behind, Raw.size, hlayout, List.length_map, header_eq,
      List.cons_append]
    rfl
  · simp only [Raw.regions, hlayout, List.map_map]
    refine List.map_congr_left fun k hmem => ?_
    rw [Function.comp_apply, ← Clause.toRegion_ofBytes, ofBytes_encode (hfits k hmem)]

/-- Behind the bytes that lead to the next multiple of four a section of
regions is all of a chain. -/
theorem readChain_eq_ok {clauses : List Clause} {skipped : Bytes}
    (hskipped : skipped.length = c.padding 4) (hfits : ∀ k ∈ clauses, k.Fits layout)
    (hsize : layout.sectionSize clauses.length ≤ layout.maxSize)
    (hpass : c.Passes (skipped ++ (header layout clauses.length ++ encodeClauses layout clauses))
      c') :
    readChain c = (.ok (clauses.map fun k => k.defined.toRegion), c') := by
  obtain ⟨sec, -, hlast, hbytes, hregions⟩ := exists_raw_of_clauses hfits hsize
  rw [← hbytes] at hpass
  exact readChain_eq_ok_iff.mpr ⟨skipped, sec.bytes, hskipped, hregions ▸ .last sec hlast, hpass⟩

end Section

end Reroute
