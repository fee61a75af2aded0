import Reroute.Body
import Reroute.Proofs.Reading
/-!
# The written form of fat bodies

Reading what was written as a fat body comes down to reading the chain of
sections behind its code: the header and the code are read back as they
were, whatever the sections are (`exists_read_encodeFat`).
-/

namespace Reroute

namespace Body

variable {code sections bytes : Bytes} {maxStack : UInt16} {localSignature : Token}
  {initLocals : Bool}

/-- The first word of a fat header. -/
def flagWord (initLocals noSections : Bool) : UInt16 :=
  0x3003 ||| (if initLocals then 0x10 else 0) ||| (if noSections then 0 else 0x8)

theorem flagWord_size (initLocals noSections : Bool) :
    (flagWord initLocals noSections >>> 12).toNat * 4 = fatHeaderSize := by
  cases initLocals <;> cases noSections <;> rfl

theorem flagWord_sections (initLocals noSections : Bool) :
    flagWord initLocals noSections &&& 0x8 = 0 ↔ noSections = true := by
  cases initLocals <;> cases noSections <;> decide

theorem flagWord_locals (initLocals noSections : Bool) :
    decide (flagWord initLocals noSections &&& 0x10 ≠ 0) = initLocals := by
  cases initLocals <;> cases noSections <;> rfl

/-- The low bits of the first byte say that the body is fat. -/
theorem exists_flagWord_head (initLocals noSections : Bool) :
    ∃ first, (LittleEndian.toBytes (flagWord initLocals noSections)).head? = some first ∧
      first &&& 3 = 3 := by
  cases initLocals <;> cases noSections <;> exact ⟨_, rfl, by decide⟩

/-- The header and the code of a fat body. -/
def front (code : Bytes) (maxStack : UInt16) (localSignature : Token)
    (initLocals noSections : Bool) : Bytes :=
  LittleEndian.toBytes (flagWord initLocals noSections) ++ LittleEndian.toBytes maxStack ++
    LittleEndian.toBytes (UInt32.ofNat code.length) ++
    LittleEndian.toBytes localSignature.value ++ code

/-- What stands behind a position: the sections, if there are any, from the
next multiple of four on. -/
def back (position : Nat) (sections : Bytes) : Bytes :=
  if sections.isEmpty then [] else List.replicate (padding position) 0 ++ sections

theorem encodeFat_eq_ok_iff :
    encodeFat code maxStack localSignature initLocals sections = .ok bytes ↔
      code.length < UInt32.size ∧
        front code maxStack localSignature initLocals sections.isEmpty ++
          back (front code maxStack localSignature initLocals sections.isEmpty).length sections =
            bytes := by
  unfold encodeFat
  split
  · rename_i hshort
    have hbytes : front code maxStack localSignature initLocals sections.isEmpty ++
        back (front code maxStack localSignature initLocals sections.isEmpty).length sections =
        if sections.isEmpty then front code maxStack localSignature initLocals sections.isEmpty
        else front code maxStack localSignature initLocals sections.isEmpty ++
          List.replicate (padding
            (front code maxStack localSignature initLocals sections.isEmpty).length) 0 ++
          sections := by
      unfold back
      split
      · exact List.append_nil _
      · rw [List.append_assoc]
    rw [hbytes, Except.ok.injEq]
    exact ⟨fun h => ⟨hshort, h⟩, fun h => h.2⟩
  · rename_i hlong
    constructor
    · intro h
      cases h
    · rintro ⟨hshort, -⟩
      exact absurd hshort hlong

/-- Behind the code of a body, the chain of sections is all that is left to
read. -/
theorem exists_read_encodeFat
    (h : encodeFat code maxStack localSignature initLocals sections = .ok bytes) :
    ∃ c : Cursor, c.ahead = back c.position sections ∧
      read (.start bytes) =
        ((if sections.isEmpty then pure [] else Section.readChain) >>= fun regions =>
          pure { code, maxStack, localSignature, initLocals, isFat := true, regions }) c := by
  obtain ⟨hshort, hbytes⟩ := encodeFat_eq_ok_iff.mp h
  obtain ⟨c₅, hpass, hahead⟩ : ∃ c₅, (Cursor.start bytes).Passes
      (front code maxStack localSignature initLocals sections.isEmpty) c₅ ∧ c₅.ahead = back
        (front code maxStack localSignature initLocals sections.isEmpty).length sections :=
    Cursor.exists_passes hbytes.symm
  have hposition : c₅.position =
      (front code maxStack localSignature initLocals sections.isEmpty).length := by
    rw [hpass.position]
    exact Nat.zero_add _
  refine ⟨c₅, by rw [hahead, hposition], ?_⟩
  obtain ⟨first, hfirst, hformat⟩ := exists_flagWord_head initLocals sections.isEmpty
  obtain ⟨c₄, hheader, hcode⟩ := Cursor.passes_append_iff.mp hpass
  have hstart : c₄.position = fatHeaderSize := hheader.position
  obtain ⟨c₃, hheader₃, hlocals⟩ := Cursor.passes_append_iff.mp hheader
  obtain ⟨c₂, hheader₂, hsize⟩ := Cursor.passes_append_iff.mp hheader₃
  obtain ⟨c₁, hflags, hstack⟩ := Cursor.passes_append_iff.mp hheader₂
  have hmore : Reader.hasMore (.start bytes) = (.ok true, .start bytes) := by
    refine Reader.hasMore_eq_ok_iff.mpr ⟨Cursor.hasMore_eq_true_iff.mpr ?_, rfl⟩
    rw [hflags.ahead]
    intro hnil
    rw [(List.append_eq_nil_iff.mp hnil).1] at hfirst
    cases hfirst
  have hpeek : Reader.peek (.start bytes) = (.ok first, .start bytes) := by
    rw [Reader.peek_eq_ok_iff, hflags.ahead, List.head?_append, hfirst]
    exact ⟨rfl, rfl⟩
  have hnat : (UInt32.ofNat code.length).toNat = code.length := UInt32.toNat_ofNat_of_lt' hshort
  have htiny : ¬first &&& 3 = 2 := by
    rw [hformat]
    decide
  rw [read, bind_of_ok hmore, if_neg (by decide), bind_of_ok hpeek, if_neg htiny,
    if_pos hformat, readFat, bind_of_ok (Reader.value_eq_ok_iff.mpr hflags)]
  simp only [flagWord_size, Nat.lt_irrefl, if_false, flagWord_sections, flagWord_locals]
  rw [bind_of_ok (Reader.value_eq_ok_iff.mpr hstack), bind_of_ok (Reader.value_eq_ok_iff.mpr hsize),
    bind_of_ok (Reader.value_eq_ok_iff.mpr hlocals),
    bind_of_ok (Reader.seek_eq_ok_iff.mpr ⟨rfl, hstart⟩),
    bind_of_ok (Reader.bytes_eq_ok_iff.mpr ⟨hnat.symm, hcode⟩)]
  by_cases hnone : sections.isEmpty = true
  · rw [if_pos hnone, if_pos hnone]
  · rw [if_neg hnone, if_neg hnone]

theorem decode_eq_ok_iff {data : Bytes} {body : Body} :
    decode data = .ok body ↔ ∃ c, read (.start data) = (.ok body, c) := by
  simp only [decode, Reader.runOn_eq_ok_iff, Reader.namingDefect_eq_ok_iff]

theorem decode_encodeFat_nil
    (h : encodeFat code maxStack localSignature initLocals [] = .ok bytes) :
    decode bytes =
      .ok { code, maxStack, localSignature, initLocals, isFat := true, regions := [] } := by
  obtain ⟨c, -, hread⟩ := exists_read_encodeFat h
  exact decode_eq_ok_iff.mpr ⟨c, hread⟩

/-- There is a place behind the code where the sections stand, and the chain
that is read there has the regions of the body. -/
theorem exists_decode_iff_of_encodeFat (hne : sections ≠ [])
    (h : encodeFat code maxStack localSignature initLocals sections = .ok bytes) :
    ∃ c : Cursor, c.ahead = List.replicate (padding c.position) 0 ++ sections ∧
      ∀ body, decode bytes = .ok body ↔
        ∃ regions, (∃ c', Section.readChain c = (.ok regions, c')) ∧
          body = { code, maxStack, localSignature, initLocals, isFat := true, regions } := by
  obtain ⟨c, hahead, hread⟩ := exists_read_encodeFat h
  have hsome : ¬sections.isEmpty = true := fun hnil => hne (List.isEmpty_iff.mp hnil)
  rw [back, if_neg hsome] at hahead
  rw [if_neg hsome] at hread
  refine ⟨c, hahead, fun body => ?_⟩
  rw [decode_eq_ok_iff, hread]
  simp only [bind_eq_ok_iff, pure_eq_ok_iff]
  constructor
  · rintro ⟨_, regions, c', hchain, rfl, rfl⟩
    exact ⟨regions, ⟨c', hchain⟩, rfl⟩
  · rintro ⟨regions, ⟨c', hchain⟩, rfl⟩
    exact ⟨c', regions, c', hchain, rfl, rfl⟩

/-- Whatever chain takes all the bytes there are the regions of the body. -/
theorem exists_chain_of_encodeFat (hne : sections ≠ [])
    (h : encodeFat code maxStack localSignature initLocals sections = .ok bytes) :
    ∃ (c c' : Cursor) (skipped : Bytes), skipped.length = c.padding 4 ∧
      c.Passes (skipped ++ sections) c' ∧
      ∀ regions, Section.readChain c = (.ok regions, c') →
        decode bytes =
          .ok { code, maxStack, localSignature, initLocals, isFat := true, regions } := by
  obtain ⟨c, hahead, hdecode⟩ := exists_decode_iff_of_encodeFat hne h
  obtain ⟨c', hpass, -⟩ := Cursor.exists_passes (hahead.trans (List.append_nil _).symm)
  refine ⟨c, c', _, List.length_replicate, hpass, fun regions hchain => ?_⟩
  exact (hdecode _).mpr ⟨regions, ⟨c', hchain⟩, rfl⟩

end Body

end Reroute
