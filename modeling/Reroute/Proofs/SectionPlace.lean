import Reroute.Proofs.BodyForm
import Reroute.Proofs.SectionGrammar
/-!
# Sections read the same wherever they stand

The sections of a body stand behind its code, and reading them skips to the
next multiple of four first. Which bytes are a chain does not depend on their
place, so a chain behind its padding gives the regions that it gives on its
own (`Section.readChain_behind_iff`), and a body of any code gives those, or
is refused with them.
-/

namespace Reroute

/-- Behind its padding a chain gives what it gives on its own. -/
theorem Section.readChain_behind_iff {c : Cursor} {regions : List Region}
    {skipped sections : Bytes} (hskipped : skipped.length = c.padding 4)
    (hahead : c.ahead = skipped ++ sections) :
    (∃ c', readChain c = (.ok regions, c')) ↔ (readChain.runOn sections).1 = .ok regions := by
  have hnone : ([] : Bytes).length = (Cursor.start sections).padding 4 :=
    (Cursor.padding_start sections 4).symm
  rw [Reader.runOn_eq_ok_iff, exists_readChain_iff hskipped hahead, exists_readChain_iff hnone rfl]

namespace Body

/-- **Bodies are read back.** Code that is not too long for a header is
written with any section behind it. Without one, all parts are read back as
they were; with one, they are if the section on its own can be read, and
then its regions are those of the body. -/
theorem decode_encodeFat (code : Bytes) (maxStack : UInt16) (localSignature : Token)
    (initLocals : Bool) (sections : Bytes) (short : code.length < UInt32.size) :
    ∃ bytes, encodeFat code maxStack localSignature initLocals sections = .ok bytes ∧
      (sections = [] → decode bytes =
        .ok { code, maxStack, localSignature, initLocals, isFat := true, regions := [] }) ∧
      (sections ≠ [] → ∀ body, decode bytes = .ok body ↔
        ∃ regions, (Section.readChain.runOn sections).1 = .ok regions ∧
          body = { code, maxStack, localSignature, initLocals, isFat := true, regions }) := by
  obtain ⟨bytes, hbytes⟩ :
      ∃ bytes, encodeFat code maxStack localSignature initLocals sections = .ok bytes :=
    ⟨_, encodeFat_eq_ok_iff.mpr ⟨short, rfl⟩⟩
  refine ⟨bytes, hbytes, ?_, ?_⟩
  · rintro rfl
    exact decode_encodeFat_nil hbytes
  · intro hsome body
    obtain ⟨c, hahead, hdecode⟩ := exists_decode_iff_of_encodeFat hsome hbytes
    simp only [hdecode, Section.readChain_behind_iff List.length_replicate hahead]

/-- A fat section that announces another, which is thin. -/
def mixedChain : Bytes :=
  [0xC1, 28, 0, 0, 2, 0, 0, 0, 0, 0, 0, 0, 4, 0, 0, 0, 8, 0, 0, 0, 4, 0, 0, 0, 0, 0, 0, 0,
    0x01, 16, 0, 0, 0, 0, 1, 0, 2, 12, 0, 3, 5, 0, 0, 2]

theorem runOn_mixedChain : (Section.readChain.runOn mixedChain).1 =
    .ok [.ofFlags .finallyFlag 0 4 8 4, .catching 1 2 12 3 ⟨0x02000005⟩] :=
  answer_toOption_eq_some_iff.mp (by decide +kernel)

theorem decode_encodeFat_mixedChain :
    ∃ bytes, encodeFat [0x00, 0x2A] 8 .null true mixedChain = .ok bytes ∧
      decode bytes = .ok ⟨[0x00, 0x2A], 8, .null, true, true,
        [.ofFlags .finallyFlag 0 4 8 4, .catching 1 2 12 3 ⟨0x02000005⟩]⟩ := by
  obtain ⟨bytes, hbytes, -, hdecode⟩ :=
    decode_encodeFat [0x00, 0x2A] 8 .null true mixedChain (by decide)
  exact ⟨bytes, hbytes, (hdecode (List.cons_ne_nil _ _) _).mpr ⟨_, runOn_mixedChain, rfl⟩⟩

end Body

end Reroute
