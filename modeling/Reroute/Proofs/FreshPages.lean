import Reroute.Native.Call
import Reroute.Proofs.Redirecting
import Reroute.Proofs.Run
/-!
# A stub leaves mapped memory alone

The stub of a proxy is put into a page that was not mapped before, or it is not
put anywhere (`vacant_of_hasRoom`), so that no byte of a mapped page changes, and an
entry point leads where it led if the bytes that tell so are mapped
(`site_eq_of_mapped`). Redirecting the entry point then changes the twelve bytes of
the jump and nothing else.
-/

namespace Reroute

/-! ## Mapped bytes -/

namespace AddressSpace

/-- The address is in a mapped page. -/
def Mapped (s : AddressSpace) (a : UInt64) : Prop := (s.pages.protection? (pageOf a)).isSome

/-- The page that is mapped next is not mapped yet. -/
def Vacant (s : AddressSpace) : Prop := ∀ a, s.Mapped a → pageSize ≤ (a - s.free).toNat

/-- No byte of a mapped page is another one. -/
def SameMapped (s : AddressSpace) (m : Memory) : Prop :=
  ∀ a, s.Mapped a → m.byte a = s.memory.byte a

/-- The address space with the stub of a proxy in it. -/
def withStub (s : AddressSpace) : AddressSpace :=
  s.withCode (Stub.sysV s.free Native.dispatcher)

/-- The bytes that tell where an entry point leads: its first two, and the slot
if they are those of an indirect jump. -/
structure Readable (s : AddressSpace) (target : UInt64) : Prop where
  head : ∀ i < 2, s.Mapped (target + UInt64.ofNat i)
  distance : s.memory.read target 2 = [0xFF, 0x25] →
    ∀ i < 4, s.Mapped (target + 2 + UInt64.ofNat i)
  slot : s.memory.read target 2 = [0xFF, 0x25] → ∀ i < 8, s.Mapped
    (target + 6 + (s.memory.value Int32 (target + 2)).toInt64.toUInt64 + UInt64.ofNat i)

variable {s : AddressSpace} {m : Memory}

theorem sameMapped_of_eq (h : m = s.memory) : s.SameMapped m := by
  intro a _
  rw [h]

/-! ## The stub -/

/-- The system maps only what was not mapped. -/
theorem vacant_of_hasRoom {size : Nat} (hsize : pageSize ≤ size) (h : s.hasRoom size = true) :
    s.Vacant := by
  simp only [hasRoom, Bool.and_eq_true, beq_iff_eq, decide_eq_true_eq, List.all_eq_true,
    List.mem_range] at h
  obtain ⟨⟨haligned, hfits⟩, hunmapped⟩ := h
  have hfirst := hunmapped 0 (Nat.div_pos hsize (by decide))
  intro a ha
  refine Nat.le_of_not_lt fun hinside => ?_
  -- an address less than a page behind the first free one is in the same page
  have hplace : a.toNat = s.free.toNat + (a - s.free).toNat := by
    rw [← Memory.add_ofNat_toNat_sub s.free a, UInt64.toNat_add, UInt64.toNat_ofNat',
      Memory.add_ofNat_toNat_sub]
    have hlt := (a - s.free).toNat_lt
    simp only [UInt64.size] at *
    omega
  have hpage : pageOf a = pageOf s.free + 0 := by
    simp only [pageOf, pageSize] at *
    omega
  rw [Mapped, hpage, Option.isSome_iff_ne_none] at ha
  exact ha (Option.isNone_iff_eq_none.mp hfirst)

theorem le_mappingSize (length : Nat) : pageSize ≤ mappingSize length := by
  simp only [mappingSize, pageSize]
  omega

theorem length_stub (context dispatcher : UInt64) :
    (Stub.sysV context dispatcher).length = 134 := by
  have hspills : ((List.range Abi.floatRegisters).map fun n =>
      Stub.spillFloat (UInt8.ofNat n)).flatten.length = 48 := by
    simp only [List.length_flatten, List.map_map]
    rfl
  have hword : LittleEndian.width UInt64 = 8 := rfl
  unfold Stub.sysV
  generalize ((List.range Abi.floatRegisters).map fun n =>
    Stub.spillFloat (UInt8.ofNat n)).flatten = spills at hspills ⊢
  simp only [List.length_append, LittleEndian.length_toBytes, hspills, hword, List.length_cons,
    List.length_nil]

/-- A stub changes no byte outside the page that was free. -/
theorem sameOutside_withStub (s : AddressSpace) :
    s.memory.SameOutside s.free pageSize s.withStub.memory := by
  refine Memory.sameOutside_write s.memory s.free ?_
  rw [length_stub]
  decide

theorem read_withStub (s : AddressSpace) :
    s.withStub.memory.read s.free 134 = Stub.sysV s.free Native.dispatcher := by
  have hlength := length_stub s.free Native.dispatcher
  have hread := Memory.read_write s.memory s.free (Stub.sysV s.free Native.dispatcher) (by
    rw [hlength]
    decide)
  rwa [hlength] at hread

theorem sameMapped_of_vacant (vacant : s.Vacant)
    (h : s.memory.SameOutside s.free pageSize m) : s.SameMapped m :=
  fun a ha => h a (vacant a ha)

/-- A stub is where nothing was mapped, so it outlives what is stored in mapped
pages. -/
theorem read_stub_of_sameOutside (vacant : s.Vacant) {m : Memory} {site : UInt64} {length : Nat}
    (hmapped : ∀ i < length, s.Mapped (site + UInt64.ofNat i))
    (h : s.withStub.memory.SameOutside site length m) :
    m.read s.free 134 = Stub.sysV s.free Native.dispatcher := by
  rw [← read_withStub]
  refine Memory.read_congr fun i hi => h _ (Nat.le_of_not_lt fun hinside => ?_)
  have ha := hmapped _ hinside
  rw [Memory.add_ofNat_toNat_sub] at ha
  have hfar := vacant _ ha
  rw [Memory.toNat_add_sub s.free (Nat.lt_trans hi (by decide)), pageSize] at hfar
  omega

/-! ## Where an entry point leads -/

theorem read_eq_of_mapped (h : s.SameMapped m)
    {address : UInt64} {count : Nat} (hmapped : ∀ i < count, s.Mapped (address + UInt64.ofNat i)) :
    m.read address count = s.memory.read address count :=
  Memory.read_congr fun i hi => h _ (hmapped i hi)

theorem value_eq_of_mapped {α : Type} [LittleEndian α] (h : s.SameMapped m) {address : UInt64}
    (hmapped : ∀ i < LittleEndian.width α, s.Mapped (address + UInt64.ofNat i)) :
    m.value α address = s.memory.value α address := by
  rw [Memory.value, Memory.value, read_eq_of_mapped h hmapped]

/-- An entry point leads to the same place in all memories that agree on what is
mapped. -/
theorem site_eq_of_mapped (h : s.SameMapped m) {options : PatchOptions} {target : UInt64}
    (readable : options.resolveIndirection = true → s.Readable target) :
    Patch.site .x64 options m target = Patch.site .x64 options s.memory target := by
  unfold Patch.site
  split
  · rename_i hfollow
    obtain ⟨hhead, hdistance, hslot⟩ := readable hfollow
    have hpair : m.pair target = s.memory.pair target := by
      rw [Memory.pair_eq_value, Memory.pair_eq_value, value_eq_of_mapped h hhead]
    simp only [Redirector.x64, hpair]
    split
    · rename_i hjump
      have hindirect := Patch.pair_eq_indirectJump_iff.mp hjump
      have hfar : m.value Int32 (target + 2) = s.memory.value Int32 (target + 2) :=
        value_eq_of_mapped h (hdistance hindirect)
      rw [hfar, value_eq_of_mapped h (hslot hindirect)]
    · rfl
  · rfl

end AddressSpace

/-- A stub that is mapped is where nothing was mapped. -/
theorem Native.eq_ok_of_emitStub {form : ProxyForm} {space space' : AddressSpace}
    {entry : UInt64} (h : emitStub form space = .ok (entry, space')) :
    space.Vacant ∧ entry = space.free ∧ space' = space.withStub := by
  simp only [emitStub, answer_bind_eq_ok_iff] at h
  obtain ⟨_, -, hemit⟩ := h
  unfold AddressSpace.emit at hemit
  split at hemit
  · rename_i hroom
    cases hemit
    exact ⟨AddressSpace.vacant_of_hasRoom (AddressSpace.le_mappingSize _) hroom, rfl, rfl⟩
  · cases hemit

/-! ## The end of a patch -/

namespace Patch

variable {target replacement : UInt64} {options : PatchOptions} {s : AddressSpace}

theorem length_jump64 (target : UInt64) : (Redirector.jump64 target).length = 12 := by
  simp [Redirector.jump64, LittleEndian.width]

/-- A patch is refused with the protection of the site and changes no byte, or all
its stores are made. -/
theorem run_x64_cases (target replacement : UInt64) (options : PatchOptions) (s : AddressSpace) :
    (∃ e pages, PageGuard.unprotect (site .x64 options s.memory target) 12
        options.restoreProtection s.pages = (.error e, pages) ∧
      run .x64 target replacement options s = (.error e, { s with pages })) ∨
    ∃ pageGuard pages, PageGuard.unprotect (site .x64 options s.memory target) 12
        options.restoreProtection s.pages = (.ok pageGuard, pages) ∧
      run .x64 target replacement options s =
        (.ok (site .x64 options s.memory target),
          { s with
            memory := applyAll s.memory
              (stores (site .x64 options s.memory target) (Redirector.jump64 replacement))
            pages := pageGuard.release pages }) := by
  have hjump : Redirector.x64.jump (site .x64 options s.memory target) replacement =
      .ok (Redirector.jump64 replacement) := rfl
  unfold run course
  simp only [hjump, length_jump64]
  rcases PageGuard.unprotect (site .x64 options s.memory target) 12 options.restoreProtection
    s.pages with ⟨answer, pages⟩
  cases answer with
  | error e => exact .inl ⟨e, pages, rfl, rfl⟩
  | ok pageGuard => exact .inr ⟨pageGuard, pages, rfl, rfl⟩

/-- The stores of a jump leave the jump at its site, and all else as it was. -/
theorem protocol_jump64 (m : Memory) (site target : UInt64) :
    Protocol site (Redirector.jump64 target) m
      (applyAll m (stores site (Redirector.jump64 target)))
      (states m (stores site (Redirector.jump64 target))) := by
  have h2 : 2 ≤ (Redirector.jump64 target).length := by
    rw [length_jump64]
    decide
  have hsize : (Redirector.jump64 target).length ≤ UInt64.size := by
    rw [length_jump64]
    decide
  exact protocol_storesVia m h2 hsize (.refl _)

end Patch

end Reroute
