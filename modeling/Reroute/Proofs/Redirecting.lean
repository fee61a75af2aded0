import Reroute.Proofs.PageMapping
import Reroute.Proofs.PatchProtocol
/-!
# Redirecting an entry point on x86-64

A patch chooses its site, makes it writable and then goes through its stores.
`run_x64_ends` says for every memory, entry point, replacement and options
which site is chosen, that the patch goes through exactly if the twelve bytes of
the site are mapped, that the stores it makes (`Patch.course`) then keep the protocol
of `Reroute.Proofs.PatchProtocol`, and that memory stays as it was if it does not.

The site is described without the words that the redirector computes with: the
slot of an indirect jump is a sum of integers modulo the size of the address space
(`LeadsTo`).
-/

namespace Reroute

/-- Extending a displacement to a word keeps it modulo the size of words. -/
theorem toNat_toInt64_toUInt64 (displacement : Int32) :
    (displacement.toInt64.toUInt64.toNat : Int) = displacement.toInt % UInt64.size := by
  have hint : displacement.toInt64.toBitVec.toInt = displacement.toInt :=
    Int32.toInt_toInt64 displacement
  have hword := displacement.toInt64.toUInt64.toNat_lt
  rw [← hint, BitVec.toInt_eq_toNat_bmod]
  show (displacement.toInt64.toUInt64.toNat : Int) =
    (displacement.toInt64.toUInt64.toNat : Int).bmod UInt64.size % UInt64.size
  rw [Int.bmod_emod]
  simp only [UInt64.size]
  omega

/-- Where an entry point leads, if indirect jumps are followed and if they are not. -/
inductive LeadsTo (m : Memory) (target : UInt64) : (follow : Bool) → (site : UInt64) → Prop where
  | literal : LeadsTo m target false target
  | direct (h : m.read target 2 ≠ [0xFF, 0x25]) : LeadsTo m target true target
  /-- The slot of an indirect jump lies a signed distance behind its six bytes. -/
  | indirect {slot site : UInt64} (hjump : m.read target 2 = [0xFF, 0x25])
      (hslot : (slot.toNat : Int) =
        (target.toNat + 6 + (Bytes.toNat (m.read (target + 2) 4) : Int).bmod UInt32.size)
          % UInt64.size)
      (hsite : site.toNat = Bytes.toNat (m.read slot 8)) : LeadsTo m target true site

namespace Patch

theorem pair_eq_indirectJump_iff {m : Memory} {target : UInt64} :
    m.pair target = Redirector.indirectJump ↔ m.read target 2 = [0xFF, 0x25] := by
  rw [Memory.pair_eq_value]
  exact Memory.value_eq_iff

theorem leadsTo_site (m : Memory) (target : UInt64) (options : PatchOptions) :
    LeadsTo m target options.resolveIndirection (site Redirector.x64 options m target) := by
  unfold site
  cases options.resolveIndirection with
  | false => exact .literal
  | true =>
      show LeadsTo m target true (Redirector.x64.resolve m target)
      by_cases h : m.pair target = Redirector.indirectJump
      · simp only [Redirector.x64, if_pos h]
        refine .indirect (pair_eq_indirectJump_iff.mp h) ?_ (Memory.toNat_value_word ..)
        have hfar := toNat_toInt64_toUInt64 (m.value Int32 (target + 2))
        have hsix : UInt64.toNat 6 = 6 := rfl
        rw [← Memory.toInt_value, UInt64.toNat_add, UInt64.toNat_add, hsix]
        simp only [UInt64.size] at *
        omega
      · simp only [Redirector.x64, if_neg h]
        exact .direct (fun hjump => h (pair_eq_indirectJump_iff.mpr hjump))

/-- How a patch of a site ends that has made some stores. Either it goes through:
then a store each of single bytes stands between its first and its last, these are
what memory has gone through, and in whatever order those in between are made, they
keep the protocol. Or nothing was stored. -/
inductive Ends (site : UInt64) (jump : Bytes) (s : AddressSpace) :
    List Store → Except Error UInt64 × AddressSpace → Prop where
  | patched {after : AddressSpace} {first last : Store} {behind : List Store}
      (hmapped : s.pages.Mapped site jump.length)
      (hbytes : ∀ store ∈ behind, ∃ a value, store = .byte a value)
      (hmemory : after.memory = applyAll s.memory (first :: behind ++ [last]))
      (h : ∀ order : List Store, order.Perm behind →
        Protocol site jump s.memory after.memory (states s.memory (first :: order ++ [last]))) :
      Ends site jump s (first :: behind ++ [last]) (.ok site, after)
  | refused {error : Error} {after : AddressSpace} (hmapped : ¬ s.pages.Mapped site jump.length)
      (h : after.memory = s.memory) : Ends site jump s [] (.error error, after)

theorem applyAll_stores (m : Memory) (site : UInt64) {jump : Bytes} (h2 : 2 ≤ jump.length) :
    applyAll m (stores site jump) = finished m site jump (trailing site jump) := by
  have hfold : applyAll m (stores site jump) =
      Store.apply (applyAll (Store.apply m (.pair site spin)) (trailing site jump))
        (.pair site (LittleEndian.ofBytes (jump.take 2))) := by
    simp [applyAll, stores, storesVia]
  rw [hfold, apply_spin, apply_head _ _ h2]
  rfl

/-- The stores of a patch keep the protocol, those behind the first two bytes in any order. -/
theorem protocol_storesVia (m : Memory) {site : UInt64} {jump : Bytes} (h2 : 2 ≤ jump.length)
    (hsize : jump.length ≤ UInt64.size) {order : List Store}
    (horder : order.Perm (trailing site jump)) :
    Protocol site jump m (applyAll m (stores site jump)) (states m (storesVia order site jump)) := by
  rw [applyAll_stores m site h2, finished, ← filled_eq_of_perm hsize horder]
  exact protocol_states m h2 hsize horder

/-- A patch with a jump of a fixed form ends in one of the two ways. -/
theorem run_ends (r : Redirector) {target replacement : UInt64} {options : PatchOptions}
    {s : AddressSpace} {jump : Bytes}
    (hjump : r.jump (site r options s.memory target) replacement = .ok jump)
    (h2 : 2 ≤ jump.length) (hsize : jump.length ≤ UInt64.size) :
    Ends (site r options s.memory target) jump s (course r target replacement options s).stores
      (run r target replacement options s) := by
  have hiff := PageGuard.unprotect_ok_iff s.pages (site r options s.memory target) jump.length
    options.restoreProtection
  rw [show max jump.length 1 = jump.length by omega] at hiff
  unfold run course
  simp only [hjump, if_neg (Nat.not_lt.mpr h2)]
  split
  · rename_i error pages h
    rw [h] at hiff
    refine .refused ?_ rfl
    intro hmapped
    obtain ⟨pageGuard, p', hok⟩ := hiff.mpr hmapped
    cases hok
  · rename_i pageGuard pages h
    refine .patched (hiff.mp ⟨_, _, h⟩) (fun store hstore => ?_) rfl fun order horder =>
      protocol_storesVia s.memory h2 hsize horder
    obtain ⟨a, -, hbyte⟩ := (mem_trailing_iff hsize).mp hstore
    exact ⟨a, _, hbyte⟩

/-- **A patch keeps the protocol.** On x86-64 it puts the absolute jump where the entry
point leads, and the stores that it makes on the way keep the protocol. -/
theorem run_x64_ends (target replacement : UInt64) (options : PatchOptions) (s : AddressSpace) :
    ∃ site, LeadsTo s.memory target options.resolveIndirection site ∧
      Ends site ([0x48, 0xB8] ++ LittleEndian.toBytes replacement ++ [0x50, 0xC3]) s
        (course .x64 target replacement options s).stores
        (run .x64 target replacement options s) := by
  have hlength : (Redirector.jump64 replacement).length = 12 := by
    simp [Redirector.jump64, LittleEndian.width]
  have h2 : 2 ≤ (Redirector.jump64 replacement).length := by omega
  have hsize : (Redirector.jump64 replacement).length ≤ UInt64.size := by
    rw [hlength]
    decide
  exact ⟨site .x64 options s.memory target, leadsTo_site s.memory target options,
    run_ends .x64 rfl h2 hsize⟩

/-- The two bytes of an entry point may lie in two words. -/
example :
    (run .x64 0x10007 0x2000 .literal ⟨.zero, ⟨fun _ => some .code⟩, 0⟩).1.toOption =
      some 0x10007 := by
  decide

end Patch

end Reroute
