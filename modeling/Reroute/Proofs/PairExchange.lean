import Reroute.Machine.Exchange
import Reroute.Proofs.PairAccess
/-!
# Two bytes and no others

Reading or replacing a pair in one access is told here by the bytes of memory
alone: `TwoBytes` says what is read, what is left at the two addresses, and that
all other bytes are kept, those of the covering word among them.

An exchange by attempts is one such replacement, of the memory that the attempt
found which succeeded, whatever others have done to the memory in between
(`exchangePair_eq_swapPair`). If nobody interferes the second attempt at the
latest succeeds (`exchangePair_of_steady`).
-/

namespace Reroute

namespace Memory

variable {m m' : Memory} {address base shift : UInt64} {value previous : UInt16}
  {attempts : List Attempt}

/-! ## The word and the pair -/

/-- A word that covers a pair is aligned. -/
theorem covering?_aligned (h : covering? address = some (base, shift)) : base.toNat % 8 = 0 := by
  unfold covering? at h
  split at h
  · cases h
    have hle : (address % 8).toNat ≤ address.toNat := by
      rw [UInt64.toNat_mod]
      exact Nat.mod_le _ _
    rw [UInt64.toNat_sub_of_le _ _ (UInt64.le_iff_toNat_le.mpr hle), UInt64.toNat_mod]
    show (address.toNat - address.toNat % 8) % 8 = 0
    omega
  · cases h

theorem covering?_eq_none_iff : covering? address = none ↔ address.toNat % 8 = 7 := by
  have hmod : (address % 8).toNat = address.toNat % 8 := UInt64.toNat_mod ..
  unfold covering?
  split
  · rename_i hle
    have hle' : (address % 8).toNat ≤ 6 := UInt64.le_iff_toNat_le.mp hle
    constructor
    · intro h
      cases h
    · omega
  · rename_i hle
    have hle' : ¬(address % 8).toNat ≤ 6 := fun h => hle (UInt64.le_iff_toNat_le.mpr h)
    refine ⟨fun _ => by omega, fun _ => rfl⟩

/-! ## The bytes of a pair -/

theorem read_two (m : Memory) (address : UInt64) :
    m.read address 2 = [m.byte address, m.byte (address + 1)] := by
  have hfirst : address + UInt64.ofNat 0 = address := UInt64.add_zero address
  show [m.byte (address + UInt64.ofNat 0), m.byte (address + UInt64.ofNat 1)] = _
  rw [hfirst]
  rfl

/-- The pair at an address is the number of its two bytes, the lower one first. -/
theorem toNat_pair (m : Memory) (address : UInt64) :
    (m.pair address).toNat = (m.byte address).toNat + 256 * (m.byte (address + 1)).toNat := by
  have hlow := (m.byte address).toNat_lt
  have hhigh := (m.byte (address + 1)).toNat_lt
  have hnumber : Bytes.toNat (m.read address 2) =
      (m.byte address).toNat + 256 * (m.byte (address + 1)).toNat := by
    rw [read_two]
    rfl
  have hsize : Bytes.toNat (m.read address 2) < UInt16.size := by
    rw [hnumber]
    simp only [UInt16.size]
    omega
  rw [pair_eq_value, ← hnumber]
  exact UInt16.toNat_ofNat_of_lt' hsize

theorem toNat_byte_store (m : Memory) (address : UInt64) (value : UInt16) :
    ((m.store address value).byte address).toNat = value.toNat % 256 := by
  rw [store, byte_write, UInt64.sub_self]
  exact UInt8.toNat_ofNat' ..

theorem toNat_byte_store_next (m : Memory) (address : UInt64) (value : UInt16) :
    ((m.store address value).byte (address + 1)).toNat = value.toNat / 256 := by
  have hplace : (address + 1 - address).toNat = 1 := toNat_add_sub address (by decide)
  have hvalue := value.toNat_lt
  rw [store, byte_write, hplace]
  show (UInt8.ofNat (value.toNat / 256)).toNat = _
  rw [UInt8.toNat_ofNat']
  omega

theorem byte_store_of_ne (m : Memory) {a : UInt64} (value : UInt16) (hfirst : a ≠ address)
    (hnext : a ≠ address + 1) : (m.store address value).byte a = m.byte a := by
  have hplace := add_ofNat_toNat_sub address a
  refine byte_write_of_length_le ?_
  have hlength : (LittleEndian.toBytes value).length = 2 := LittleEndian.length_toBytes value
  rw [hlength]
  rcases hdistance : (a - address).toNat with _ | _ | n
  · rw [hdistance] at hplace
    exact absurd (hplace.symm.trans (UInt64.add_zero address)) hfirst
  · rw [hdistance] at hplace
    exact absurd hplace.symm hnext
  · omega

/-! ## Attempts -/

section attempts

variable {α : Type} [LittleEndian α] [DecidableEq α] {f : α → α} {guess old : α}

/-- The attempt that succeeds replaces what it finds, and nothing has been changed
by those before it. -/
theorem exists_attempt_of_update (h : update address f guess attempts = some (old, m')) :
    ∃ attempt ∈ attempts, old = attempt.memory.value α address ∧
      m' = attempt.memory.store address (f old) := by
  induction attempts generalizing guess with
  | nil => cases h
  | cons attempt rest ih =>
      rw [update] at h
      split at h
      · rename_i hfound
        obtain ⟨rfl, rfl⟩ := Prod.mk.injEq .. |>.mp (Option.some.inj h)
        exact ⟨attempt, List.mem_cons_self, rfl, by rw [hfound.1]⟩
      · obtain ⟨later, hmem, hlater⟩ := ih h
        exact ⟨later, List.mem_cons_of_mem _ hmem, hlater⟩

/-- All attempts find the same memory. -/
def Steady (m : Memory) (attempts : List Attempt) : Prop :=
  ∀ attempt ∈ attempts, attempt.memory = m

/-- The attempts at which the processor does not give up without a cause. -/
def earnest (attempts : List Attempt) : List Attempt :=
  attempts.filter fun attempt => !attempt.spurious

theorem update_of_guessed (hsteady : Steady m attempts) (hearnest : earnest attempts ≠ []) :
    update address f (m.value α address) attempts =
      some (m.value α address, m.store address (f (m.value α address))) := by
  induction attempts with
  | nil => exact absurd rfl hearnest
  | cons attempt rest ih =>
      obtain ⟨hmemory, hrest⟩ := List.forall_mem_cons.mp hsteady
      rw [update, hmemory]
      split
      · rfl
      · rename_i hfails
        have hspurious : attempt.spurious = true := by
          rw [← Bool.not_eq_false]
          exact fun h => hfails ⟨rfl, h⟩
        refine ih hrest ?_
        rwa [earnest, List.filter_cons_of_neg (by simp [hspurious])] at hearnest

/-- In a memory that nobody else changes, whatever the first guess was, the second
earnest attempt succeeds. -/
theorem update_of_steady (hsteady : Steady m attempts) (hearnest : 2 ≤ (earnest attempts).length) :
    update address f guess attempts =
      some (m.value α address, m.store address (f (m.value α address))) := by
  cases attempts with
  | nil => exact absurd hearnest (by decide)
  | cons attempt rest =>
      obtain ⟨hmemory, hrest⟩ := List.forall_mem_cons.mp hsteady
      rw [update, hmemory]
      split
      · rename_i hfound
        rw [hfound.1]
      · -- the first attempt has said what is there
        refine update_of_guessed hrest ?_
        have hcount : (earnest (attempt :: rest)).length ≤ 1 + (earnest rest).length := by
          rw [earnest, List.filter_cons]
          split
          · rw [List.length_cons, Nat.add_comm]
            exact Nat.le_refl _
          · exact Nat.le_add_left ..
        intro hnil
        rw [hnil] at hcount
        exact absurd (Nat.le_trans hearnest hcount) (by decide)

end attempts

/-- **An exchange by attempts is one access**: what it did is what replacing the
pair in one access does to the memory that one of the attempts found. -/
theorem exchangePair_eq_swapPair (h : exchangePair m address value attempts = some (previous, m')) :
    ∃ attempt ∈ attempts, attempt.memory.swapPair address value = (previous, m') := by
  unfold exchangePair at h
  unfold swapPair
  cases hcovering : covering? address with
  | some cover =>
      obtain ⟨base, shift⟩ := cover
      simp only [hcovering] at h
      obtain ⟨⟨word, behind⟩, hupdate, heq⟩ := Option.map_eq_some_iff.mp h
      obtain ⟨rfl, rfl⟩ := Prod.mk.injEq .. |>.mp heq
      obtain ⟨attempt, hmem, rfl, rfl⟩ := exists_attempt_of_update hupdate
      exact ⟨attempt, hmem, rfl⟩
  | none =>
      simp only [hcovering] at h
      obtain ⟨attempt, hmem, rfl, rfl⟩ := exists_attempt_of_update h
      exact ⟨attempt, hmem, rfl⟩

theorem exchangePair_of_steady (hsteady : Steady m attempts)
    (hearnest : 2 ≤ (earnest attempts).length) :
    exchangePair m address value attempts = some (m.swapPair address value) := by
  unfold exchangePair swapPair
  cases hcovering : covering? address with
  | some cover =>
      obtain ⟨base, shift⟩ := cover
      simp only [update_of_steady hsteady hearnest]
      rfl
  | none => simp only [update_of_steady hsteady hearnest]

/-! ## One access -/

/-- What one access to the two bytes at an address reads and leaves. -/
structure TwoBytes (m : Memory) (address : UInt64) (value : UInt16) : Prop where
  /-- The word that is accessed is the aligned one around the pair; only a pair that
  starts at the last byte of a word has none. -/
  word : ∀ base shift, covering? address = some (base, shift) →
    base.toNat % 8 = 0 ∧ ∃ off ≤ 6, address = base + UInt64.ofNat off ∧ shift.toNat = 8 * off
  straddles : covering? address = none ↔ address.toNat % 8 = 7
  read : (m.pair address).toNat = (m.byte address).toNat + 256 * (m.byte (address + 1)).toNat
  previous : (m.swapPair address value).1 = m.pair address
  low : ((m.swapPair address value).2.byte address).toNat = value.toNat % 256
  high : ((m.swapPair address value).2.byte (address + 1)).toNat = value.toNat / 256
  others : ∀ a, a ≠ address → a ≠ address + 1 → (m.swapPair address value).2.byte a = m.byte a
  /-- A series of attempts is such an access to the memory that one of them found. -/
  exchanged : ∀ attempts previous m', exchangePair m address value attempts = some (previous, m') →
    ∃ attempt ∈ attempts, attempt.memory.swapPair address value = (previous, m')
  undisturbed : ∀ attempts, Steady m attempts → 2 ≤ (earnest attempts).length →
    exchangePair m address value attempts = some (m.swapPair address value)

/-- **Two bytes and no others**: at every offset in a word, and across two words,
an access reads the pair at its address, gives the pair that was there, leaves
the new one, and keeps every other byte of memory. -/
theorem swapPair_twoBytes (m : Memory) (address : UInt64) (value : UInt16) :
    TwoBytes m address value where
  word base shift h := by
    obtain ⟨off, hoff, hshift, haddress⟩ := covering?_eq_some h
    exact ⟨covering?_aligned h, off, hoff, haddress, hshift⟩
  straddles := covering?_eq_none_iff
  read := toNat_pair m address
  previous := by rw [swapPair_eq_store]
  low := by
    rw [swapPair_eq_store]
    exact toNat_byte_store m address value
  high := by
    rw [swapPair_eq_store]
    exact toNat_byte_store_next m address value
  others a hfirst hnext := by
    rw [swapPair_eq_store]
    exact byte_store_of_ne m value hfirst hnext
  exchanged _ _ _ h := exchangePair_eq_swapPair h
  undisturbed _ hsteady hearnest := exchangePair_of_steady hsteady hearnest

end Memory

end Reroute
