import Reroute.Patch
import Reroute.Proofs.PairAccess
/-!
# Every memory that a patch goes through

Other threads may enter the code while it is patched, so a promise about the
last memory alone is worth little: `Protocol` is about all of them. Until the
jump is complete, the two bytes that are decoded first are the old ones or a jump
to itself, and what lies behind them changes only under the jump to itself. The
order in which the bytes behind are written is left open; any order of the
trailing stores keeps the protocol (`protocol_states`).
-/

namespace Reroute

namespace Patch

variable {m : Memory} {site : UInt64} {jump : Bytes}

/-! ## What a store leaves -/

theorem apply_pair (m : Memory) (site : UInt64) (value : UInt16) :
    Store.apply m (.pair site value) = m.write site (LittleEndian.toBytes value) := by
  rw [Store.apply, Memory.swapPair_eq_store]
  rfl

theorem byte_apply_byte (m : Memory) (address a : UInt64) (value : UInt8) :
    (Store.apply m (.byte address value)).byte a = if a = address then value else m.byte a := by
  rw [Store.apply]
  split
  · rename_i h
    rw [h, Memory.byte_write, UInt64.sub_self]
    rfl
  · rename_i h
    refine Memory.byte_write_of_length_le ?_
    have hne : (a - address).toNat ≠ 0 := by
      intro h0
      have hplace := Memory.add_ofNat_toNat_sub address a
      rw [h0] at hplace
      exact h (by simpa using hplace.symm)
    simp only [List.length_singleton]
    omega

/-! ## Filling in the bytes of a jump -/

/-- The byte of a jump that belongs at an address. -/
def jumpByte (site : UInt64) (jump : Bytes) (a : UInt64) : UInt8 :=
  jump[(a - site).toNat]?.getD 0

/-- The addresses behind the first two bytes of a jump. -/
def Behind (site : UInt64) (jump : Bytes) (a : UInt64) : Prop :=
  2 ≤ (a - site).toNat ∧ (a - site).toNat < jump.length

theorem mem_trailing_iff (hsize : jump.length ≤ UInt64.size) {store : Store} :
    store ∈ trailing site jump ↔
      ∃ a, Behind site jump a ∧ store = .byte a (jumpByte site jump a) := by
  have hplace : ∀ i, site + 2 + UInt64.ofNat i = site + UInt64.ofNat (2 + i) := by
    intro i
    rw [UInt64.ofNat_add, UInt64.add_assoc]
    rfl
  simp only [trailing, List.mem_mapIdx, List.getElem_drop, List.length_drop, hplace]
  constructor
  · rintro ⟨i, hi, rfl⟩
    have hat := Memory.toNat_add_sub site (i := 2 + i) (by omega)
    have hbehind : Behind site jump (site + UInt64.ofNat (2 + i)) := by
      rw [Behind, hat]
      omega
    refine ⟨_, hbehind, ?_⟩
    rw [jumpByte, hat, List.getElem?_eq_getElem (by omega), Option.getD_some]
  · rintro ⟨a, ⟨hle, hlt⟩, rfl⟩
    have hindex : 2 + ((a - site).toNat - 2) = (a - site).toNat := by omega
    have hback : site + UInt64.ofNat (2 + ((a - site).toNat - 2)) = a := by
      rw [hindex, Memory.add_ofNat_toNat_sub]
    refine ⟨(a - site).toNat - 2, by omega, ?_⟩
    rw [hback, jumpByte, List.getElem?_eq_getElem hlt, Option.getD_some]
    simp only [hindex]

theorem exists_byte_of_trailing (hsize : jump.length ≤ UInt64.size) {order : List Store}
    (horder : ∀ store ∈ order, store ∈ trailing site jump) :
    ∀ store ∈ order, ∃ a, store = .byte a (jumpByte site jump a) := by
  intro store hstore
  obtain ⟨a, -, h⟩ := (mem_trailing_iff hsize).mp (horder store hstore)
  exact ⟨a, h⟩

/-- What stores of the right bytes, in any order, leave at an address. -/
theorem byte_applyAll {order : List Store} {f : UInt64 → UInt8}
    (h : ∀ store ∈ order, ∃ a, store = .byte a (f a)) (m : Memory) (a : UInt64) :
    (applyAll m order).byte a = if .byte a (f a) ∈ order then f a else m.byte a := by
  induction order generalizing m with
  | nil => rfl
  | cons store rest ih =>
      obtain ⟨address, rfl⟩ := h store List.mem_cons_self
      show (applyAll (Store.apply m _) rest).byte a = _
      rw [ih (fun store hmem => h store (List.mem_cons_of_mem _ hmem)), byte_apply_byte]
      by_cases hrest : Store.byte a (f a) ∈ rest
      · rw [if_pos hrest, if_pos (List.mem_cons_of_mem _ hrest)]
      · by_cases ha : a = address
        · simp [ha]
        · have hcons : Store.byte a (f a) ∉ Store.byte address (f address) :: rest := by
            simp [ha, hrest]
          rw [if_neg hrest, if_neg ha, if_neg hcons]

/-! ## The memories of a list of stores -/

theorem getElem?_states (m : Memory) (stores : List Store) (k : Nat) :
    (states m stores)[k]? =
      if k ≤ stores.length then some (applyAll m (stores.take k)) else none := by
  induction stores generalizing m k with
  | nil => cases k <;> simp [states, applyAll]
  | cons store rest ih =>
      cases k with
      | zero => simp [states, applyAll]
      | succ k => simp [states, applyAll, ih]

theorem length_states (m : Memory) (stores : List Store) :
    (states m stores).length = stores.length + 1 := by
  induction stores generalizing m with
  | nil => rfl
  | cons store rest ih => simp [states, ih]

/-- The memory in which arrivals are parked and some trailing bytes are stored. -/
def filled (m : Memory) (site : UInt64) (order : List Store) : Memory :=
  applyAll (m.write site [0xEB, 0xFE]) order

theorem apply_spin (m : Memory) (site : UInt64) :
    Store.apply m (.pair site spin) = m.write site [0xEB, 0xFE] :=
  apply_pair m site spin

theorem apply_head (m : Memory) (site : UInt64) (h : 2 ≤ jump.length) :
    Store.apply m (.pair site (LittleEndian.ofBytes (jump.take 2))) =
      m.write site (jump.take 2) := by
  have hlen : (jump.take 2).length = LittleEndian.width UInt16 := by
    rw [List.length_take, Nat.min_eq_left h]
    rfl
  rw [apply_pair, LittleEndian.toBytes_ofBytes _ hlen]

/-- The memory in which whoever was parked is let go. -/
def finished (m : Memory) (site : UInt64) (jump : Bytes) (order : List Store) : Memory :=
  (filled m site order).write site (jump.take 2)

theorem length_states_storesVia (m : Memory) (site : UInt64) (jump : Bytes) (order : List Store) :
    (states m (storesVia order site jump)).length = order.length + 3 := by
  simp [length_states, storesVia]

theorem states_parked (m : Memory) (site : UInt64) (jump : Bytes) {order : List Store}
    {count : Nat} (h : count ≤ order.length) :
    (states m (storesVia order site jump))[count + 1]? =
      some (filled m site (order.take count)) := by
  rw [getElem?_states, if_pos (by simp [storesVia]; omega)]
  simp only [storesVia, List.cons_append, List.take_succ_cons, applyAll, List.foldl_cons,
    apply_spin, List.take_append_of_le_length h]
  rfl

theorem states_finished (m : Memory) (site : UInt64) (h2 : 2 ≤ jump.length) (order : List Store) :
    (states m (storesVia order site jump))[order.length + 2]? =
      some (finished m site jump order) := by
  have hall : (storesVia order site jump).length = order.length + 2 := by simp [storesVia]
  rw [getElem?_states, hall, if_pos (Nat.le_refl _), ← hall, List.take_length]
  simp only [storesVia, List.cons_append, applyAll, List.foldl_cons, List.foldl_append, apply_spin,
    List.foldl_nil, apply_head _ _ h2]
  rfl

/-- The memories of a patch: the old one, those with arrivals parked and more and
more of the trailing bytes, and the finished one. -/
theorem states_cases {order : List Store} (h2 : 2 ≤ jump.length) {k : Nat} {state : Memory}
    (h : (states m (storesVia order site jump))[k]? = some state) :
    (k = 0 ∧ state = m) ∨
    (∃ count, count ≤ order.length ∧ k = count + 1 ∧ state = filled m site (order.take count)) ∨
    (k = order.length + 2 ∧ state = finished m site jump order) := by
  have hk := (List.getElem?_eq_some_iff.mp h).1
  rw [length_states_storesVia] at hk
  rcases k with _ | count
  · exact .inl ⟨rfl, (Option.some.inj h).symm⟩
  · by_cases hcount : count ≤ order.length
    · rw [states_parked m site jump hcount] at h
      exact .inr (.inl ⟨count, hcount, rfl, (Option.some.inj h).symm⟩)
    · have hlast : count = order.length + 1 := by omega
      subst hlast
      rw [states_finished m site h2 order] at h
      exact .inr (.inr ⟨rfl, (Option.some.inj h).symm⟩)

/-! ## The protocol -/

/-- What a patch promises about all the memories it goes through, the first and
the last among them. -/
structure Protocol (site : UInt64) (jump : Bytes) (first last : Memory)
    (memories : List Memory) : Prop where
  starts : memories.head? = some first
  ends : memories.getLast? = some last
  /-- First of all, whoever arrives is parked, and nothing else is changed. -/
  parks : ∃ parked, memories[1]? = some parked ∧ parked.read site 2 = [0xEB, 0xFE] ∧
    first.SameOutside site 2 parked
  /-- Last of all, the first two bytes are replaced, and nothing else. -/
  releases : ∃ parked, memories[memories.length - 2]? = some parked ∧
    parked.read site 2 = [0xEB, 0xFE] ∧ last.read site 2 = jump.take 2 ∧
    parked.SameOutside site 2 last
  /-- The bytes behind change only while whoever arrives is parked. -/
  guarded : ∀ k before after, memories[k]? = some before → memories[k + 1]? = some after →
    ∀ i, 2 ≤ i → i < jump.length →
      after.byte (site + UInt64.ofNat i) ≠ before.byte (site + UInt64.ofNat i) →
      before.read site 2 = [0xEB, 0xFE] ∧ after.read site 2 = [0xEB, 0xFE]
  leading : ∀ memory ∈ memories,
    memory.read site 2 ∈ [first.read site 2, [0xEB, 0xFE], jump.take 2]
  complete : last.read site jump.length = jump
  frame : ∀ memory ∈ memories, first.SameOutside site jump.length memory

section Filled

variable {order : List Store}

/-- Trailing stores change nothing but the bytes behind the first two. -/
theorem byte_filled_of_not_behind (hsize : jump.length ≤ UInt64.size)
    (horder : ∀ store ∈ order, store ∈ trailing site jump) {a : UInt64}
    (ha : ¬ Behind site jump a) :
    (filled m site order).byte a = (m.write site [0xEB, 0xFE]).byte a := by
  rw [filled, byte_applyAll (exists_byte_of_trailing hsize horder), if_neg]
  intro hmem
  obtain ⟨a', ha', h⟩ := (mem_trailing_iff hsize).mp (horder _ hmem)
  cases h
  exact ha ha'

theorem byte_filled_of_behind (hsize : jump.length ≤ UInt64.size)
    (horder : order.Perm (trailing site jump)) {a : UInt64} (ha : Behind site jump a) :
    (filled m site order).byte a = jumpByte site jump a := by
  rw [filled, byte_applyAll (exists_byte_of_trailing hsize fun _ => horder.mem_iff.mp), if_pos]
  exact horder.mem_iff.mpr ((mem_trailing_iff hsize).mpr ⟨a, ha, rfl⟩)

/-- Whoever arrives while trailing bytes are stored is parked. -/
theorem read_filled (hsize : jump.length ≤ UInt64.size)
    (horder : ∀ store ∈ order, store ∈ trailing site jump) :
    (filled m site order).read site 2 = [0xEB, 0xFE] := by
  have hspin := Memory.read_write m site [0xEB, 0xFE] (by decide)
  rw [← hspin]
  refine Memory.read_congr fun i hi => byte_filled_of_not_behind hsize horder ?_
  rw [Behind, Memory.toNat_add_sub site (by simp only [UInt64.size]; omega)]
  omega

theorem sameOutside_filled (h2 : 2 ≤ jump.length) (hsize : jump.length ≤ UInt64.size)
    (horder : ∀ store ∈ order, store ∈ trailing site jump) :
    m.SameOutside site jump.length (filled m site order) := by
  intro a ha
  have hbehind : ¬ Behind site jump a := fun h => Nat.not_lt.mpr ha h.2
  rw [byte_filled_of_not_behind hsize horder hbehind]
  exact Memory.byte_write_of_length_le (Nat.le_trans h2 ha)

theorem filled_eq_of_perm (hsize : jump.length ≤ UInt64.size)
    (horder : order.Perm (trailing site jump)) :
    filled m site order = filled m site (trailing site jump) := by
  have hbyte : ∀ a, (filled m site order).byte a = (filled m site (trailing site jump)).byte a := by
    intro a
    by_cases ha : Behind site jump a
    · rw [byte_filled_of_behind hsize horder ha, byte_filled_of_behind hsize (.refl _) ha]
    · rw [byte_filled_of_not_behind hsize (fun _ => horder.mem_iff.mp) ha,
        byte_filled_of_not_behind hsize (fun _ => id) ha]
  exact congrArg Memory.mk (funext hbyte)

theorem length_take_two (h2 : 2 ≤ jump.length) : (jump.take 2).length = 2 := by
  rw [List.length_take, Nat.min_eq_left h2]

theorem read_finished_two (h2 : 2 ≤ jump.length) :
    (finished m site jump order).read site 2 = jump.take 2 := by
  have hread := Memory.read_write (filled m site order) site (jump.take 2)
    (by rw [length_take_two h2]; decide)
  rwa [length_take_two h2] at hread

theorem read_finished (hsize : jump.length ≤ UInt64.size)
    (horder : order.Perm (trailing site jump)) :
    (finished m site jump order).read site jump.length = jump := by
  refine List.ext_getElem (by simp) fun i hi hi' => ?_
  have hat := Memory.toNat_add_sub site (i := i) (by omega)
  simp only [finished, Memory.read, List.getElem_map, List.getElem_range, Memory.byte_write, hat]
  by_cases hlow : i < 2
  · rw [List.getElem?_take_of_lt hlow, List.getElem?_eq_getElem hi']
    rfl
  · have hbehind : Behind site jump (site + UInt64.ofNat i) := by
      rw [Behind, hat]
      omega
    rw [List.getElem?_eq_none (by simp; omega), Option.getD_none,
      byte_filled_of_behind hsize horder hbehind, jumpByte, hat, List.getElem?_eq_getElem hi']
    rfl

/-- The last store changes nothing but the first two bytes. -/
theorem sameOutside_finished (h2 : 2 ≤ jump.length) :
    (filled m site order).SameOutside site 2 (finished m site jump order) :=
  Memory.sameOutside_write _ site (Nat.le_of_eq (length_take_two h2))

/-- A byte behind the first two differs between two memories in a row only if
whoever arrives is parked in both. -/
theorem guarded_states (h2 : 2 ≤ jump.length) (hsize : jump.length ≤ UInt64.size)
    (horder : ∀ store ∈ order, store ∈ trailing site jump) {k : Nat} {before after : Memory}
    (hbefore : (states m (storesVia order site jump))[k]? = some before)
    (hafter : (states m (storesVia order site jump))[k + 1]? = some after) {a : UInt64}
    (ha : 2 ≤ (a - site).toNat) (hne : after.byte a ≠ before.byte a) :
    before.read site 2 = [0xEB, 0xFE] ∧ after.read site 2 = [0xEB, 0xFE] := by
  have hparked : ∀ count, (filled m site (order.take count)).read site 2 = [0xEB, 0xFE] :=
    fun count => read_filled hsize fun store h => horder store (List.mem_of_mem_take h)
  rcases states_cases h2 hbefore with ⟨rfl, rfl⟩ | ⟨count, hcount, rfl, rfl⟩ | ⟨rfl, -⟩
  · -- the first store
    rw [states_parked before site jump (Nat.zero_le _)] at hafter
    cases hafter
    exact absurd (Memory.sameOutside_write before site (by decide) a ha) hne
  · by_cases hlast : count = order.length
    · -- the last store
      subst hlast
      rw [states_finished m site h2 order] at hafter
      cases hafter
      rw [List.take_length] at hne
      exact absurd (sameOutside_finished h2 a ha) hne
    · rw [states_parked m site jump (by omega)] at hafter
      cases hafter
      exact ⟨hparked count, hparked (count + 1)⟩
  · have hbound := (List.getElem?_eq_some_iff.mp hafter).1
    rw [length_states_storesVia] at hbound
    omega

end Filled

/-- A patch keeps the protocol, in whatever order the trailing bytes are stored. -/
theorem protocol_states (m : Memory) (h2 : 2 ≤ jump.length) (hsize : jump.length ≤ UInt64.size)
    {order : List Store} (horder : order.Perm (trailing site jump)) :
    Protocol site jump m (finished m site jump order) (states m (storesVia order site jump)) := by
  have hsub : ∀ store ∈ order, store ∈ trailing site jump := fun _ => horder.mem_iff.mp
  have htake : ∀ count, ∀ store ∈ order.take count, store ∈ trailing site jump :=
    fun count store h => hsub store (List.mem_of_mem_take h)
  constructor
  case starts => rfl
  case ends =>
    rw [List.getLast?_eq_getElem?, length_states_storesVia]
    exact states_finished m site h2 order
  case parks =>
    exact ⟨_, states_parked m site jump (Nat.zero_le _), read_filled hsize (htake 0),
      Memory.sameOutside_write m site (by decide)⟩
  case releases =>
    have hlast := states_parked m site jump (Nat.le_refl order.length)
    rw [List.take_length] at hlast
    rw [length_states_storesVia]
    exact ⟨_, hlast, read_filled hsize hsub, read_finished_two h2, sameOutside_finished h2⟩
  case guarded =>
    intro k before after hbefore hafter i hle hlt hne
    have hat := Memory.toNat_add_sub site (i := i) (by omega)
    exact guarded_states h2 hsize hsub hbefore hafter (hat.symm ▸ hle) hne
  case leading =>
    intro memory hmem
    obtain ⟨k, hk⟩ := List.mem_iff_getElem?.mp hmem
    rcases states_cases h2 hk with ⟨-, rfl⟩ | ⟨count, -, -, rfl⟩ | ⟨-, rfl⟩
    · exact List.mem_cons_self
    · simp [read_filled hsize (htake count)]
    · simp [read_finished_two h2]
  case complete => exact read_finished hsize horder
  case frame =>
    intro memory hmem
    obtain ⟨k, hk⟩ := List.mem_iff_getElem?.mp hmem
    rcases states_cases h2 hk with ⟨-, rfl⟩ | ⟨count, -, -, rfl⟩ | ⟨-, rfl⟩
    · exact fun _ _ => rfl
    · exact sameOutside_filled h2 hsize (htake count)
    · exact (sameOutside_filled h2 hsize hsub).trans fun a ha =>
        sameOutside_finished h2 a (Nat.le_trans h2 ha)

end Patch

end Reroute
