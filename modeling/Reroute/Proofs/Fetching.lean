import Mathlib.Logic.Relation
import Reroute.Machine.Processor
import Reroute.Proofs.MemoryBytes
/-!
# Running the code that is in memory

The processor reads as many bytes as its longest instruction has, wherever the
next one ends. What it makes of them depends on the bytes of that instruction
alone (`Instr.decode_append`), so code runs in any memory that has it
(`Memory.Has`), whatever lies behind it.

Two kinds of code without jumps are run at once. Code that changes nothing but
registers needs to be there when it starts (`Processor.reaches_of_isQuiet`).
Code that stores words one behind the other needs to be out of their way
(`Processor.reaches_of_stores`).
-/

namespace Reroute

/-! ## Instructions -/

namespace Instr

variable {bytes : Bytes} {i : Instr} {size : Nat}

theorem displacement?_append {mode : UInt8} {distance : Int32} (rest : Bytes)
    (h : displacement? mode bytes = some (distance, size)) :
    displacement? mode (bytes ++ rest) = some (distance, size) := by
  unfold displacement? at h ⊢
  split at h
  · rename_i hmode
    simp only [hmode]
    exact h
  · rename_i hmode
    simp only [hmode, List.cons_append]
    exact h
  · rename_i hmode
    simp only [hmode]
    split at h
    · cases h
    · rename_i hlength
      rw [if_neg (by rw [List.length_append]; omega), List.take_append_of_le_length (by omega)]
      exact h
  · cases h

theorem target?_append {extension : Bool} {target : Target} (rest : Bytes)
    (h : target? extension bytes = some (target, size)) :
    target? extension (bytes ++ rest) = some (target, size) := by
  cases bytes with
  | nil => cases h
  | cons mode bytes =>
      rw [List.cons_append]
      unfold target? at h ⊢
      by_cases hregister : mode >>> 6 = 3
      · simp only [if_pos hregister] at h ⊢
        exact h
      simp only [if_neg hregister] at h ⊢
      by_cases hscaled : mode &&& 7 = 4
      · simp only [if_pos hscaled] at h ⊢
        split at h
        · obtain ⟨_, hdistance, hrest⟩ := Option.bind_eq_some_iff.mp h
          exact Option.bind_eq_some_iff.mpr ⟨_, displacement?_append rest hdistance, hrest⟩
        · cases h
      simp only [if_neg hscaled] at h ⊢
      by_cases hrelative : mode &&& 0xC7 = 5
      · simp only [if_pos hrelative] at h ⊢
        split at h
        · cases h
        · rename_i hlength
          rw [if_neg (by rw [List.length_append]; omega), List.take_append_of_le_length (by omega)]
          exact h
      · simp only [if_neg hrelative] at h ⊢
        obtain ⟨_, hdistance, hrest⟩ := Option.bind_eq_some_iff.mp h
        exact Option.bind_eq_some_iff.mpr ⟨_, displacement?_append rest hdistance, hrest⟩

theorem bind_target?_append {α : Type} {extension : Bool} {f : Target × Nat → Option α} {x : α}
    (rest : Bytes) (h : (target? extension bytes).bind f = some x) :
    (target? extension (bytes ++ rest)).bind f = some x := by
  obtain ⟨_, htarget, hx⟩ := Option.bind_eq_some_iff.mp h
  exact Option.bind_eq_some_iff.mpr ⟨_, target?_append rest htarget, hx⟩

theorem ne_nil_of_target? {extension : Bool} {target : Target}
    (h : target? extension bytes = some (target, size)) : bytes ≠ [] := by
  rintro rfl
  cases h

theorem field_append (extension : Bool) (rest : Bytes) (h : bytes ≠ []) :
    field extension (bytes ++ rest) = field extension bytes := by
  cases bytes with
  | nil => exact absurd rfl h
  | cons mode bytes => rfl

theorem decodeWide_append {extension : UInt8} (rest : Bytes)
    (h : decodeWide extension bytes = some (i, size)) :
    decodeWide extension (bytes ++ rest) = some (i, size) := by
  cases bytes with
  | nil => cases h
  | cons opcode bytes =>
      rw [List.cons_append]
      by_cases hnil : bytes = []
      · subst hnil
        simp [decodeWide, target?] at h
      have hfield (extension : Bool) := field_append extension rest hnil
      simp only [decodeWide, hfield] at h ⊢
      split at h
      · rename_i hcode
        rw [if_pos hcode]
        exact bind_target?_append rest h
      rename_i hstore
      rw [if_neg hstore]
      split at h
      · rename_i hcode
        rw [if_pos hcode]
        exact bind_target?_append rest h
      rename_i hload
      rw [if_neg hload]
      split at h
      · rename_i hcode
        rw [if_pos hcode]
        exact bind_target?_append rest h
      rename_i haddress
      rw [if_neg haddress]
      split at h
      · rename_i hcode
        obtain ⟨⟨target, _⟩, htarget, hi⟩ := Option.bind_eq_some_iff.mp h
        rw [if_pos hcode]
        refine Option.bind_eq_some_iff.mpr ⟨_, target?_append rest htarget, ?_⟩
        cases target with
        | memory => exact hi
        | register =>
            dsimp only at hi ⊢
            split at hi
            · cases hi
            · rename_i hlength
              rw [if_neg (by rw [List.length_append]; omega),
                List.drop_append_of_le_length (by omega),
                List.take_append_of_le_length (by rw [List.length_drop]; omega)]
              exact hi
      rename_i hsubtract
      rw [if_neg hsubtract]
      split at h
      · rename_i hcode
        rw [if_pos hcode]
        split at h
        · cases h
        · rename_i hlength
          rw [if_neg (by rw [List.length_append]; omega), List.take_append_of_le_length (by omega)]
          exact h
      · cases h

/-- The forms that are told by some bits of their first byte. -/
theorem decode_of_first {first : UInt8} (h : first &&& 0xF8 = 0x50 ∨ first &&& 0xF8 = 0x48)
    (rest : Bytes) : decode (first :: rest) =
      if first &&& 0xF8 = 0x50 then some (.push (register false first), 1)
      else (decodeWide first rest).map fun (i, size) => (i, 1 + size) := by
  unfold decode
  split
  case h_6 heq =>
    cases heq
    split
    · rfl
    · rename_i hpush
      rw [if_pos (h.resolve_left hpush)]
  case h_7 heq => cases heq
  -- No other form starts with one of these bytes.
  all_goals
    rename_i heq
    cases heq
    exact absurd h (by decide)

/-- An instruction is told by its own bytes. -/
theorem decode_append (rest : Bytes) (h : decode bytes = some (i, size)) :
    decode (bytes ++ rest) = some (i, size) := by
  unfold decode at h
  split at h
  · exact h
  · exact h
  · simp only [List.cons_append, decode]
    split at h
    · rename_i htarget
      rw [target?_append rest htarget, field_append _ rest (ne_nil_of_target? htarget)]
      exact h
    · cases h
  · simp only [List.cons_append, decode]
    split at h
    · rename_i htarget
      rw [target?_append rest htarget, field_append _ rest (ne_nil_of_target? htarget)]
      exact h
    · cases h
  · simp only [List.cons_append, decode]
    split at h
    · rename_i hfield htarget
      rw [target?_append rest htarget, field_append _ rest (ne_nil_of_target? htarget), hfield]
      exact h
    · rename_i hfield htarget
      rw [target?_append rest htarget, field_append _ rest (ne_nil_of_target? htarget), hfield]
      exact h
    · cases h
  · split at h
    · rename_i hpush
      rw [List.cons_append, decode_of_first (.inl hpush), if_pos hpush]
      exact h
    · rename_i hpush
      split at h
      · rename_i hwide
        rw [List.cons_append, decode_of_first (.inr hwide), if_neg hpush]
        obtain ⟨_, hi, hsize⟩ := Option.map_eq_some_iff.mp h
        exact Option.map_eq_some_iff.mpr ⟨_, decodeWide_append rest hi, hsize⟩
      · cases h
  · cases h

/-- The bytes are those of the instruction. -/
def Spelled (i : Instr) (bytes : Bytes) : Prop :=
  decode bytes = some (i, bytes.length) ∧ bytes.length ≤ maxLength

instance (i : Instr) (bytes : Bytes) : Decidable (i.Spelled bytes) :=
  inferInstanceAs (Decidable (_ ∧ _))

theorem spelled_constant {opcode : UInt8} (h : opcode &&& 0xF8 = 0xB8) (word : UInt64) :
    Spelled (.constant (register false opcode) word)
      ([0x48, opcode] ++ LittleEndian.toBytes word) := by
  have hlength : (LittleEndian.toBytes word).length = 8 := LittleEndian.length_toBytes word
  have htake : (LittleEndian.toBytes word).take 8 = LittleEndian.toBytes word :=
    List.take_of_length_le (Nat.le_of_eq hlength)
  have hother (other : UInt8) (hne : other &&& 0xF8 ≠ 0xB8) : opcode ≠ other :=
    fun heq => hne (heq ▸ h)
  have hwide : decodeWide 0x48 (opcode :: LittleEndian.toBytes word) =
      some (.constant (register false opcode) word, 9) := by
    simp only [decodeWide]
    rw [if_neg (hother 0x89 (by decide)), if_neg (hother 0x8B (by decide)),
      if_neg (hother 0x8D (by decide)), if_neg fun hsubtract => hother 0x81 (by decide) hsubtract.1,
      if_pos h, if_neg (by rw [hlength]; decide), htake, LittleEndian.ofBytes_toBytes]
    rfl
  have hsize : ([0x48, opcode] ++ LittleEndian.toBytes word).length = 10 := by
    rw [List.length_append, hlength]
    rfl
  refine ⟨?_, ?_⟩
  · rw [hsize, List.cons_append, decode_of_first (.inr rfl), if_neg (by decide), List.cons_append,
      List.nil_append, hwide]
    rfl
  · rw [hsize]
    decide

/-- The instruction changes nothing but registers. -/
def isQuiet : Instr → Bool
  | .move .. | .subtract .. | .load .. | .address .. | .loadFloat .. | .constant .. | .leave => true
  | .push _ | .store .. | .storeFloat .. | .call _ | .jumpThrough _ | .ret => false

end Instr

/-! ## Memory that has some bytes -/

namespace Memory

variable {m m' : Memory} {address : UInt64} {front back bytes : Bytes}

theorem read_add (m : Memory) (address : UInt64) (n k : Nat) :
    m.read address (n + k) = m.read address n ++ m.read (address + UInt64.ofNat n) k := by
  simp only [read, List.range_add, List.map_append, List.map_map]
  refine congrArg (_ ++ ·) (List.map_congr_left fun i _ => ?_)
  rw [Function.comp_apply, UInt64.ofNat_add, UInt64.add_assoc]

/-- The bytes are in memory from an address on. -/
def Has (m : Memory) (address : UInt64) (bytes : Bytes) : Prop :=
  m.read address bytes.length = bytes

theorem has_append_iff : m.Has address (front ++ back) ↔
    m.Has address front ∧ m.Has (address + UInt64.ofNat front.length) back := by
  rw [Has, List.length_append, read_add]
  exact ⟨fun h => List.append_inj h (length_read ..), fun h => by rw [h.1, h.2]⟩

/-- The bytes from one address on are none of those from another one on. -/
def Apart (address : UInt64) (length : Nat) (address' : UInt64) (length' : Nat) : Prop :=
  ∀ a, (a - address).toNat < length → length' ≤ (a - address').toNat

theorem toNat_offset_sub (base : UInt64) {off off' : Nat} (h : off' ≤ off)
    (hfit : off < UInt64.size) :
    (base + UInt64.ofNat off - (base + UInt64.ofNat off')).toNat = off - off' := by
  rw [toNat_sub_behind _ base (Nat.lt_of_le_of_lt h hfit), toNat_add_sub base hfit]
  simp only [UInt64.size] at *
  omega

theorem apart_offsets (base : UInt64) {off off' length length' : Nat}
    (h : off + length ≤ off' ∨ off' + length' ≤ off) (hfit : off + length < UInt64.size)
    (hfit' : off' + length' < UInt64.size) :
    Apart (base + UInt64.ofNat off) length (base + UInt64.ofNat off') length' := by
  intro a ha
  rw [toNat_sub_behind a base (by omega)] at ha ⊢
  have hlt := (a - base).toNat_lt
  simp only [UInt64.size] at *
  omega

/-- Parts of ranges that are apart are apart. -/
theorem Apart.within {base base' : UInt64} {total total' off off' length length' : Nat}
    (h : Apart base total base' total') (hpart : off + length ≤ total)
    (hpart' : off' + length' ≤ total') (hfit : total < UInt64.size) (hfit' : total' < UInt64.size) :
    Apart (base + UInt64.ofNat off) length (base' + UInt64.ofNat off') length' := by
  intro a ha
  rw [toNat_sub_behind a base (by omega)] at ha
  rw [toNat_sub_behind a base' (by omega)]
  have hlt := (a - base).toNat_lt
  have hlt' := (a - base').toNat_lt
  have hin : (a - base).toNat < total := by
    simp only [UInt64.size] at *
    omega
  have hout := h a hin
  simp only [UInt64.size] at *
  omega

theorem sameOutside_store {α : Type} [LittleEndian α] (m : Memory) (address : UInt64) (value : α) :
    SameOutside address (LittleEndian.width α) m (m.store address value) :=
  sameOutside_write m address (Nat.le_of_eq (LittleEndian.length_toBytes value))

theorem SameOutside.widen {base : UInt64} {off length total : Nat}
    (h : SameOutside (base + UInt64.ofNat off) length m m') (hpart : off + length ≤ total)
    (hfit : total < UInt64.size) : SameOutside base total m m' := by
  intro a ha
  refine h a ?_
  rw [toNat_sub_behind a base (by omega)]
  have hlt := (a - base).toNat_lt
  simp only [UInt64.size] at *
  omega

theorem SameOutside.read_eq {base : UInt64} {length count : Nat} (h : SameOutside base length m m')
    (hapart : Apart address count base length) (hsize : count ≤ UInt64.size) :
    m'.read address count = m.read address count := by
  refine read_congr fun i hi => h _ (hapart _ ?_)
  rwa [toNat_add_sub address (Nat.lt_of_lt_of_le hi hsize)]

theorem SameOutside.value_eq {α : Type} [LittleEndian α] {base : UInt64} {length : Nat}
    (h : SameOutside base length m m') (hapart : Apart address (LittleEndian.width α) base length)
    (hsize : LittleEndian.width α ≤ UInt64.size) : m'.value α address = m.value α address := by
  rw [value, value, h.read_eq hapart hsize]

theorem Has.of_sameOutside {base : UInt64} {length : Nat} (h : m.Has address bytes)
    (hsame : SameOutside base length m m') (hapart : Apart address bytes.length base length)
    (hsize : bytes.length ≤ UInt64.size) : m'.Has address bytes :=
  (hsame.read_eq hapart hsize).trans h

theorem write_nil (m : Memory) (address : UInt64) : m.write address [] = m := rfl

/-- Bytes stored right behind others are stored with them. -/
theorem write_append (m : Memory) (address : UInt64)
    (h : (front ++ back).length < UInt64.size) :
    (m.write address front).write (address + UInt64.ofNat front.length) back =
      m.write address (front ++ back) := by
  rw [List.length_append] at h
  refine congrArg Memory.mk (funext fun a => ?_)
  show ((m.write address front).write _ back).byte a = (m.write address (front ++ back)).byte a
  have hplace := toNat_sub_behind a address (show front.length < UInt64.size by omega)
  have hlt := (a - address).toNat_lt
  simp only [UInt64.size] at h hplace
  rw [byte_write, byte_write, byte_write, hplace]
  by_cases hin : (a - address).toNat < front.length
  · rw [Nat.mod_eq_of_lt (by omega), List.getElem?_eq_none (by omega),
      List.getElem?_append_left hin]
    rfl
  · have hbehind : (18446744073709551616 - front.length + (a - address).toNat) %
        18446744073709551616 = (a - address).toNat - front.length := by
      omega
    rw [List.getElem?_append_right (Nat.le_of_not_lt hin),
      List.getElem?_eq_none (Nat.le_of_not_lt hin), hbehind]
    rfl

theorem length_flatMap_toBytes {α : Type} [LittleEndian α] (values : List α) :
    (values.flatMap LittleEndian.toBytes).length = LittleEndian.width α * values.length := by
  induction values with
  | nil => rfl
  | cons value values ih =>
      rw [List.flatMap_cons, List.length_append, ih, LittleEndian.length_toBytes, List.length_cons,
        Nat.mul_succ, Nat.add_comm]

theorem value_of_has {α : Type} [LittleEndian α] {values : List α} {value : α} {i : Nat}
    (h : m.Has address (values.flatMap LittleEndian.toBytes)) (hi : values[i]? = some value) :
    m.value α (address + UInt64.ofNat (LittleEndian.width α * i)) = value := by
  obtain ⟨hlt, rfl⟩ := List.getElem?_eq_some_iff.mp hi
  have hsplit : values = values.take i ++ values[i] :: values.drop (i + 1) := by
    rw [List.getElem_cons_drop, List.take_append_drop]
  rw [hsplit, List.flatMap_append, List.flatMap_cons] at h
  have hvalue := (has_append_iff.mp (has_append_iff.mp h).2).1
  rw [length_flatMap_toBytes, List.length_take_of_le (Nat.le_of_lt hlt), Has,
    LittleEndian.length_toBytes] at hvalue
  exact value_eq_iff.mpr hvalue

end Memory

/-! ## Runs -/

namespace Processor

variable {p q : Processor} {i : Instr} {bytes : Bytes}

/-- Some steps lead from the one to the other. -/
def Reaches : Processor → Processor → Prop := Relation.ReflTransGen fun p q => p.step = some q

/-- Carries out an instruction of some length. -/
def advance (p : Processor) (i : Instr) (size : Nat) : Processor :=
  { p with next := p.next + UInt64.ofNat size }.execute i

theorem decode_of_spelled (h : p.memory.Has p.next bytes) (hi : i.Spelled bytes) :
    Instr.decode (p.memory.read p.next Instr.maxLength) = some (i, bytes.length) := by
  obtain ⟨hdecode, hlength⟩ := hi
  have hread : p.memory.read p.next Instr.maxLength = bytes ++
      p.memory.read (p.next + UInt64.ofNat bytes.length) (Instr.maxLength - bytes.length) := by
    rw [← Nat.add_sub_cancel' hlength, Memory.read_add, h, Nat.add_sub_cancel_left]
  rw [hread, Instr.decode_append _ hdecode]

theorem step_of_spelled (h : p.memory.Has p.next bytes) (hi : i.Spelled bytes) :
    p.step = some (p.advance i bytes.length) := by
  rw [step, decode_of_spelled h hi]
  rfl

theorem reaches_of_spelled (h : p.memory.Has p.next bytes) (hi : i.Spelled bytes) :
    p.Reaches (p.advance i bytes.length) :=
  .single (step_of_spelled h hi)

/-- The bytes of some instructions. -/
def code : List (Instr × Bytes) → Bytes
  | [] => []
  | (_, bytes) :: listing => bytes ++ code listing

theorem code_append (front back : List (Instr × Bytes)) :
    code (front ++ back) = code front ++ code back := by
  induction front with
  | nil => rfl
  | cons x front ih => rw [List.cons_append, code, code, ih, List.append_assoc]

variable {listing : List (Instr × Bytes)}

/-! ### Code that changes registers -/

/-- Carries some instructions out one after the other. -/
def carry (p : Processor) : List (Instr × Bytes) → Processor
  | [] => p
  | (i, bytes) :: listing => (p.advance i bytes.length).carry listing

theorem memory_advance_of_isQuiet (h : i.isQuiet) (size : Nat) :
    (p.advance i size).memory = p.memory := by
  cases i <;> cases h <;> rfl

theorem next_advance_of_isQuiet (h : i.isQuiet) (size : Nat) :
    (p.advance i size).next = p.next + UInt64.ofNat size := by
  cases i <;> cases h <;> rfl

theorem reaches_of_isQuiet (h : p.memory.Has p.next (code listing))
    (hspelled : ∀ x ∈ listing, x.1.Spelled x.2) (hquiet : ∀ x ∈ listing, x.1.isQuiet) :
    p.Reaches (p.carry listing) ∧ (p.carry listing).memory = p.memory ∧
      (p.carry listing).next = p.next + UInt64.ofNat (code listing).length := by
  induction listing generalizing p with
  | nil => exact ⟨.refl, rfl, (UInt64.add_zero _).symm⟩
  | cons x listing ih =>
      obtain ⟨i, bytes⟩ := x
      obtain ⟨hi, hspelled⟩ := List.forall_mem_cons.mp hspelled
      obtain ⟨hq, hquiet⟩ := List.forall_mem_cons.mp hquiet
      obtain ⟨hhead, hrest⟩ := Memory.has_append_iff.mp h
      have hmemory := memory_advance_of_isQuiet (p := p) hq bytes.length
      have hnext := next_advance_of_isQuiet (p := p) hq bytes.length
      rw [← hmemory, ← hnext] at hrest
      obtain ⟨hreaches, hmemory', hnext'⟩ := ih hrest hspelled hquiet
      refine ⟨(reaches_of_spelled hhead hi).trans hreaches, hmemory'.trans hmemory, ?_⟩
      rw [carry, hnext', hnext, code, List.length_append, UInt64.ofNat_add, UInt64.add_assoc]

/-! ### Code that stores words -/

/-- The instruction stores a word at an address, whatever is in memory. -/
def Stores (p : Processor) (i : Instr) (address word : UInt64) : Prop :=
  ∀ m next, { p with memory := m, next }.execute i =
    { p with memory := m.store address word, next }

/-- The processor behind code of some length that stores words from an address on. -/
def stored (p : Processor) (base : UInt64) (words : List UInt64) (size : Nat) : Processor :=
  { p with
    memory := p.memory.write base (words.flatMap LittleEndian.toBytes)
    next := p.next + UInt64.ofNat size }

variable {base : UInt64} {words : List UInt64}

theorem stored_nil (p : Processor) (base : UInt64) : p.stored base [] 0 = p := by
  have hnext : p.next + UInt64.ofNat 0 = p.next := UInt64.add_zero _
  rw [stored, hnext, List.flatMap_nil, Memory.write_nil]

theorem sameOutside_stored (p : Processor) (base : UInt64) (words : List UInt64) (size : Nat) :
    Memory.SameOutside base (8 * words.length) p.memory (p.stored base words size).memory :=
  Memory.sameOutside_write _ _ (Nat.le_of_eq (Memory.length_flatMap_toBytes words))

theorem advance_stored {word : UInt64} {size n : Nat}
    (hroom : 8 * (words.length + 1) < UInt64.size)
    (h : p.Stores i (base + UInt64.ofNat (8 * words.length)) word) :
    (p.stored base words size).advance i n = p.stored base (words ++ [word]) (size + n) := by
  have hlength : (words.flatMap LittleEndian.toBytes).length = 8 * words.length :=
    Memory.length_flatMap_toBytes words
  have hfit : (words.flatMap LittleEndian.toBytes ++ LittleEndian.toBytes word).length <
      UInt64.size := by
    rw [List.length_append, hlength, LittleEndian.length_toBytes]
    exact hroom
  have hwrite := Memory.write_append p.memory base hfit
  rw [hlength] at hwrite
  rw [advance, stored, h, Memory.store, hwrite, stored, List.flatMap_append, List.flatMap_singleton,
    UInt64.ofNat_add, UInt64.add_assoc]

theorem reaches_of_stores (h : p.memory.Has p.next (code listing))
    (hspelled : ∀ x ∈ listing, x.1.Spelled x.2) (hsize : (code listing).length ≤ UInt64.size)
    (hroom : 8 * words.length < UInt64.size)
    (hapart : Memory.Apart p.next (code listing).length base (8 * words.length))
    (hlength : listing.length = words.length)
    (hstores : ∀ k x word, listing[k]? = some x → words[k]? = some word →
      p.Stores x.1 (base + UInt64.ofNat (8 * k)) word) :
    p.Reaches (p.stored base words (code listing).length) := by
  have hrun : ∀ n ≤ listing.length,
      p.Reaches (p.stored base (words.take n) (code (listing.take n)).length) := by
    intro n hn
    induction n with
    | zero =>
        rw [List.take_zero, List.take_zero, code, List.length_nil, stored_nil]
        exact .refl
    | succ n ih =>
        have hn' : n < words.length := hlength ▸ hn
        have htake : (words.take n).length = n := List.length_take_of_le (Nat.le_of_lt hn')
        -- None of the stores so far has hit the code.
        have hkept : (p.stored base (words.take n) (code (listing.take n)).length).memory.Has p.next
            (code listing) := by
          refine h.of_sameOutside (sameOutside_stored p base _ _) (fun a ha => ?_) hsize
          exact Nat.le_trans (Nat.mul_le_mul_left 8 (List.length_take_le' ..)) (hapart a ha)
        have hsplit : code listing =
            code (listing.take n) ++ (listing[n].2 ++ code (listing.drop (n + 1))) := by
          rw [← code, List.getElem_cons_drop, ← code_append, List.take_append_drop]
        rw [hsplit] at hkept
        have hhead := (Memory.has_append_iff.mp (Memory.has_append_iff.mp hkept).2).1
        have hstep := reaches_of_spelled (p := p.stored ..) hhead (hspelled _ (List.getElem_mem hn))
        have hstore := hstores n _ _ (List.getElem?_eq_getElem hn) (List.getElem?_eq_getElem hn')
        rw [advance_stored (by rw [htake]; omega) (by rw [htake]; exact hstore)] at hstep
        rw [List.take_succ_eq_append_getElem hn, List.take_succ_eq_append_getElem hn', code_append,
          List.length_append, code, code, List.append_nil]
        exact (ih (Nat.le_of_succ_le hn)).trans hstep
  have hall := hrun listing.length (Nat.le_refl _)
  rwa [List.take_length, hlength, List.take_length] at hall

end Processor

end Reroute
