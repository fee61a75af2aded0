import Reroute.Proofs.BodyForm
import Reroute.Proofs.SectionGrammar
/-!
# The formats of bodies

What bytes a body is stored in is described by itself: `Body.Stored` says for
the tiny and for the fat format what stands at which offset, how many bytes
there must be, and where the sections are, if the header says that there are
any. `Body.decode` accepts just these bytes and gives the body that is stored
in them (`Body.decode_iff_stored`). All of it is said about the front of the
bytes, so more bytes behind make no difference.
-/

namespace Reroute

namespace Body

open Bytes (slice numberAt)

variable {data : Bytes} {body : Body}

/-! ## What is stored where -/

/-- The first word of a fat header. -/
def headWord (data : Bytes) : UInt16 := .ofNat (numberAt data 0 2)

/-- How long a fat header says that it is, in units of four bytes. -/
def headerUnits (data : Bytes) : Nat := (headWord data >>> 12).toNat

/-- Where the code of a fat body ends. -/
def codeEnd (data : Bytes) : Nat := 4 * headerUnits data + numberAt data 4 4

/-- The regions in the sections behind a place: those of a chain that starts
at the next multiple of four. -/
def RegionsBehind (data : Bytes) (stop : Nat) (regions : List Region) : Prop :=
  ∃ place chain, stop ≤ place ∧ place < stop + 4 ∧ place % 4 = 0 ∧
    Section.Chain chain regions ∧ chain <+: data.drop place

/-- The regions of a fat body. Its header says whether there are sections. -/
def StoredRegions (data : Bytes) (regions : List Region) : Prop :=
  if headWord data &&& 0x8 = 0 then regions = [] else RegionsBehind data (codeEnd data) regions

/-- The body that is stored in the front of some bytes. -/
inductive Stored (data : Bytes) : Body → Prop where
  | tiny {first : UInt8} (head : data.head? = some first) (format : first &&& 3 = 2)
      (room : 1 + (first >>> 2).toNat ≤ data.length) :
      Stored data { code := slice data 1 (first >>> 2).toNat, maxStack := 8,
                    localSignature := .null, initLocals := false, isFat := false, regions := [] }
  | fat {first : UInt8} {regions : List Region} (head : data.head? = some first)
      (format : first &&& 3 = 3) (units : 3 ≤ headerUnits data) (whole : 12 ≤ data.length)
      (room : codeEnd data ≤ data.length) (sections : StoredRegions data regions) :
      Stored data { code := slice data (4 * headerUnits data) (numberAt data 4 4),
                    maxStack := .ofNat (numberAt data 2 2),
                    localSignature := ⟨.ofNat (numberAt data 8 4)⟩,
                    initLocals := decide (headWord data &&& 0x10 ≠ 0), isFat := true, regions }

/-! ## Reading the formats -/

theorem readTiny_eq_ok_iff {first : UInt8} {c : Cursor} :
    readTiny first (.start data) = (.ok body, c) ↔
      ∃ h : 1 + (first >>> 2).toNat ≤ data.length,
        body = { ofCode (slice data 1 (first >>> 2).toNat) with isFat := false } ∧
          c = ⟨data, 1 + (first >>> 2).toNat, h⟩ := by
  simp only [readTiny, Reader.advance_bind_eq_ok_iff, Reader.bytes_bind_eq_ok_iff, pure_eq_ok_iff,
    Cursor.start, Nat.zero_add]
  constructor
  · rintro ⟨_, h, rfl, rfl⟩
    exact ⟨h, rfl, rfl⟩
  · rintro ⟨h, rfl, rfl⟩
    exact ⟨Nat.le_of_add_right_le h, h, rfl, rfl⟩

/-- What is read behind the code of a fat body. -/
def readSections (word : UInt16) : Reader (List Region) :=
  if word &&& 0x8 = 0 then pure [] else Section.readChain

theorem readFat_eq_ok_iff {c : Cursor} :
    readFat (.start data) = (.ok body, c) ↔
      3 ≤ headerUnits data ∧ 12 ≤ data.length ∧ ∃ h : codeEnd data ≤ data.length, ∃ regions,
        readSections (headWord data) ⟨data, codeEnd data, h⟩ = (.ok regions, c) ∧
        body = { code := slice data (4 * headerUnits data) (numberAt data 4 4),
                 maxStack := .ofNat (numberAt data 2 2),
                 localSignature := ⟨.ofNat (numberAt data 8 4)⟩,
                 initLocals := decide (headWord data &&& 0x10 ≠ 0), isFat := true, regions } := by
  have hword : (LittleEndian.ofBytes (slice data 0 2) : UInt16) = headWord data := rfl
  have hunits : (headWord data >>> 12).toNat * 4 = 4 * headerUnits data := Nat.mul_comm ..
  have hsize : (LittleEndian.ofBytes (slice data 4 4) : UInt32).toNat = numberAt data 4 4 :=
    UInt32.toNat_ofNat_of_lt' Bytes.numberAt_lt
  have hsections {f : List Region → Reader Body} {c₁ : Cursor} :
      (if headWord data &&& 0x8 = 0 then pure [] >>= f else Section.readChain >>= f) c₁ =
        (readSections (headWord data) >>= f) c₁ := by
    rw [readSections]
    split <;> rfl
  rw [readFat, Reader.value_bind_eq_ok_iff]
  simp only [Cursor.start, LittleEndian.width, hword, hunits]
  by_cases hshort : 4 * headerUnits data < fatHeaderSize
  · simp only [if_pos hshort, Reader.fail_ne_ok, exists_false, false_iff]
    rintro ⟨h, -⟩
    rw [fatHeaderSize] at hshort
    omega
  · simp only [if_neg hshort, Reader.value_bind_eq_ok_iff, Reader.seek_bind_eq_ok_iff,
      Reader.bytes_bind_eq_ok_iff, LittleEndian.width, Nat.zero_add, Nat.reduceAdd, hsize,
      hsections, bind_eq_ok_iff (x := readSections _), pure_eq_ok_iff]
    rw [fatHeaderSize] at hshort
    constructor
    · rintro ⟨_, _, _, hwhole, _, hroom, regions, _, hregions, rfl, rfl⟩
      exact ⟨by omega, hwhole, hroom, regions, hregions, rfl⟩
    · rintro ⟨hunits, hwhole, hroom, regions, hregions, rfl⟩
      have hstart : 4 * headerUnits data ≤ data.length := Nat.le_of_add_right_le hroom
      exact ⟨by omega, by omega, by omega, hwhole, hstart, hroom, regions, c, hregions, rfl, rfl⟩

/-- The first byte tells the format. -/
theorem read_eq_ok_iff {c : Cursor} :
    read (.start data) = (.ok body, c) ↔ ∃ first, data.head? = some first ∧
      (first &&& 3 = 2 ∧ readTiny first (.start data) = (.ok body, c) ∨
        first &&& 3 = 3 ∧ readFat (.start data) = (.ok body, c)) := by
  cases data with
  | nil => simp [read, Reader.hasMore_eq_ok_iff, Cursor.hasMore, Cursor.start]
  | cons first rest =>
    have hmore : Reader.hasMore (.start (first :: rest)) = (.ok true, .start (first :: rest)) := rfl
    have hpeek : Reader.peek (.start (first :: rest)) = (.ok first, .start (first :: rest)) := rfl
    rw [read, bind_of_ok hmore, if_neg (by decide), bind_of_ok hpeek]
    simp only [List.head?_cons, Option.some.injEq, exists_eq_left']
    by_cases htiny : first &&& 3 = 2
    · simp [htiny]
    · by_cases hfat : first &&& 3 = 3
      · simp [hfat]
      · simp [htiny, hfat]

theorem exists_readChain_iff_behind {stop : Nat} {regions : List Region} (h : stop ≤ data.length) :
    (∃ c, Section.readChain ⟨data, stop, h⟩ = (.ok regions, c)) ↔
      RegionsBehind data stop regions := by
  have hpadding : (⟨data, stop, h⟩ : Cursor).padding 4 = (4 - stop % 4) % 4 := rfl
  constructor
  · rintro ⟨c, hread⟩
    obtain ⟨skipped, chain, hskipped, hchain, hpass⟩ := Section.readChain_eq_ok_iff.mp hread
    have hahead : data.drop stop = skipped ++ (chain ++ c.ahead) := by
      rw [← List.append_assoc]
      exact hpass.ahead
    refine ⟨stop + skipped.length, chain, by omega, by omega, by omega, hchain, ?_⟩
    rw [← List.drop_drop, hahead, List.drop_left]
    exact List.prefix_append ..
  · rintro ⟨place, chain, hbehind, hnear, haligned, hchain, hprefix⟩
    -- A chain has bytes, so its place is inside.
    have hplace : place < data.length := by
      rcases Nat.lt_or_ge place data.length with hinside | hend
      · exact hinside
      · rw [List.drop_eq_nil_of_le hend, List.prefix_nil] at hprefix
        exact absurd hprefix hchain.ne_nil
    have hskipped : (slice data stop (place - stop)).length =
        (⟨data, stop, h⟩ : Cursor).padding 4 := by
      rw [Bytes.length_slice (by omega)]
      omega
    have hahead : (⟨data, stop, h⟩ : Cursor).ahead =
        slice data stop (place - stop) ++ data.drop place := by
      have hdrop : (data.drop stop).drop (place - stop) = data.drop place := by
        rw [List.drop_drop, Nat.add_sub_of_le hbehind]
      rw [← hdrop]
      exact (List.take_append_drop ..).symm
    exact (Section.exists_readChain_iff hskipped hahead).mpr ⟨chain, hchain, hprefix⟩

theorem exists_readSections_iff {regions : List Region} (h : codeEnd data ≤ data.length) :
    (∃ c, readSections (headWord data) ⟨data, codeEnd data, h⟩ = (.ok regions, c)) ↔
      StoredRegions data regions := by
  unfold readSections StoredRegions
  split
  · simp only [pure_eq_ok_iff, exists_and_left, exists_eq', and_true]
    exact eq_comm
  · exact exists_readChain_iff_behind h

/-! ## Decoding -/

theorem RegionsBehind.append {stop : Nat} {regions : List Region} (more : Bytes)
    (h : RegionsBehind data stop regions) : RegionsBehind (data ++ more) stop regions := by
  obtain ⟨place, chain, hbehind, hnear, haligned, hchain, hprefix⟩ := h
  refine ⟨place, chain, hbehind, hnear, haligned, hchain, hprefix.trans ?_⟩
  rw [List.drop_append]
  exact List.prefix_append ..

theorem Stored.append (more : Bytes) (h : Stored data body) : Stored (data ++ more) body := by
  have hhead {first : UInt8} (h : data.head? = some first) :
      (data ++ more).head? = some first := by simp [h]
  have hlength : data.length ≤ (data ++ more).length := by simp
  cases h with
  | tiny head format room =>
    have hstored := Stored.tiny (hhead head) format (Nat.le_trans room hlength)
    rwa [Bytes.slice_append more room] at hstored
  | @fat _ regions head format units whole room sections =>
    have hnumber {offset width : Nat} (h : offset + width ≤ 12) :
        numberAt (data ++ more) offset width = numberAt data offset width :=
      Bytes.numberAt_append more (Nat.le_trans h whole)
    have hword : headWord (data ++ more) = headWord data := by
      rw [headWord, hnumber (by decide), headWord]
    have hunits : headerUnits (data ++ more) = headerUnits data := by
      rw [headerUnits, hword, headerUnits]
    have hend : codeEnd (data ++ more) = codeEnd data := by
      rw [codeEnd, hunits, hnumber (by decide), codeEnd]
    have hsections : StoredRegions (data ++ more) regions := by
      unfold StoredRegions at sections ⊢
      rw [hword, hend]
      split <;> rename_i hflag
      · rwa [if_pos hflag] at sections
      · rw [if_neg hflag] at sections
        exact sections.append more
    have hstored := Stored.fat (hhead head) format (hunits ▸ units) (Nat.le_trans whole hlength)
      (hend ▸ Nat.le_trans room hlength) hsections
    rwa [hunits, hword, hnumber (by decide), hnumber (by decide), hnumber (by decide),
      Bytes.slice_append more room] at hstored

theorem decode_eq_ok_iff_stored : decode data = .ok body ↔ Stored data body := by
  simp only [decode_eq_ok_iff, read_eq_ok_iff]
  constructor
  · rintro ⟨c, first, hhead, ⟨hformat, hread⟩ | ⟨hformat, hread⟩⟩
    · obtain ⟨hroom, rfl, -⟩ := readTiny_eq_ok_iff.mp hread
      exact .tiny hhead hformat hroom
    · obtain ⟨hunits, hwhole, hroom, regions, hregions, rfl⟩ := readFat_eq_ok_iff.mp hread
      exact .fat hhead hformat hunits hwhole hroom
        ((exists_readSections_iff hroom).mp ⟨c, hregions⟩)
  · intro h
    cases h with
    | tiny head format room =>
      exact ⟨_, _, head, .inl ⟨format, readTiny_eq_ok_iff.mpr ⟨room, rfl, rfl⟩⟩⟩
    | fat head format units whole room sections =>
      obtain ⟨c, hregions⟩ := (exists_readSections_iff room).mpr sections
      exact ⟨c, _, head, .inr ⟨format, readFat_eq_ok_iff.mpr ⟨units, whole, room, _, hregions, rfl⟩⟩⟩

/-- **Bodies are decoded by their formats.** The bytes that are accepted are
those that a tiny or a fat body is stored in, and what follows it is not
looked at. -/
theorem decode_iff_stored (data : Bytes) :
    (∀ body, decode data = .ok body ↔ Stored data body) ∧
      ∀ body more, decode data = .ok body → decode (data ++ more) = .ok body := by
  refine ⟨fun body => decode_eq_ok_iff_stored, fun body more h => ?_⟩
  exact decode_eq_ok_iff_stored.mpr ((decode_eq_ok_iff_stored.mp h).append more)

/-- A header of sixteen bytes, two bytes of code and a thin section behind two
bytes that are skipped. -/
def longHeader : Bytes :=
  [0x1B, 0x40, 2, 0, 2, 0, 0, 0, 1, 0, 0, 0x11, 9, 9, 9, 9, 0x00, 0x2A, 7, 7,
    0x01, 16, 0, 0, 0, 0, 1, 0, 2, 12, 0, 3, 5, 0, 0, 2]

theorem decode_longHeader :
    ∃ body, body.code = [0x00, 0x2A] ∧
      body.regions = [.catching 1 2 12 3 ⟨0x02000005⟩] ∧ Stored longHeader body ∧
      decode (longHeader ++ [0xFF]) = .ok body := by
  have hdecode : decode longHeader =
      .ok ⟨[0x00, 0x2A], 2, ⟨0x11000001⟩, true, true, [.catching 1 2 12 3 ⟨0x02000005⟩]⟩ :=
    answer_toOption_eq_some_iff.mp (by decide +kernel)
  obtain ⟨hstored, hmore⟩ := decode_iff_stored longHeader
  exact ⟨_, rfl, rfl, (hstored _).mp hdecode, hmore _ [0xFF] hdecode⟩

end Body

end Reroute
