import Reroute.Machine.Maps
import Reroute.Proofs.Numerals
/-!
# Looking an address up in a listing

A listing is a row of lines, of which each either shows a mapping (`Entry`) or has
another form (`Malformed`). Both are told by the text alone: what the fields of a
line are (`Fields`), and which texts are the bound of a mapping (`IsBound`). A line
that shows a mapping is read as that mapping, a line is skipped exactly if it has
another form (`ofLine?_eq_none_iff`), and so an address has the protection of the
first mapping that holds it (`find?_listing`).
-/

namespace Reroute

/-! ## Bytes of characters -/

namespace Text

theorem toList_loop (bytes : ByteArray) (i : Nat) (done : List UInt8) :
    ByteArray.toList.loop bytes i done = done.reverse ++ bytes.data.toList.drop i := by
  fun_induction ByteArray.toList.loop bytes i done with
  | case1 i done h ih =>
      have hlength : i < bytes.data.toList.length := h
      have hbyte : bytes.get! i = bytes.data.toList[i] := getElem!_pos bytes.data i h
      rw [ih, List.reverse_cons, List.append_assoc, List.drop_eq_getElem_cons hlength, hbyte]
      rfl
  | case2 i done h =>
      have hend : bytes.data.toList.drop i = [] := List.drop_eq_nil_of_le (Nat.le_of_not_lt h)
      rw [hend, List.append_nil]

/-- The characters of seven bits are their own bytes. -/
theorem toList_toUTF8_of_ascii {text : List Char} (h : ∀ c ∈ text, c.toNat < 0x80) :
    (String.ofList text).toUTF8.toList = text.map fun c => c.val.toUInt8 := by
  have hdata : text.utf8Encode.data.toList = text.map fun c => c.val.toUInt8 := by
    induction text with
    | nil => rfl
    | cons c text ih =>
        obtain ⟨hc, htext⟩ := List.forall_mem_cons.mp h
        have hsize : c.utf8Size = 1 := Char.utf8Size_eq_one_iff.mpr (Nat.le_of_lt_succ hc)
        have hone : [c].utf8Encode.data.toList = [c.val.toUInt8] := by
          rw [List.utf8Encode_singleton, String.utf8EncodeChar_eq_singleton hsize]
          rfl
        rw [List.utf8Encode_cons, ByteArray.data_append, Array.toList_append, hone, ih htext]
        rfl
  rw [String.toUTF8_eq_toByteArray, String.toByteArray_ofList, ByteArray.toList, toList_loop, hdata]
  rfl

end Text

namespace Mapping

/-! ## Splitting -/

theorem splitWhere_eq_splitOnP (cut : Char → Bool) (text : List Char) :
    splitWhere cut text = text.splitOnP cut := by
  induction text with
  | nil => exact List.splitOnP_nil.symm
  | cons c rest ih =>
      rw [splitWhere, List.splitOnP_cons_eq_if_modifyHead, ih]
      split
      · rfl
      · cases hrest : rest.splitOnP cut with
        | nil => exact absurd hrest (List.splitOnP_ne_nil cut rest)
        | cons first more => rfl

/-- The fields of a line, from the left: stretches that are as long as they can be
without a blank. -/
inductive Fields : List Char → List (List Char) → Prop where
  | none {blanks : List Char} (hblanks : ∀ c ∈ blanks, isBlank c = true) : Fields blanks []
  | next {blanks field rest : List Char} {more : List (List Char)}
      (hblanks : ∀ c ∈ blanks, isBlank c = true) (hne : field ≠ [])
      (hfield : ∀ c ∈ field, isBlank c = false) (hrest : ∀ c ∈ rest.head?, isBlank c = true)
      (hmore : Fields rest more) : Fields (blanks ++ (field ++ rest)) (field :: more)

theorem fields_blanks_append {blanks : List Char} (h : ∀ c ∈ blanks, isBlank c = true)
    (line : List Char) : fields (blanks ++ line) = fields line := by
  induction blanks with
  | nil => rfl
  | cons c blanks ih =>
      obtain ⟨hc, hblanks⟩ := List.forall_mem_cons.mp h
      rw [← ih hblanks, List.cons_append, fields, splitWhere, if_pos hc]
      rfl

theorem fields_field_append {field rest : List Char} (hne : field ≠ [])
    (hfield : ∀ c ∈ field, isBlank c = false) (hrest : ∀ c ∈ rest.head?, isBlank c = true) :
    fields (field ++ rest) = field :: fields rest := by
  have hkept : ∀ more : List (List Char), (field :: more).filter (fun field => !field.isEmpty) =
      field :: more.filter fun field => !field.isEmpty :=
    fun more => List.filter_cons_of_pos (by simpa using hne)
  rw [fields, fields, splitWhere_eq_splitOnP, splitWhere_eq_splitOnP]
  cases rest with
  | nil =>
      rw [List.append_nil, List.splitOnP_eq_singleton hfield, List.splitOnP_nil, hkept]
      rfl
  | cons blank rest =>
      have hblank : isBlank blank = true := hrest blank rfl
      rw [List.splitOnP_append_cons_of_forall_mem hfield _ hblank, hkept,
        List.splitOnP_cons_eq_if_modifyHead, if_pos hblank]
      rfl

theorem Fields.eq {line : List Char} {found : List (List Char)} (h : Fields line found) :
    fields line = found := by
  induction h with
  | none hblanks =>
      rename_i blanks
      have hempty := fields_blanks_append hblanks []
      rwa [List.append_nil] at hempty
  | next hblanks hne hfield hrest hmore ih =>
      rw [fields_blanks_append hblanks, fields_field_append hne hfield hrest, ih]

theorem Fields.cons_blank {c : Char} {line : List Char} {found : List (List Char)}
    (hc : isBlank c = true) (h : Fields line found) : Fields (c :: line) found := by
  cases h with
  | none hblanks => exact .none (List.forall_mem_cons.mpr ⟨hc, hblanks⟩)
  | next hblanks hne hfield hrest hmore =>
      exact .next (List.forall_mem_cons.mpr ⟨hc, hblanks⟩) hne hfield hrest hmore

/-- A character in front of a blank is a field of its own. -/
theorem Fields.cons_alone {c : Char} {line : List Char} {found : List (List Char)}
    (hc : isBlank c = false) (hhead : ∀ d ∈ line.head?, isBlank d = true) (h : Fields line found) :
    Fields (c :: line) ([c] :: found) :=
  .next (List.forall_mem_nil _) (List.cons_ne_nil c []) (List.forall_mem_singleton.mpr hc) hhead h

/-- A character in front of a field makes it longer. -/
theorem Fields.exists_cons {c : Char} {line : List Char} {found : List (List Char)}
    (hc : isBlank c = false) (h : Fields line found) : ∃ found', Fields (c :: line) found' := by
  cases h with
  | none hblanks =>
      have hhead : ∀ d ∈ line.head?, isBlank d = true :=
        fun d hd => hblanks d (List.mem_of_mem_head? hd)
      exact ⟨_, .cons_alone hc hhead (.none hblanks)⟩
  | @next blanks field rest more hblanks hne hfield hrest hmore =>
      cases blanks with
      | nil =>
          have hlonger : ∀ d ∈ c :: field, isBlank d = false :=
            List.forall_mem_cons.mpr ⟨hc, hfield⟩
          exact ⟨_, .next (List.forall_mem_nil _) (List.cons_ne_nil c field) hlonger hrest hmore⟩
      | cons blank blanks =>
          have hhead : ∀ d ∈ (blank :: blanks ++ (field ++ rest)).head?, isBlank d = true := by
            rintro d ⟨⟩
            exact hblanks _ List.mem_cons_self
          exact ⟨_, .cons_alone hc hhead (.next hblanks hne hfield hrest hmore)⟩

theorem exists_fields (line : List Char) : ∃ found, Fields line found := by
  induction line with
  | nil => exact ⟨[], .none (List.forall_mem_nil _)⟩
  | cons c rest ih =>
      obtain ⟨found, hfound⟩ := ih
      cases hc : isBlank c with
      | true => exact ⟨found, hfound.cons_blank hc⟩
      | false => exact hfound.exists_cons hc

theorem fields_eq_iff {line : List Char} {found : List (List Char)} :
    fields line = found ↔ Fields line found := by
  constructor
  · rintro rfl
    obtain ⟨found, hfound⟩ := exists_fields line
    rwa [hfound.eq]
  · exact Fields.eq

/-! ## Bounds -/

theorem splitDash_append {low : List Char} (h : '-' ∉ low) (high : List Char) :
    splitDash (low ++ '-' :: high) = some (low, high) := by
  induction low with
  | nil => rfl
  | cons c low ih =>
      obtain ⟨hc, hlow⟩ := not_or.mp (List.mem_cons.not.mp h)
      rw [List.cons_append, splitDash, ih hlow]
      · rfl
      · exact fun hdash => hc hdash.symm

theorem splitDash_eq_none {text : List Char} (h : '-' ∉ text) : splitDash text = none := by
  induction text with
  | nil => rfl
  | cons c text ih =>
      obtain ⟨hc, htext⟩ := not_or.mp (List.mem_cons.not.mp h)
      rw [splitDash, ih htext]
      · rfl
      · exact fun hdash => hc hdash.symm

/-- A text that is the bound of a mapping: a numeral of an address, perhaps behind a
plus sign. -/
def IsBound (text : List Char) (bound : UInt64) : Prop :=
  ∃ sign digits, text = sign ++ digits ∧ (sign = [] ∨ sign = ['+']) ∧ digits ≠ [] ∧
    Text.Spells digits bound.toNat

/-- A digit is no blank and no sign. -/
theorem plain_of_isHexDigit {c : Char} {value : Nat} (h : Text.IsHexDigit c value) :
    isBlank c = false ∧ c ≠ '-' ∧ c ≠ '+' := by
  have hlt := h.lt
  rcases h with h | h
  · interval_cases value <;> cases h <;> decide
  · interval_cases value <;> cases h <;> decide

/-- The address that digits without a sign spell. -/
def unsigned? (digits : List Char) : Option UInt64 :=
  if digits.isEmpty then none
  else
    (Text.numberOfHex? digits).bind fun n =>
      if n < UInt64.size then some (UInt64.ofNat n) else none

theorem bound?_plus (digits : List Char) : bound? ('+' :: digits) = unsigned? digits := rfl

theorem bound?_of_head_ne {text : List Char} (h : text.head? ≠ some '+') :
    bound? text = unsigned? text := by
  unfold bound?
  split
  · exact absurd rfl h
  · rfl

theorem unsigned?_eq_some_iff {digits : List Char} {bound : UInt64} :
    unsigned? digits = some bound ↔ digits ≠ [] ∧ Text.Spells digits bound.toNat := by
  unfold unsigned?
  constructor
  · intro h
    split at h
    · cases h
    · rename_i hne
      obtain ⟨n, hn, hfits⟩ := Option.bind_eq_some_iff.mp h
      split at hfits
      · rename_i hlt
        cases hfits
        rw [UInt64.toNat_ofNat_of_lt' hlt]
        exact ⟨fun h => hne (List.isEmpty_iff.mpr h), Text.numberOfHex?_eq_some_iff.mp hn⟩
      · cases hfits
  · rintro ⟨hne, hspells⟩
    rw [if_neg fun h => hne (List.isEmpty_iff.mp h), Text.numberOfHex?_eq_some_iff.mpr hspells,
      Option.bind_some, if_pos bound.toNat_lt, UInt64.ofNat_toNat]

theorem bound?_eq_some_iff {text : List Char} {bound : UInt64} :
    bound? text = some bound ↔ IsBound text bound := by
  constructor
  · intro h
    by_cases hhead : text.head? = some '+'
    · obtain ⟨digits, rfl⟩ := List.head?_eq_some_iff.mp hhead
      rw [bound?_plus] at h
      exact ⟨['+'], digits, rfl, .inr rfl, unsigned?_eq_some_iff.mp h⟩
    · rw [bound?_of_head_ne hhead] at h
      exact ⟨[], text, rfl, .inl rfl, unsigned?_eq_some_iff.mp h⟩
  · rintro ⟨sign, digits, rfl, rfl | rfl, hdigits⟩
    · -- no digit is taken for a sign
      have hhead : digits.head? ≠ some '+' := by
        intro h
        obtain ⟨value, hvalue⟩ := hdigits.2.forall_mem _ (List.mem_of_mem_head? h)
        exact (plain_of_isHexDigit hvalue).2.2 rfl
      rw [List.nil_append, bound?_of_head_ne hhead]
      exact unsigned?_eq_some_iff.mpr hdigits
    · exact unsigned?_eq_some_iff.mpr hdigits

/-! ## Lines of another form -/

/-- The line shows no mapping: it has too few fields, no dash between two bounds, or
something that is no bound next to the first dash. -/
inductive Malformed (line : List Char) : Prop where
  | short {found : List (List Char)} (hfields : Fields line found) (hlength : found.length < 2)
  | undashed {range : List Char} {more : List (List Char)} (hfields : Fields line (range :: more))
      (hdash : '-' ∉ range)
  | unbounded {low high : List Char} {more : List (List Char)}
      (hfields : Fields line ((low ++ '-' :: high) :: more)) (hdash : '-' ∉ low)
      (hbound : (∀ bound, ¬IsBound low bound) ∨ ∀ bound, ¬IsBound high bound)

theorem bound?_eq_none_iff {text : List Char} :
    bound? text = none ↔ ∀ bound, ¬IsBound text bound := by
  simp only [Option.eq_none_iff_forall_ne_some, ne_eq, bound?_eq_some_iff]

theorem ofLine?_of_fields {line low high marks : List Char} {more : List (List Char)}
    (hfields : fields line = (low ++ '-' :: high) :: marks :: more) (hdash : '-' ∉ low) :
    ofLine? line = (bound? low).bind fun start =>
      (bound? high).map fun stop => ⟨start, stop, permissions marks⟩ := by
  unfold ofLine?
  simp only [hfields, splitDash_append hdash]
  show ((bound? low).bind fun start =>
    (bound? high).bind fun stop => some (Mapping.mk start stop (permissions marks))) = _
  simp only [Option.map_eq_bind, Function.comp_def]

theorem ofLine?_of_short {line : List Char} (h : (fields line).length < 2) :
    ofLine? line = none := by
  unfold ofLine?
  split
  · rename_i hfields
    rw [hfields] at h
    exact absurd h (by simp)
  · rfl

/-- **A line is skipped exactly if it has another form.** -/
theorem ofLine?_eq_none_iff {line : List Char} : ofLine? line = none ↔ Malformed line := by
  constructor
  · intro h
    have hline := fields_eq_iff.mp (rfl : fields line = fields line)
    rcases hfound : fields line with _ | ⟨range, _ | ⟨marks, more⟩⟩
    · exact .short hline (by rw [hfound]; exact Nat.zero_lt_two)
    · exact .short hline (by rw [hfound]; exact Nat.one_lt_two)
    · rw [hfound] at hline
      by_cases hdash : '-' ∈ range
      · obtain ⟨low, high, rfl, hlow⟩ := List.eq_append_cons_of_mem hdash
        refine .unbounded hline hlow ?_
        rw [ofLine?_of_fields hfound hlow] at h
        rw [← bound?_eq_none_iff, ← bound?_eq_none_iff]
        cases hstart : bound? low with
        | none => exact .inl rfl
        | some start =>
            rw [hstart, Option.bind_some, Option.map_eq_none_iff] at h
            exact .inr h
      · exact .undashed hline hdash
  · rintro (⟨hfields, hlength⟩ | ⟨hfields, hdash⟩ | ⟨hfields, hdash, hbound⟩)
    · rw [← hfields.eq] at hlength
      exact ofLine?_of_short hlength
    · rename_i range more
      unfold ofLine?
      cases more with
      | nil => rw [hfields.eq]
      | cons marks more =>
          simp only [hfields.eq, splitDash_eq_none hdash]
          rfl
    · rename_i low high more
      cases more with
      | nil => exact ofLine?_of_short (by rw [hfields.eq]; exact Nat.one_lt_two)
      | cons marks more =>
          rw [ofLine?_of_fields hfields.eq hdash]
          rcases hbound with hlow | hhigh
          · rw [bound?_eq_none_iff.mpr hlow]
            rfl
          · rw [bound?_eq_none_iff.mpr hhigh]
            cases bound? low <;> rfl

/-! ## Permissions -/

theorem toUInt8_eq_dash_iff {c : Char} (h : c.toNat < 0x80) : c.val.toUInt8 = 0x2D ↔ c = '-' := by
  constructor
  · intro hbyte
    have hnat : c.toNat % 256 = 45 := congrArg UInt8.toNat hbyte
    exact Char.toNat_inj.mp (show c.toNat = 45 by omega)
  · rintro rfl
    rfl

theorem permissions_of_ascii {marks : List Char} (h : ∀ c ∈ marks, c.toNat < 0x80) :
    permissions marks =
      ⟨marks[0]?.any (· != '-'), marks[1]?.any (· != '-'), marks[2]?.any (· != '-')⟩ := by
  have hgranted : ∀ place : Nat, (marks.map fun c => c.val.toUInt8)[place]?.any (· != 0x2D) =
      marks[place]?.any (· != '-') := by
    intro place
    rw [List.getElem?_map]
    cases hmark : marks[place]? with
    | none => rfl
    | some mark =>
        have hlt := h mark (List.mem_of_getElem? hmark)
        rw [Option.map_some, Option.any_some, Option.any_some, Bool.eq_iff_iff, bne_iff_ne,
          bne_iff_ne, ne_eq, ne_eq, toUInt8_eq_dash_iff hlt]
  unfold permissions
  simp only [Text.toList_toUTF8_of_ascii h, hgranted]

/-! ## Lines that show a mapping -/

/-- A mapping as it is listed: its bounds, the marks of its permissions, and what else
stands on its line. -/
structure Entry where
  start : UInt64
  stop : UInt64
  marks : List Char
  rest : String
  marked : marks ≠ []
  visible : ∀ c ∈ marks, 0x20 < c.toNat ∧ c.toNat < 0x7F
  oneLine : '\n' ∉ rest.toList

namespace Entry

def text (e : Entry) : String :=
  Text.hexPadded 8 e.start.toNat ++ "-" ++ Text.hexPadded 8 e.stop.toNat ++ " " ++
    String.ofList e.marks ++ " " ++ e.rest

/-- A right is granted exactly where the mark in its place is not a dash. -/
def protection (e : Entry) : Protection :=
  ⟨e.marks[0]?.any (· != '-'), e.marks[1]?.any (· != '-'), e.marks[2]?.any (· != '-')⟩

def mapping (e : Entry) : Mapping := ⟨e.start, e.stop, e.protection⟩

theorem toList_text (e : Entry) : e.text.toList =
    ((Text.hexPadded 8 e.start.toNat).toList ++ '-' :: (Text.hexPadded 8 e.stop.toNat).toList) ++
      ([' '] ++ (e.marks ++ ([' '] ++ e.rest.toList))) := by
  simp [text]

theorem isBlank_of_visible {c : Char} (h : 0x20 < c.toNat ∧ c.toNat < 0x7F) :
    isBlank c = false := by
  obtain ⟨hlow, hhigh⟩ := h
  unfold isBlank
  simp only [Bool.or_eq_false_iff, Bool.and_eq_false_iff, decide_eq_false_iff_not,
    beq_eq_false_iff_ne]
  omega

theorem plain_hexPadded (width n : Nat) : ∀ c ∈ (Text.hexPadded width n).toList,
    isBlank c = false ∧ c ≠ '-' ∧ c ≠ '+' := by
  intro c hc
  obtain ⟨value, hvalue⟩ := (Text.spells_hexPadded width n).forall_mem c hc
  exact plain_of_isHexDigit hvalue

theorem fields_text (e : Entry) : fields e.text.toList =
    ((Text.hexPadded 8 e.start.toNat).toList ++ '-' :: (Text.hexPadded 8 e.stop.toNat).toList) ::
      e.marks :: fields e.rest.toList := by
  have hblank : ∀ c ∈ [' '], isBlank c = true := List.forall_mem_singleton.mpr rfl
  have hhead : ∀ rest : List Char, ∀ c ∈ ([' '] ++ rest).head?, isBlank c = true := by
    rintro rest c ⟨⟩
    rfl
  have hbounds : ∀ c ∈ (Text.hexPadded 8 e.start.toNat).toList ++
      '-' :: (Text.hexPadded 8 e.stop.toNat).toList, isBlank c = false := by
    refine List.forall_mem_append.mpr ⟨fun c hc => (plain_hexPadded 8 _ c hc).1, ?_⟩
    exact List.forall_mem_cons.mpr ⟨rfl, fun c hc => (plain_hexPadded 8 _ c hc).1⟩
  have hmarks : ∀ c ∈ e.marks, isBlank c = false := fun c hc => isBlank_of_visible (e.visible c hc)
  rw [toList_text, fields_field_append (by simp) hbounds (hhead _), fields_blanks_append hblank,
    fields_field_append e.marked hmarks (hhead _), fields_blanks_append hblank]

theorem oneLine_text (e : Entry) : '\n' ∉ e.text.toList := by
  have hbreak : ∀ {text : List Char}, (∀ c ∈ text, isBlank c = false) → '\n' ∉ text := by
    intro text htext hmem
    exact absurd (htext _ hmem) (by decide)
  have hbounds : ∀ n, '\n' ∉ (Text.hexPadded 8 n).toList :=
    fun n => hbreak fun c hc => (plain_hexPadded 8 n c hc).1
  have hmarks : '\n' ∉ e.marks := hbreak fun c hc => isBlank_of_visible (e.visible c hc)
  rw [toList_text]
  simp [hbounds, hmarks, e.oneLine]

theorem isBound_hexPadded (bound : UInt64) :
    IsBound (Text.hexPadded 8 bound.toNat).toList bound :=
  ⟨[], (Text.hexPadded 8 bound.toNat).toList, (List.nil_append _).symm, .inl rfl,
    Text.hexPadded_ne_nil 8 _, Text.spells_hexPadded 8 _⟩

/-- The line of a mapping is read as that mapping. -/
theorem ofLine?_text (e : Entry) : ofLine? e.text.toList = some e.mapping := by
  have hdash : '-' ∉ (Text.hexPadded 8 e.start.toNat).toList :=
    fun h => (plain_hexPadded _ _ _ h).2.1 rfl
  have hascii : ∀ c ∈ e.marks, c.toNat < 0x80 :=
    fun c hc => Nat.lt_trans (e.visible c hc).2 (by decide)
  rw [ofLine?_of_fields e.fields_text hdash, bound?_eq_some_iff.mpr (isBound_hexPadded e.start),
    bound?_eq_some_iff.mpr (isBound_hexPadded e.stop), permissions_of_ascii hascii]
  rfl

end Entry

/-! ## Listings -/

/-- A line of a listing: one that shows a mapping, or one of another form. -/
inductive Line where
  | entry (e : Entry)
  | other (text : String) (oneLine : '\n' ∉ text.toList) (malformed : Malformed text.toList)

namespace Line

/-- The line without any text. -/
def empty : Line :=
  .other "" List.not_mem_nil (.short (.none (List.forall_mem_nil _)) Nat.zero_lt_two)

def text : Line → String
  | .entry e => e.text
  | .other text .. => text

def shown? : Line → Option Entry
  | .entry e => some e
  | .other .. => none

theorem oneLine (line : Line) : '\n' ∉ line.text.toList := by
  cases line with
  | entry e => exact e.oneLine_text
  | other text oneLine => exact oneLine

theorem ofLine?_text (line : Line) :
    ofLine? line.text.toList = line.shown?.map Entry.mapping := by
  cases line with
  | entry e => exact e.ofLine?_text
  | other text oneLine malformed => exact ofLine?_eq_none_iff.mpr malformed

end Line

/-- The text of a listing, one line below the other. -/
def listing (lines : List Line) : String := String.intercalate "\n" (lines.map Line.text)

/-- A line break at the end of a listing is one more line, which is empty. -/
theorem listing_concat_empty {lines : List Line} (h : lines ≠ []) :
    listing (lines ++ [.empty]) = listing lines ++ "\n" := by
  have hlines : lines.map Line.text ≠ [] := List.map_eq_nil_iff.not.mpr h
  have hlast : [Line.empty].map Line.text ≠ [] := List.cons_ne_nil _ _
  rw [listing, listing, List.map_append, String.intercalate_append_of_ne_nil hlines hlast]
  exact String.append_empty

theorem ofListing_listing (lines : List Line) :
    ofListing (listing lines) = (lines.filterMap Line.shown?).map Entry.mapping := by
  have hread : ∀ texts : List (List Char), texts = lines.map (·.text.toList) →
      texts.filterMap ofLine? = (lines.filterMap Line.shown?).map Entry.mapping := by
    rintro _ rfl
    rw [List.filterMap_map, List.map_filterMap]
    exact congrArg (lines.filterMap ·) (funext Line.ofLine?_text)
  cases lines with
  | nil => rfl -- a listing without lines is read as one empty line
  | cons line lines =>
      have hlines : ∀ text ∈ ((line :: lines).map Line.text).map String.toList, '\n' ∉ text := by
        simp only [List.map_map, List.forall_mem_map]
        exact fun line _ => line.oneLine
      refine hread _ ?_
      rw [splitWhere_eq_splitOnP, listing, String.toList_intercalate]
      exact (List.splitOn_intercalate '\n' hlines (by simp)).trans (by simp)

/-! ## Lines that are written -/

theorem toList_permissionText (p : Protection) : (permissionText p).toList =
    [if p.read then 'r' else '-', if p.write then 'w' else '-',
      if p.execute then 'x' else '-', 'p'] :=
  String.toList_ofList

theorem visible_mark {mark : Char} (granted : Bool) (h : 0x20 < mark.toNat ∧ mark.toNat < 0x7F) :
    0x20 < (if granted then mark else '-').toNat ∧
      (if granted then mark else '-').toNat < 0x7F := by
  have hdash : 0x20 < '-'.toNat ∧ '-'.toNat < 0x7F := by decide
  cases granted with
  | true => exact h
  | false => exact hdash

/-- What a mapping is of, in one line. -/
abbrev Label := { rest : String // '\n' ∉ rest.toList }

/-- A mapping as it is written, with what it is of. -/
def entry (m : Mapping) (rest : String) (oneLine : '\n' ∉ rest.toList) : Entry where
  start := m.start
  stop := m.stop
  marks := (permissionText m.protection).toList
  rest := rest
  marked := by
    rw [toList_permissionText]
    exact List.cons_ne_nil _ _
  visible := by
    rw [toList_permissionText]
    simp only [List.forall_mem_cons]
    exact ⟨visible_mark _ (by decide), visible_mark _ (by decide), visible_mark _ (by decide),
      by decide, List.forall_mem_nil _⟩
  oneLine := oneLine

theorem text_entry (m : Mapping) {rest : String} (oneLine : '\n' ∉ rest.toList) :
    (m.entry rest oneLine).text = m.line rest := by
  rw [Entry.text, entry, String.ofList_toList, line]

theorem protection_entry (m : Mapping) {rest : String} (oneLine : '\n' ∉ rest.toList) :
    (m.entry rest oneLine).protection = m.protection := by
  unfold Entry.protection entry
  simp only [toList_permissionText]
  obtain ⟨start, stop, ⟨read, write, execute⟩⟩ := m
  cases read <;> cases write <;> cases execute <;> rfl

/-! ## Looking up -/

theorem find?_lines (lines : List Line) (address : UInt64) :
    find? (listing lines) address =
      ((lines.filterMap Line.shown?).find? fun e =>
        e.start ≤ address ∧ address < e.stop).map Entry.protection := by
  have hholds : (fun m : Mapping => m.contains address) ∘ Entry.mapping =
      fun e => decide (e.start ≤ address ∧ address < e.stop) :=
    funext fun _ => (Bool.decide_and ..).symm
  rw [find?, ofListing_listing, List.find?_map, Option.map_map, hholds]
  rfl

/-- A line break at the end of a listing changes nothing. -/
theorem find?_lines_break (lines : List Line) (address : UInt64) :
    find? (listing lines ++ "\n") address = find? (listing lines) address := by
  by_cases hnone : lines = []
  · subst hnone
    have hbreak : listing [] ++ "\n" = listing [.empty, .empty] := rfl
    rw [hbreak, find?_lines, find?_lines]
    rfl
  · rw [← listing_concat_empty hnone, find?_lines, find?_lines, List.filterMap_append]
    simp [Line.empty, Line.shown?]

/-- What is written of mappings, one below the other. -/
def writtenText (written : List (Mapping × Label)) : String :=
  String.intercalate "\n" (written.map fun w => w.1.line w.2)

/-- Mappings that are written are found. -/
theorem find?_writtenText (written : List (Mapping × Label)) (address : UInt64) :
    find? (writtenText written) address =
      (written.find? fun w => w.1.contains address).map fun w => w.1.protection := by
  have htext : writtenText written =
      listing (written.map fun w => .entry (w.1.entry w.2.1 w.2.2)) := by
    rw [writtenText, listing, List.map_map]
    refine congrArg _ (List.map_congr_left fun w _ => ?_)
    exact (w.1.text_entry w.2.2).symm
  have hholds : (fun e : Entry => decide (e.start ≤ address ∧ address < e.stop)) ∘
      (fun w : Mapping × Label => w.1.entry w.2.1 w.2.2) = fun w => w.1.contains address :=
    funext fun _ => Bool.decide_and ..
  have hprotection : Entry.protection ∘ (fun w : Mapping × Label => w.1.entry w.2.1 w.2.2) =
      fun w => w.1.protection := funext fun w => w.1.protection_entry w.2.2
  have hshown : (written.map fun w => Line.entry (w.1.entry w.2.1 w.2.2)).filterMap Line.shown? =
      written.map fun w => w.1.entry w.2.1 w.2.2 := by
    rw [List.filterMap_map, ← List.filterMap_eq_map]
    rfl
  rw [htext, find?_lines, hshown, List.find?_map, Option.map_map, hholds, hprotection]

/-- **An address has the protection of the first mapping that holds it**, whatever
other lines stand around it, and whether the last line ends with a break or not. So what
is written of mappings is read as these mappings. -/
theorem find?_listing (lines : List Line) (address : UInt64) :
    (find? (listing lines) address =
      ((lines.filterMap Line.shown?).find? fun e =>
        e.start ≤ address ∧ address < e.stop).map Entry.protection) ∧
    (find? (listing lines ++ "\n") address = find? (listing lines) address) ∧
    ∀ written : List (Mapping × Label), find? (writtenText written) address =
      (written.find? fun w => w.1.contains address).map fun w => w.1.protection :=
  ⟨find?_lines lines address, find?_lines_break lines address,
    fun written => find?_writtenText written address⟩

/-- Where two ranges touch, the address is in the second one. -/
example : find? "garbage line\n00001000-00002000 rw-p 0\n00002000-00003000 r-xp 0\n" 0x2000 =
    some .code := by decide +kernel

end Mapping

end Reroute
