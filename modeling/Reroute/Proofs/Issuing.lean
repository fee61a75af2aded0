import Reroute.Proofs.Interning
/-!
# Entries and issued tokens determine each other

Callers ask a fresh scope for tokens, one call after the other
(`Interner.askAll`). As long as no more than `Token.maxRow` different entries
are asked for, the scope lists them in the order in which each was first
asked for, and every call is answered by the token of the entry's place in
that list (`askAll_eq`). Everything else follows from these two facts: the
calls hand out one token for an entry and one entry for a token, and looking
a token up finds its entry and nothing else (`OneToOne`).
-/

namespace Reroute

theorem Token.eq_of_parts {t t' : Token} (htable : t.tableCode = t'.tableCode)
    (hrow : t.row = t'.row) : t = t' := by
  have hhigh := congrArg UInt8.toNat htable
  have hlow := congrArg UInt32.toNat hrow
  rw [toNat_tableCode, toNat_tableCode] at hhigh
  rw [toNat_row, toNat_row] at hlow
  have hvalue : t.value = t'.value := UInt32.toNat.inj (by omega)
  cases t
  cases t'
  simpa using hvalue

namespace Interner

variable {s : Interner} {entry : Entry} {token : Token} {asked : List Ask}

/-! ## One call after the other -/

theorem eraseDups_concat (past : List Entry) (entry : Entry) :
    (past ++ [entry]).eraseDups =
      if entry ∈ past then past.eraseDups else past.eraseDups ++ [entry] := by
  rw [List.eraseDups_append]
  by_cases h : entry ∈ past <;> simp [List.removeAll, h, List.eraseDups_cons]

theorem Consistent.lookup?_eq_none_iff (h : s.Consistent) :
    s.lookup? entry = none ↔ entry ∉ s.entries := by
  refine ⟨h.not_mem, fun hnot => ?_⟩
  cases hlookup : s.lookup? entry with
  | none => rfl
  | some token =>
      obtain ⟨index, hindex, -⟩ := h.lookup?_eq_some_iff.mp hlookup
      exact absurd (List.mem_of_getElem? hindex) hnot

/-- A call puts its entry behind the others, unless it is among them. -/
theorem Consistent.entries_intern (h : s.Consistent) {past : List Entry} (entry : Entry)
    (hpast : s.entries = past.eraseDups) :
    (s.intern entry).2.entries = (past ++ [entry]).eraseDups := by
  rw [eraseDups_concat, ← hpast]
  by_cases hmem : entry ∈ past
  · have hold : entry ∈ s.entries := by simpa [hpast] using hmem
    obtain ⟨token, hlookup⟩ : ∃ token, s.lookup? entry = some token :=
      Option.ne_none_iff_exists'.mp (mt h.lookup?_eq_none_iff.mp (not_not_intro hold))
    rw [intern_of_found hlookup, if_pos hmem]
  · have hnew : entry ∉ s.entries := by simpa [hpast] using hmem
    rw [entries_intern_of_new (h.lookup?_eq_none_iff.mpr hnew), if_neg hmem]

theorem Consistent.idxOf_eq (h : s.Consistent) {index : Nat}
    (hindex : s.entries[index]? = some entry) : s.entries.idxOf entry = index := by
  obtain ⟨hlt, rfl⟩ := List.getElem?_eq_some_iff.mp hindex
  exact h.nodup.idxOf_getElem index hlt

theorem Consistent.intern_eq (h : s.Consistent)
    (room : (s.intern entry).2.size ≤ Token.maxRow) :
    s.intern entry =
      (.ok (rowToken entry ((s.intern entry).2.entries.idxOf entry)), (s.intern entry).2) := by
  have hbehind := h.intern room
  cases hlookup : s.lookup? entry with
  | some token =>
      rw [intern_of_found hlookup]
      obtain ⟨index, hindex, rfl⟩ := h.lookup?_eq_some_iff.mp hlookup
      rw [h.idxOf_eq hindex]
  | none =>
      have hsize : s.size + 1 ≤ Token.maxRow := by
        rwa [size, entries_intern_of_new hlookup, List.length_append] at room
      rw [intern_of_new hlookup hsize] at hbehind ⊢
      rw [hbehind.idxOf_eq List.getElem?_concat_length]
      rfl

/-- The answers to calls that are made one after the other. -/
def internAll : List Entry → Interner → List (Except Error Token) × Interner
  | [], s => ([], s)
  | entry :: rest, s =>
    let (answer, s) := s.intern entry
    let (answers, s) := internAll rest s
    (answer :: answers, s)

theorem internAll_concat (entries : List Entry) (entry : Entry) (s : Interner) :
    (internAll (entries ++ [entry]) s).2 = ((internAll entries s).2.intern entry).2 := by
  induction entries generalizing s with
  | nil => rfl
  | cons first rest ih => exact ih _

theorem later_internAll (entries : List Entry) (s : Interner) : s.Later (internAll entries s).2 := by
  induction entries generalizing s with
  | nil => exact .refl s
  | cons first rest ih => exact ((Later.refl s).intern first).trans (ih _)

/-- Nothing gets into a scope but what was asked for. -/
theorem mem_of_mem_internAll {entries : List Entry} (h : entry ∈ (internAll entries s).2.entries) :
    entry ∈ s.entries ∨ entry ∈ entries := by
  induction entries generalizing s with
  | nil => exact .inl h
  | cons first rest ih =>
      rcases ih (s := (s.intern first).2) h with hmem | hmem
      · cases hlookup : s.lookup? first with
        | some token =>
            rw [intern_of_found hlookup] at hmem
            exact .inl hmem
        | none =>
            rw [entries_intern_of_new hlookup] at hmem
            rcases List.mem_append.mp hmem with hmem | hmem
            · exact .inl hmem
            · exact .inr (List.mem_cons.mpr (.inl (List.mem_singleton.mp hmem)))
      · exact .inr (List.mem_cons_of_mem first hmem)

theorem Consistent.mem_entries_intern (h : s.Consistent) (entry : Entry) :
    entry ∈ (s.intern entry).2.entries := by
  cases hlookup : s.lookup? entry with
  | some token =>
      rw [intern_of_found hlookup]
      exact Classical.not_not.mp (mt h.lookup?_eq_none_iff.mpr (by simp [hlookup]))
  | none =>
      rw [entries_intern_of_new hlookup]
      exact List.mem_append_right _ (List.mem_singleton.mpr rfl)

/-- Calls that there was room for are answered by the places of their entries. -/
theorem internAll_eq (entries : List Entry) (h : s.Consistent)
    (room : (internAll entries s).2.size ≤ Token.maxRow) :
    (internAll entries s).2.Consistent ∧
      (internAll entries s).1 = entries.map fun entry =>
        .ok (rowToken entry ((internAll entries s).2.entries.idxOf entry)) := by
  induction entries generalizing s with
  | nil => exact ⟨h, rfl⟩
  | cons entry rest ih =>
      have hlater := later_internAll rest (s.intern entry).2
      have hroom : (s.intern entry).2.size ≤ Token.maxRow := Nat.le_trans hlater.size_le room
      obtain ⟨hconsistent, hanswers⟩ := ih (h.intern hroom) room
      refine ⟨hconsistent, ?_⟩
      obtain ⟨behind, hbehind⟩ := hlater.entries_prefix
      have hanswer := congrArg Prod.fst (h.intern_eq hroom)
      rw [internAll, List.map_cons]
      dsimp only
      rw [hanswers, hanswer, ← hbehind, List.idxOf_append, if_pos (h.mem_entries_intern entry)]

theorem length_eraseDups_append_left (past more : List Entry) :
    past.eraseDups.length ≤ (past ++ more).eraseDups.length := by
  rw [List.eraseDups_append, List.length_append]
  exact Nat.le_add_right _ _

/-- A scope lists what was ever asked for. The induction carries the entries
that were asked for before, for these decide the places of those that follow. -/
theorem entries_internAll {past entries : List Entry} (h : s.Consistent)
    (hpast : s.entries = past.eraseDups)
    (room : (past ++ entries).eraseDups.length ≤ Token.maxRow) :
    (internAll entries s).2.entries = (past ++ entries).eraseDups := by
  induction entries generalizing past s with
  | nil => rw [internAll, hpast, List.append_nil]
  | cons entry rest ih =>
      have hsplit : past ++ entry :: rest = (past ++ [entry]) ++ rest := by simp
      rw [hsplit] at room ⊢
      have hentries := h.entries_intern entry hpast
      have hroom : (s.intern entry).2.size ≤ Token.maxRow := by
        rw [size, hentries]
        exact Nat.le_trans (length_eraseDups_append_left _ _) room
      exact ih (h.intern hroom) hentries room

theorem askAll_eq_internAll (asked : List Ask) (s : Interner) :
    askAll asked s = internAll (asked.map Ask.entry) s := by
  induction asked generalizing s with
  | nil => rfl
  | cons a rest ih => simp only [askAll, List.map_cons, internAll, ih]

/-- A scope behind any number of calls that there was room for. -/
theorem askAll_eq (past : List Entry) (asked : List Ask) (h : s.Consistent)
    (hpast : s.entries = past.eraseDups)
    (room : (past ++ asked.map Ask.entry).eraseDups.length ≤ Token.maxRow) :
    (askAll asked s).1 = asked.map (fun a =>
        .ok (rowToken a.entry ((past ++ asked.map Ask.entry).eraseDups.idxOf a.entry))) ∧
      (askAll asked s).2.entries = (past ++ asked.map Ask.entry).eraseDups ∧
      (askAll asked s).2.Consistent := by
  have hentries := entries_internAll h hpast room
  obtain ⟨hconsistent, hanswers⟩ :=
    internAll_eq (asked.map Ask.entry) h (by rw [size, hentries]; exact room)
  rw [hentries, List.map_map] at hanswers
  rw [askAll_eq_internAll]
  exact ⟨hanswers, hentries, hconsistent⟩

theorem later_askAll (asked : List Ask) (s : Interner) : s.Later (askAll asked s).2 := by
  rw [askAll_eq_internAll]
  exact later_internAll _ s

theorem askAll_append (asked more : List Ask) (s : Interner) :
    (askAll (asked ++ more) s).2 = (askAll more (askAll asked s).2).2 := by
  induction asked generalizing s with
  | nil => rfl
  | cons a rest ih => exact ih _

/-! ## What was issued for what -/

/-- The entries that callers mean, each where it was asked for first. -/
def distinct (asked : List Ask) : List Entry := (asked.map Ask.entry).eraseDups

/-- One of the calls on a fresh scope was for an entry and came back with a
token. -/
def Issued (asked : List Ask) (token : Token) (entry : Entry) : Prop :=
  ∃ index : Nat, (asked.map Ask.entry)[index]? = some entry ∧
    (askAll asked .empty).1[index]? = some (.ok token)

theorem issued_iff (room : (distinct asked).length ≤ Token.maxRow) :
    Issued asked token entry ↔
      entry ∈ distinct asked ∧ token = rowToken entry ((distinct asked).idxOf entry) := by
  obtain ⟨hanswers, -, -⟩ := askAll_eq [] asked consistent_empty rfl room
  rw [List.nil_append] at hanswers
  rw [Issued, hanswers, distinct, List.mem_eraseDups]
  constructor
  · rintro ⟨index, hentry, htoken⟩
    refine ⟨List.mem_of_getElem? hentry, ?_⟩
    simp only [List.getElem?_map, Option.map_eq_some_iff] at hentry htoken
    obtain ⟨a, ha, rfl⟩ := hentry
    obtain ⟨a', ha', htoken⟩ := htoken
    cases ha.symm.trans ha'
    exact (Except.ok.inj htoken).symm
  · rintro ⟨hmem, rfl⟩
    obtain ⟨index, hindex⟩ := List.mem_iff_getElem?.mp hmem
    refine ⟨index, hindex, ?_⟩
    simp only [List.getElem?_map, Option.map_eq_some_iff] at hindex ⊢
    obtain ⟨a, ha, rfl⟩ := hindex
    exact ⟨a, ha, rfl⟩

theorem entries_askAll (room : (distinct asked).length ≤ Token.maxRow) :
    (askAll asked .empty).2.entries = distinct asked := by
  have h := (askAll_eq [] asked consistent_empty rfl room).2.1
  rwa [List.nil_append] at h

theorem consistent_askAll (room : (distinct asked).length ≤ Token.maxRow) :
    (askAll asked .empty).2.Consistent :=
  (askAll_eq [] asked consistent_empty rfl room).2.2

theorem getElem?_idxOf_distinct (room : (distinct asked).length ≤ Token.maxRow)
    (hmem : entry ∈ distinct asked) :
    (askAll asked .empty).2.entries[(distinct asked).idxOf entry]? = some entry := by
  obtain ⟨index, hindex⟩ := List.mem_iff_getElem?.mp hmem
  rw [← entries_askAll room] at hindex ⊢
  rwa [(consistent_askAll room).idxOf_eq hindex]

/-- A token names what it was issued for, and nothing else names anything. -/
theorem get?_askAll_iff (room : (distinct asked).length ≤ Token.maxRow) :
    (askAll asked .empty).2.get? token = some entry ↔ Issued asked token entry := by
  have hsize : (askAll asked .empty).2.size ≤ Token.maxRow := by rwa [size, entries_askAll room]
  rw [issued_iff room]
  constructor
  · intro h
    obtain ⟨index, hrow, hindex, htable⟩ := get?_eq_some_iff.mp h
    -- The token of the entry's place has this row and this table too, so it is this token.
    obtain ⟨index', hrow', hindex', htable'⟩ := get?_eq_some_iff.mp (get?_rowToken hindex hsize)
    have hplace := (consistent_askAll room).idxOf_eq hindex
    have hplace' := (consistent_askAll room).idxOf_eq hindex'
    rw [← entries_askAll room, hplace]
    refine ⟨List.mem_of_getElem? hindex, ?_⟩
    exact Token.eq_of_parts (htable.symm.trans htable') (UInt32.toNat.inj (by omega))
  · rintro ⟨hmem, rfl⟩
    exact get?_rowToken (getElem?_idxOf_distinct room hmem) hsize

theorem parts_of_issued (room : (distinct asked).length ≤ Token.maxRow)
    (h : Issued asked token entry) :
    token.row.toNat = (distinct asked).idxOf entry + 1 ∧ token.tableCode = entry.table.code := by
  obtain ⟨index, hrow, hindex, htable⟩ := get?_eq_some_iff.mp ((get?_askAll_iff room).mpr h)
  rw [← entries_askAll room, (consistent_askAll room).idxOf_eq hindex]
  exact ⟨hrow, htable.symm⟩

/-- What callers of a fresh scope can rely on. -/
structure OneToOne (asked : List Ask) : Prop where
  /-- Every call comes back with a token. -/
  answered : ∀ a ∈ asked, ∃ token, Issued asked token a.entry
  one_token : ∀ {token token' entry}, Issued asked token entry → Issued asked token' entry →
    token = token'
  one_entry : ∀ {token entry entry'}, Issued asked token entry → Issued asked token entry' →
    entry = entry'
  /-- The row is the entry's place among all that were asked for, from one. -/
  row : ∀ {token entry}, Issued asked token entry →
    token.row.toNat = (distinct asked).idxOf entry + 1
  table : ∀ {token entry}, Issued asked token entry → token.tableCode = entry.table.code
  get?_iff : ∀ {token entry},
    (askAll asked .empty).2.get? token = some entry ↔ Issued asked token entry
  get?_null : (askAll asked .empty).2.get? .null = none
  get?_unknown : ∀ {token : Token}, (distinct asked).length < token.row.toNat →
    (askAll asked .empty).2.get? token = none
  /-- A row that is taken, under a table that is not the entry's. -/
  get?_wrong_table : ∀ {token token' entry}, Issued asked token entry →
    token'.row = token.row → token'.tableCode ≠ token.tableCode →
      (askAll asked .empty).2.get? token' = none
  size : (askAll asked .empty).2.size = (distinct asked).length
  /-- Asking again gives the same token and leaves the scope as it is. -/
  again : ∀ {token} (a : Ask), Issued asked token a.entry →
    (askAll asked .empty).2.intern a.entry = (.ok token, (askAll asked .empty).2)
  /-- No call that follows changes what a token names, not even one that there
  is no room for. -/
  kept : ∀ {token entry} (more : List Ask), Issued asked token entry →
    (askAll (asked ++ more) .empty).2.get? token = some entry

/-- **Tokens and entries determine each other** behind every sequence of calls
on a fresh scope that asks for no more different entries than there are rows. -/
theorem askAll_oneToOne (asked : List Ask)
    (room : (distinct asked).length ≤ Token.maxRow) : OneToOne asked where
  answered a ha := by
    have hmem : a.entry ∈ distinct asked :=
      List.mem_eraseDups.mpr (List.mem_map.mpr ⟨a, ha, rfl⟩)
    exact ⟨_, (issued_iff room).mpr ⟨hmem, rfl⟩⟩
  one_token h h' := by rw [((issued_iff room).mp h).2, ((issued_iff room).mp h').2]
  one_entry h h' := by
    rw [← get?_askAll_iff room] at h h'
    exact Option.some.inj (h.symm.trans h')
  row h := (parts_of_issued room h).1
  table h := (parts_of_issued room h).2
  get?_iff := get?_askAll_iff room
  get?_null := by
    refine Option.eq_none_iff_forall_ne_some.mpr fun entry h => ?_
    obtain ⟨index, hrow, -⟩ := get?_eq_some_iff.mp h
    exact absurd hrow (by simp [Token.null, Token.row])
  get?_unknown := by
    intro token hrow
    refine Option.eq_none_iff_forall_ne_some.mpr fun entry h => ?_
    obtain ⟨index, hindex, hentry, -⟩ := get?_eq_some_iff.mp h
    have hlt := (List.getElem?_eq_some_iff.mp hentry).1
    rw [entries_askAll room] at hlt
    omega
  get?_wrong_table := by
    intro token token' entry h hrow htable
    refine Option.eq_none_iff_forall_ne_some.mpr fun entry' h' => ?_
    obtain ⟨index, hindex, hentry, hcode⟩ := get?_eq_some_iff.mp ((get?_askAll_iff room).mpr h)
    obtain ⟨index', hindex', hentry', hcode'⟩ := get?_eq_some_iff.mp h'
    rw [hrow, hindex] at hindex'
    cases hindex'
    cases hentry.symm.trans hentry'
    exact htable (hcode'.symm.trans hcode)
  size := by rw [size, entries_askAll room]
  again := by
    intro token a h
    obtain ⟨hmem, rfl⟩ := (issued_iff room).mp h
    exact intern_of_found ((consistent_askAll room).lookup?_eq_some_iff.mpr
      ⟨_, getElem?_idxOf_distinct room hmem, rfl⟩)
  kept more h := by
    rw [askAll_append]
    exact (later_askAll more _).get?_eq_some ((get?_askAll_iff room).mpr h)

/-- A method of a generic type and of a plain one, asked for as methods and as
constructors, and a type that is asked for twice. -/
def someAsked : List Ask :=
  let list : TypeRef := ⟨⟨10⟩, "List<int>", true, false⟩
  let point : TypeRef := ⟨⟨11⟩, "Point", false, true⟩
  [.method ⟨⟨5⟩, "Add", some list, false, false⟩, .type point,
   .constructor ⟨⟨6⟩, ".ctor", some point, true, false⟩, .type point, .signature [0x07, 0x00],
   .constructor ⟨⟨5⟩, "Add", some list, false, false⟩]

theorem askAll_oneToOne_someAsked :
    (distinct someAsked).length = 4 ∧ OneToOne someAsked := by
  have hlength : (distinct someAsked).length = 4 := by decide +kernel
  exact ⟨hlength, askAll_oneToOne someAsked (by rw [hlength]; decide)⟩

end Interner

end Reroute
