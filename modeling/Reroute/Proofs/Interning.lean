import Reroute.Entity.Interner
import Reroute.Proofs.Run
/-!
# Tokens and the entries that they name

A scope is reached from the empty one by interning, and it stays
`Consistent` for as long as all rows fit a token: an entry has one row at
most, and the token on record for it is the token of that row. Interning
only ever puts entries behind those that are there, so a token goes on
naming what it named. Everything that a clone is made by grows its scope in
this way (`Interning.Grows`), which is all that later proofs need to know of
the scope.
-/

namespace Reroute

/-! ## The parts of a token -/

namespace Token

theorem toNat_row (t : Token) : t.row.toNat = t.value.toNat % 0x1000000 := by
  rw [row, UInt32.toNat_and]
  exact Nat.and_two_pow_sub_one_eq_mod _ 24

theorem toNat_tableCode (t : Token) : t.tableCode.toNat = t.value.toNat / 0x1000000 := by
  have hlt := t.value.toNat_lt
  rw [tableCode, UInt32.toNat_toUInt8, UInt32.toNat_shiftRight]
  show t.value.toNat >>> 24 % 256 = _
  rw [Nat.shiftRight_eq_div_pow]
  omega

/-- The byte of the table stands above the row, if the row is not too great. -/
theorem toNat_value_ofParts {table : Table} {row : UInt32} (h : row.toNat ≤ maxRow) :
    (ofParts table row).value.toNat = table.code.toNat * 0x1000000 + row.toNat := by
  have hcode := table.code.toNat_lt
  have hrow : row.toNat < 0x1000000 := Nat.lt_succ_of_le h
  have hlow : row.toNat &&& 0xFFFFFF = row.toNat := by
    rw [show row.toNat &&& 0xFFFFFF = row.toNat % 0x1000000 from
      Nat.and_two_pow_sub_one_eq_mod _ 24]
    exact Nat.mod_eq_of_lt hrow
  have hhigh : table.code.toNat <<< 24 % 4294967296 = table.code.toNat * 0x1000000 := by
    rw [Nat.shiftLeft_eq]
    omega
  show ((table.code.toUInt32 <<< 24) ||| (row &&& 0x00FFFFFF)).toNat = _
  rw [UInt32.toNat_or, UInt32.toNat_shiftLeft, UInt32.toNat_and, UInt8.toNat_toUInt32]
  show table.code.toNat <<< 24 % 4294967296 ||| row.toNat &&& 0xFFFFFF = _
  rw [hlow, hhigh, ← Nat.shiftLeft_eq _ 24, Nat.shiftLeft_add_eq_or_of_lt hrow]

theorem row_ofParts {table : Table} {row : UInt32} (h : row.toNat ≤ maxRow) :
    (ofParts table row).row = row := by
  have hrow : row.toNat < 0x1000000 := Nat.lt_succ_of_le h
  apply UInt32.toNat.inj
  rw [toNat_row, toNat_value_ofParts h]
  omega

theorem tableCode_ofParts {table : Table} {row : UInt32} (h : row.toNat ≤ maxRow) :
    (ofParts table row).tableCode = table.code := by
  have hrow : row.toNat < 0x1000000 := Nat.lt_succ_of_le h
  apply UInt8.toNat.inj
  rw [toNat_tableCode, toNat_value_ofParts h]
  omega

theorem isNull_eq_true_iff {t : Token} : t.isNull = true ↔ t = .null := by
  cases t
  simp [isNull, null]

end Token

/-! ## States of a scope -/

namespace Interner

/-- A later state of a scope, of which more may have been asked since. -/
inductive Later : Interner → Interner → Prop where
  | refl (s : Interner) : Later s s
  | intern {s s' : Interner} (h : Later s s') (entry : Entry) : Later s (s'.intern entry).2

/-- The states of a scope that was empty once. -/
def Reachable (s : Interner) : Prop := Later empty s

/-- The token of an entry behind `index` others. -/
def rowToken (entry : Entry) (index : Nat) : Token :=
  .ofParts entry.table (UInt32.ofNat (index + 1))

/-- No entry has two rows, and the token on record for it is that of its row. -/
structure Consistent (s : Interner) : Prop where
  nodup : s.entries.Nodup
  lookup?_eq_some_iff : ∀ {entry token}, s.lookup? entry = some token ↔
    ∃ index, s.entries[index]? = some entry ∧ rowToken entry index = token

variable {s s' s'' : Interner} {entry : Entry} {token : Token}

theorem intern_of_found (h : s.lookup? entry = some token) : s.intern entry = (.ok token, s) := by
  rw [intern, h]

theorem intern_of_new (h : s.lookup? entry = none) (room : s.size + 1 ≤ Token.maxRow) :
    s.intern entry =
      (.ok (rowToken entry s.size),
        ⟨s.entries ++ [entry], (entry, rowToken entry s.size) :: s.tokens⟩) := by
  have htoken : tokenAt entry s.size = .ok (rowToken entry s.size) := if_pos room
  rw [intern, h]
  simp only [append, htoken]
  rfl

/-- Interning gives the token on record, or records the one that it gives. -/
theorem intern_cases (s : Interner) (entry : Entry) :
    (∃ token, s.lookup? entry = some token ∧ s.intern entry = (.ok token, s)) ∨
    (s.lookup? entry = none ∧ s.size < Token.maxRow ∧ s.intern entry =
      (.ok (rowToken entry s.size),
        ⟨s.entries ++ [entry], (entry, rowToken entry s.size) :: s.tokens⟩)) ∨
    (s.lookup? entry = none ∧ ∃ e, s.intern entry = (.error e, ⟨s.entries ++ [entry], s.tokens⟩)) := by
  cases hlookup : s.lookup? entry with
  | some token => exact Or.inl ⟨token, rfl, intern_of_found hlookup⟩
  | none =>
      refine Or.inr ?_
      by_cases hroom : s.size + 1 ≤ Token.maxRow
      · exact Or.inl ⟨rfl, hroom, intern_of_new hlookup hroom⟩
      · obtain ⟨e, hfull⟩ : ∃ e, tokenAt entry s.size = .error e := ⟨_, if_neg hroom⟩
        refine Or.inr ⟨rfl, e, ?_⟩
        rw [intern, hlookup]
        simp only [append, hfull]

theorem lookup?_cons {entries : List Entry} {other : Entry} :
    (⟨entries, (entry, token) :: s.tokens⟩ : Interner).lookup? other =
      if other = entry then some token else s.lookup? other := by
  rw [lookup?, List.lookup_cons]
  by_cases hother : other = entry
  · rw [if_pos hother, hother, beq_self_eq_true]
  · rw [if_neg hother, beq_eq_false_iff_ne.mpr hother, lookup?]

/-- Even where there is no room the entry is put behind the others. -/
theorem entries_intern_of_new (h : s.lookup? entry = none) :
    (s.intern entry).2.entries = s.entries ++ [entry] := by
  rcases s.intern_cases entry with ⟨_, hfound, -⟩ | ⟨-, -, hrun⟩ | ⟨-, _, hrun⟩
  · rw [h] at hfound
    cases hfound
  · rw [hrun]
  · rw [hrun]

namespace Later

theorem trans (h : Later s s') (h' : Later s' s'') : Later s s'' := by
  induction h' with
  | refl => exact h
  | intern _ entry ih => exact ih.intern entry

theorem entries_prefix (h : Later s s') : s.entries <+: s'.entries := by
  induction h with
  | refl => exact List.prefix_refl s.entries
  | @intern s' _ entry ih =>
      cases hlookup : s'.lookup? entry with
      | some token =>
          rw [intern_of_found hlookup]
          exact ih
      | none =>
          rw [entries_intern_of_new hlookup]
          exact ih.trans (List.prefix_append s'.entries [entry])

theorem size_le (h : Later s s') : s.size ≤ s'.size := h.entries_prefix.length_le

end Later

/-! ## What a token names -/

theorem get?_eq_some_iff :
    s.get? token = some entry ↔
      ∃ index, token.row.toNat = index + 1 ∧ s.entries[index]? = some entry ∧
        entry.table.code = token.tableCode := by
  rw [get?]
  cases token.row.toNat with
  | zero => simp
  | succ index => simp [Option.filter_eq_some_iff]

/-- A token goes on naming what it named. -/
theorem Later.get?_eq_some (h : Later s s') (hget : s.get? token = some entry) :
    s'.get? token = some entry := by
  obtain ⟨index, hrow, hentry, htable⟩ := get?_eq_some_iff.mp hget
  obtain ⟨behind, hbehind⟩ := h.entries_prefix
  refine get?_eq_some_iff.mpr ⟨index, hrow, ?_, htable⟩
  rw [← hbehind, List.getElem?_append_left (List.getElem?_eq_some_iff.mp hentry).1]
  exact hentry

theorem get?_rowToken_of_lt {index : Nat} (h : s.entries[index]? = some entry)
    (room : index < Token.maxRow) : s.get? (rowToken entry index) = some entry := by
  have hmax : Token.maxRow = 0x00FFFFFF := rfl
  have hnat : (UInt32.ofNat (index + 1)).toNat = index + 1 :=
    UInt32.toNat_ofNat_of_lt' (show index + 1 < 4294967296 by omega)
  have hrow : (UInt32.ofNat (index + 1)).toNat ≤ Token.maxRow := by omega
  refine get?_eq_some_iff.mpr ⟨index, ?_, h, ?_⟩
  · rw [rowToken, Token.row_ofParts hrow, hnat]
  · rw [rowToken, Token.tableCode_ofParts hrow]

theorem get?_rowToken {index : Nat} (h : s.entries[index]? = some entry)
    (room : s.size ≤ Token.maxRow) : s.get? (rowToken entry index) = some entry :=
  get?_rowToken_of_lt h (Nat.lt_of_lt_of_le (List.getElem?_eq_some_iff.mp h).1 room)

theorem Consistent.not_mem (h : s.Consistent) (hnew : s.lookup? entry = none) :
    entry ∉ s.entries := by
  intro hmem
  obtain ⟨index, hindex⟩ := List.mem_iff_getElem?.mp hmem
  have hfound := h.lookup?_eq_some_iff.mpr ⟨index, hindex, rfl⟩
  rw [hnew] at hfound
  cases hfound

theorem consistent_empty : empty.Consistent where
  nodup := List.nodup_nil
  lookup?_eq_some_iff := by
    intro entry token
    constructor
    · intro h
      cases h
    · rintro ⟨index, h, -⟩
      cases h

theorem getElem?_concat_eq_some_iff {entries : List Entry} {other : Entry} {index : Nat} :
    (entries ++ [entry])[index]? = some other ↔
      entries[index]? = some other ∨ index = entries.length ∧ other = entry := by
  rw [List.getElem?_append]
  by_cases hindex : index < entries.length
  · rw [if_pos hindex]
    constructor
    · exact Or.inl
    · rintro (h | ⟨rfl, -⟩)
      · exact h
      · exact absurd hindex (Nat.lt_irrefl _)
  · rw [if_neg hindex, List.getElem?_eq_none (Nat.not_lt.mp hindex), List.getElem?_singleton]
    have hzero : index - entries.length = 0 ↔ index = entries.length := by omega
    simp [hzero, eq_comm]

theorem Consistent.intern (h : s.Consistent) (room : (s.intern entry).2.size ≤ Token.maxRow) :
    (s.intern entry).2.Consistent := by
  cases hlookup : s.lookup? entry with
  | some token =>
      rw [intern_of_found hlookup]
      exact h
  | none =>
      have hnew := h.not_mem hlookup
      have hsize : s.size + 1 ≤ Token.maxRow := by
        rwa [size, entries_intern_of_new hlookup, List.length_append] at room
      rw [intern_of_new hlookup hsize]
      constructor
      · rw [List.nodup_append]
        refine ⟨h.nodup, List.pairwise_singleton _ entry, ?_⟩
        intro old hold new hmem heq
        rw [List.mem_singleton] at hmem
        exact hnew (hmem ▸ heq ▸ hold)
      · intro other token
        rw [lookup?_cons]
        simp only [getElem?_concat_eq_some_iff]
        by_cases hother : other = entry
        · subst hother
          rw [if_pos rfl, Option.some.injEq]
          constructor
          · intro htoken
            exact ⟨s.size, Or.inr ⟨rfl, rfl⟩, htoken⟩
          · rintro ⟨index, hold | ⟨rfl, -⟩, htoken⟩
            · exact absurd (List.mem_of_getElem? hold) hnew
            · exact htoken
        · rw [if_neg hother, h.lookup?_eq_some_iff]
          simp [hother]

theorem Reachable.consistent (h : s.Reachable) (room : s.size ≤ Token.maxRow) : s.Consistent := by
  induction h with
  | refl => exact consistent_empty
  | @intern s' _ entry ih =>
      have hle : s'.size ≤ (s'.intern entry).2.size := ((Later.refl s').intern entry).size_le
      exact (ih (by omega)).intern room

/-! ## Tokens on record -/

/-- What is on record stays there. -/
theorem Later.lookup?_eq_some (h : s.Later s') (hfound : s.lookup? entry = some token) :
    s'.lookup? entry = some token := by
  induction h with
  | refl => exact hfound
  | @intern s' _ other ih =>
      rcases s'.intern_cases other with ⟨_, -, hrun⟩ | ⟨hnew, -, hrun⟩ | ⟨-, _, hrun⟩
      · rwa [hrun]
      · rw [hrun, lookup?_cons, if_neg]
        · exact ih
        · rintro rfl
          rw [hnew] at ih
          cases ih
      · rw [hrun]
        exact ih

theorem lookup?_of_intern (h : s.intern entry = (.ok token, s')) :
    s'.lookup? entry = some token := by
  rcases s.intern_cases entry with ⟨_, hfound, hrun⟩ | ⟨-, -, hrun⟩ | ⟨-, _, hrun⟩
  · cases hrun.symm.trans h
    exact hfound
  · cases hrun.symm.trans h
    rw [lookup?_cons, if_pos rfl]
  · cases hrun.symm.trans h

/-- A token on record names its entry, also where there is no room for more. -/
theorem Reachable.get?_of_lookup? (h : s.Reachable) (hfound : s.lookup? entry = some token) :
    s.get? token = some entry := by
  induction h with
  | refl => cases hfound
  | @intern s' h other ih =>
      have hlater := (Later.refl s').intern other
      rcases s'.intern_cases other with ⟨_, -, hrun⟩ | ⟨-, hroom, hrun⟩ | ⟨-, _, hrun⟩
      · rw [hrun] at hfound ⊢
        exact ih hfound
      · rw [hrun] at hlater hfound ⊢
        rw [lookup?_cons] at hfound
        split at hfound
        · rename_i heq
          cases hfound
          rw [heq]
          exact get?_rowToken_of_lt List.getElem?_concat_length hroom
        · exact hlater.get?_eq_some (ih hfound)
      · rw [hrun] at hlater hfound ⊢
        exact hlater.get?_eq_some (ih hfound)

theorem later_of_intern {answer : Except Error Token} (h : s.intern entry = (answer, s')) :
    s.Later s' := by
  have hstep := (Later.refl s).intern entry
  rwa [h] at hstep

/-- Tokens tell entries apart, whatever is asked for between the two calls. -/
theorem token_eq_iff {other : Entry} {token' : Token} {s₁ s₂ : Interner} (hs : s.Reachable)
    (h : s.intern entry = (.ok token, s₁)) (hlater : s₁.Later s₂)
    (h' : s₂.intern other = (.ok token', s')) : token = token' ↔ entry = other := by
  have hs₁ : s₁.Reachable := hs.trans (later_of_intern h)
  have hs' : s'.Reachable := (hs₁.trans hlater).trans (later_of_intern h')
  constructor
  · rintro rfl
    have hget := hs₁.get?_of_lookup? (lookup?_of_intern h)
    have hstill := (hlater.trans (later_of_intern h')).get?_eq_some hget
    exact Option.some.inj (hstill.symm.trans (hs'.get?_of_lookup? (lookup?_of_intern h')))
  · rintro rfl
    rw [intern_of_found (hlater.lookup?_eq_some (lookup?_of_intern h))] at h'
    cases h'
    rfl

/-- Where there is room, an entry is given a token that names it. -/
theorem intern_ok (hs : s.Reachable) (room : (s.intern entry).2.size ≤ Token.maxRow) :
    ∃ token, s.intern entry = (.ok token, (s.intern entry).2) ∧
      (s.intern entry).2.get? token = some entry := by
  cases hlookup : s.lookup? entry with
  | some token =>
      rw [intern_of_found hlookup] at room ⊢
      obtain ⟨index, hindex, rfl⟩ := (hs.consistent room).lookup?_eq_some_iff.mp hlookup
      exact ⟨rowToken entry index, rfl, get?_rowToken hindex room⟩
  | none =>
      have hsize : s.size + 1 ≤ Token.maxRow := by
        rwa [size, entries_intern_of_new hlookup, List.length_append] at room
      rw [intern_of_new hlookup hsize] at room ⊢
      exact ⟨rowToken entry s.size, rfl, get?_rowToken List.getElem?_concat_length room⟩

end Interner

/-! ## Computations over a scope -/

namespace Interning

variable {α β : Type}

/-- A computation that changes its scope by interning only, and adds no more
than `count` entries to it. -/
structure Grows (x : Interning α) (count : Nat) : Prop where
  grows : ∀ s : Interner, s.Later (x s).2
  size_le : ∀ s : Interner, (x s).2.size ≤ s.size + count

/-- A scope has room for all that a computation interns. -/
def Fits (x : Interning α) (s : Interner) : Prop := (x s).2.size ≤ Token.maxRow

namespace Grows

variable {x : Interning α} {f : α → Interning β} {count more : Nat}

theorem later (hx : Grows x count) {answer : Except Error α} {s s' : Interner}
    (h : x s = (answer, s')) : s.Later s' := by
  have hlater := hx.grows s
  rwa [h] at hlater

theorem fits (hx : Grows x count) {s : Interner} (room : s.size + count ≤ Token.maxRow) :
    x.Fits s :=
  Nat.le_trans (hx.size_le s) room

theorem mono (hx : Grows x count) (h : count ≤ more) : Grows x more :=
  ⟨hx.grows, fun s => Nat.le_trans (hx.size_le s) (Nat.add_le_add_left h s.size)⟩

theorem pure (a : α) : Grows (Pure.pure a : Interning α) 0 :=
  ⟨fun s => .refl s, fun _ => Nat.le_refl _⟩

theorem ofExcept (answer : Except Error α) : Grows (Interning.ofExcept answer) 0 :=
  ⟨fun s => .refl s, fun _ => Nat.le_refl _⟩

theorem token (entry : Entry) : Grows (Interning.token entry) 1 where
  grows s := (Interner.Later.refl s).intern entry
  size_le s := by
    show (s.intern entry).2.size ≤ s.size + 1
    cases hlookup : s.lookup? entry with
    | some found =>
        rw [Interner.intern_of_found hlookup]
        exact Nat.le_succ s.size
    | none =>
        rw [Interner.size, Interner.entries_intern_of_new hlookup, List.length_append]
        exact Nat.le_refl _

theorem bind (hx : Grows x count) (hf : ∀ a, Grows (f a) more) :
    Grows (x >>= f) (count + more) := by
  have hrun : ∀ s : Interner, s.Later ((x >>= f) s).2 ∧
      ((x >>= f) s).2.size ≤ s.size + (count + more) := by
    intro s
    rcases hrun : x s with ⟨answer, s'⟩
    have hlater := hx.later hrun
    have hsize : s'.size ≤ s.size + count := by
      have hstep := hx.size_le s
      rwa [hrun] at hstep
    cases answer with
    | error e =>
        rw [bind_of_error hrun]
        exact ⟨hlater, Nat.le_trans hsize (by omega)⟩
    | ok a =>
        rw [bind_of_ok hrun]
        have hmore := (hf a).size_le s'
        exact ⟨hlater.trans ((hf a).grows s'), Nat.le_trans hmore (by omega)⟩
  exact ⟨fun s => (hrun s).1, fun s => (hrun s).2⟩

/-- What stands behind an answer of another scope runs for that answer only. -/
theorem ofExcept_bind {answer : Except Error α} (hf : ∀ a, answer = .ok a → Grows (f a) count) :
    Grows (Interning.ofExcept answer >>= f) count := by
  cases answer with
  | error e => exact (ofExcept (.error e)).mono (Nat.zero_le count)
  | ok a => exact hf a rfl

end Grows

@[simp] theorem ofExcept_ok_bind {a : α} {f : α → Interning β} :
    (ofExcept (.ok a) >>= f) = f a := rfl

@[simp] theorem ofExcept_eq_ok_iff {answer : Except Error α} {a : α} {s s' : Interner} :
    ofExcept answer s = (.ok a, s') ↔ answer = .ok a ∧ s = s' := by
  constructor
  · intro h
    cases h
    exact ⟨rfl, rfl⟩
  · rintro ⟨rfl, rfl⟩
    rfl

@[simp] theorem ofExcept_eq_error_iff {answer : Except Error α} {e : Error} {s s' : Interner} :
    ofExcept answer s = (.error e, s') ↔ answer = .error e ∧ s = s' := by
  constructor
  · intro h
    cases h
    exact ⟨rfl, rfl⟩
  · rintro ⟨rfl, rfl⟩
    rfl

end Interning

/-! ## Naming an entity anew -/

/-- The entry for what a token operand of some kind names. -/
def Scope.entry (source : Scope) (kind : OperandKind) (token : Token) : Except Error Entry :=
  match kind with
  | .string => do return .string (← source.string token)
  | .sig => do return .signature (← source.signature token)
  | .field | .method | .type | .tok => do return .ofMember (← source.member token)
  | other => .error (.impossible
      (other.name ++ " operand " ++ token.text ++ " is not a metadata reference"))

/-- A token and the one that stands for it in another scope: null for null,
and else a token of the entry for what the source says is named. -/
inductive Scope.Renames (source : Scope) (s : Interner) (kind : OperandKind) :
    Token → Token → Prop where
  | null : Renames source s kind .null .null
  | entry {t t' : Token} {entry : Entry} (named : t ≠ .null)
      (meant : source.entry kind t = .ok entry) (found : s.get? t' = some entry) :
      Renames source s kind t t'

theorem Scope.Renames.later {source : Scope} {s s' : Interner} {kind : OperandKind}
    {t t' : Token} (h : source.Renames s kind t t') (hlater : s.Later s') :
    source.Renames s' kind t t' := by
  cases h with
  | null => exact .null
  | entry named meant found => exact .entry named meant (hlater.get?_eq_some found)

namespace Interning

variable {source : Scope} {kind : OperandKind} {t t' : Token} {s s' : Interner} {e : Error}

theorem resolve_eq_intern (named : t ≠ .null) :
    resolve source kind t = ofExcept (source.entry kind t) >>= token := by
  have hnull : ¬t.isNull = true := by
    rw [Token.isNull_eq_true_iff]
    exact named
  funext s
  unfold resolve
  rw [if_neg hnull]
  cases kind with
  | string => cases hmeant : source.string t <;> simp only [Scope.entry, hmeant] <;> rfl
  | sig => cases hmeant : source.signature t <;> simp only [Scope.entry, hmeant] <;> rfl
  | field | method | type | tok =>
      cases hmeant : source.member t <;> simp only [Scope.entry, hmeant] <;> rfl
  | _ => rfl

theorem grows_resolve (source : Scope) (kind : OperandKind) (t : Token) :
    Grows (resolve source kind t) 1 := by
  by_cases hnull : t = .null
  · subst hnull
    exact (Grows.pure Token.null).mono (Nat.zero_le 1)
  · rw [resolve_eq_intern hnull]
    exact Grows.ofExcept_bind fun entry _ => .token entry

/-- An entry that there is room for is given a token that names it. -/
theorem get?_of_token {entry : Entry} {answer : Except Error Token} (hs : s.Reachable)
    (room : s'.size ≤ Token.maxRow) (h : token entry s = (answer, s')) :
    ∃ found, answer = .ok found ∧ s'.get? found = some entry := by
  have hrun : s.intern entry = (answer, s') := h
  have hs' : (s.intern entry).2 = s' := by rw [hrun]
  rw [← hs'] at room
  obtain ⟨found, hfound, hget⟩ := Interner.intern_ok hs room
  rw [hrun] at hfound hget
  cases hfound
  exact ⟨found, rfl, hget⟩

theorem get?_of_token_ok {entry : Entry} {found : Token} (hs : s.Reachable)
    (h : token entry s = (.ok found, s')) : s'.get? found = some entry := by
  have hs' : s'.Reachable := hs.trans ((Grows.token entry).later h)
  exact hs'.get?_of_lookup? (Interner.lookup?_of_intern h)

/-- A token that was found stands for the one that was asked for. -/
theorem renames_of_resolve (hs : s.Reachable) (h : resolve source kind t s = (.ok t', s')) :
    source.Renames s' kind t t' := by
  by_cases hnull : t = .null
  · subst hnull
    cases h
    exact .null
  · rw [resolve_eq_intern hnull, bind_eq_ok_iff] at h
    obtain ⟨entry, s₁, hsource, hintern⟩ := h
    obtain ⟨hmeant, rfl⟩ := ofExcept_eq_ok_iff.mp hsource
    exact .entry hnull hmeant (get?_of_token_ok hs hintern)

/-- With room to intern, only the source can fail to say what a token names. -/
theorem entry_of_resolve_error (hs : s.Reachable) (room : s'.size ≤ Token.maxRow)
    (h : resolve source kind t s = (.error e, s')) :
    t ≠ .null ∧ source.entry kind t = .error e := by
  by_cases hnull : t = .null
  · subst hnull
    cases h
  · rw [resolve_eq_intern hnull, bind_eq_error_iff] at h
    rcases h with hsource | ⟨entry, s₁, hsource, hintern⟩
    · exact ⟨hnull, (ofExcept_eq_error_iff.mp hsource).1⟩
    · obtain ⟨-, rfl⟩ := ofExcept_eq_ok_iff.mp hsource
      obtain ⟨found, heq, -⟩ := get?_of_token hs room hintern
      cases heq

end Interning

end Reroute
