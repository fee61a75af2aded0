import Mathlib.Data.List.Induction
import Mathlib.Tactic.IntervalCases
import Reroute.Text.Hex
/-!
# Hexadecimal numerals

What a row of digits spells is defined here by the digits alone (`Spells`): each
further digit multiplies the number by sixteen and adds its own value. Reading
digits gives exactly what they spell, in either case, and the digits that a number
is written in spell that number, with zeros in front or without.
-/

namespace Reroute.Text

/-- A digit and its value, in either case. -/
def IsHexDigit (c : Char) (value : Nat) : Prop :=
  "0123456789abcdef".toList[value]? = some c ∨ "0123456789ABCDEF".toList[value]? = some c

/-- The number that digits spell, the highest digit first. -/
inductive Spells : List Char → Nat → Prop where
  | nil : Spells [] 0
  | snoc {digits : List Char} {c : Char} {n value : Nat} (front : Spells digits n)
      (last : IsHexDigit c value) : Spells (digits ++ [c]) (16 * n + value)

variable {c : Char} {digits : List Char} {n value : Nat}

/-! ## Digits -/

theorem IsHexDigit.lt (h : IsHexDigit c value) : value < 16 := by
  rcases h with h | h
  · exact (List.getElem?_eq_some_iff.mp h).1
  · exact (List.getElem?_eq_some_iff.mp h).1

theorem isHexDigit_digitChar (h : n < 16) : IsHexDigit (Nat.digitChar n) n := by
  interval_cases n <;> exact .inl rfl

theorem hexDigit?_of_isHexDigit (h : IsHexDigit c value) : hexDigit? c = some value := by
  have hlt := h.lt
  rcases h with h | h
  · interval_cases value <;> cases h <;> rfl
  · interval_cases value <;> cases h <;> rfl

theorem isHexDigit_of_hexDigit? (h : hexDigit? c = some value) : IsHexDigit c value := by
  have hle : ∀ {a b : Char}, a ≤ b → a.toNat ≤ b.toNat := UInt32.le_iff_toNat_le.mp
  have hchar : ∀ {a : Nat}, c.toNat = a → c = Char.ofNat a := by
    rintro a rfl
    exact (Char.ofNat_toNat c).symm
  unfold hexDigit? at h
  split at h
  · rename_i hrange
    have hlow : 48 ≤ c.toNat := hle hrange.1
    have hhigh : c.toNat ≤ 57 := hle hrange.2
    have hvalue : c.toNat - 48 = value := Option.some.inj h
    have hdigit : value < 10 := by omega
    rw [hchar (show c.toNat = 48 + value by omega)]
    interval_cases value <;> exact .inl rfl
  · split at h
    · rename_i hrange
      have hlow : 97 ≤ c.toNat := hle hrange.1
      have hhigh : c.toNat ≤ 102 := hle hrange.2
      have hvalue : c.toNat - 97 + 10 = value := Option.some.inj h
      have hdigit : 10 ≤ value ∧ value < 16 := by omega
      rw [hchar (show c.toNat = 87 + value by omega)]
      obtain ⟨hge, hlt⟩ := hdigit
      interval_cases value <;> exact .inl rfl
    · split at h
      · rename_i hrange
        have hlow : 65 ≤ c.toNat := hle hrange.1
        have hhigh : c.toNat ≤ 70 := hle hrange.2
        have hvalue : c.toNat - 65 + 10 = value := Option.some.inj h
        have hdigit : 10 ≤ value ∧ value < 16 := by omega
        rw [hchar (show c.toNat = 55 + value by omega)]
        obtain ⟨hge, hlt⟩ := hdigit
        interval_cases value <;> exact .inr rfl
      · cases h

theorem hexDigit?_eq_some_iff : hexDigit? c = some value ↔ IsHexDigit c value :=
  ⟨isHexDigit_of_hexDigit?, hexDigit?_of_isHexDigit⟩

/-! ## Reading -/

theorem numberOfHex?_snoc : numberOfHex? (digits ++ [c]) =
    (numberOfHex? digits).bind fun n => (hexDigit? c).map fun value => 16 * n + value := by
  unfold numberOfHex?
  rw [List.foldlM_append]
  cases List.foldlM (fun n c => do return n * 16 + (← hexDigit? c)) 0 digits with
  | none => rfl
  | some n =>
      cases hdigit : hexDigit? c with
      | none => simp [hdigit]
      | some value => simp [hdigit, Nat.mul_comm 16]

/-- **Digits are read as what they spell**, and nothing else is read. -/
theorem numberOfHex?_eq_some_iff : numberOfHex? digits = some n ↔ Spells digits n := by
  constructor
  · intro h
    induction digits using List.reverseRecOn generalizing n with
    | nil =>
        cases h
        exact .nil
    | append_singleton digits c ih =>
        rw [numberOfHex?_snoc] at h
        obtain ⟨front, hfront, hlast⟩ := Option.bind_eq_some_iff.mp h
        obtain ⟨value, hvalue, rfl⟩ := Option.map_eq_some_iff.mp hlast
        exact .snoc (ih hfront) (hexDigit?_eq_some_iff.mp hvalue)
  · intro h
    induction h with
    | nil => rfl
    | snoc front last ih => rw [numberOfHex?_snoc, ih, hexDigit?_eq_some_iff.mpr last]; rfl

/-! ## Writing -/

theorem spells_toDigits (n : Nat) : Spells (Nat.toDigits 16 n) n := by
  induction n using Nat.strongRecOn with
  | ind n ih =>
      rcases Nat.lt_or_ge n 16 with hlt | hge
      · have hsingle := Spells.snoc .nil (isHexDigit_digitChar hlt)
        rwa [Nat.mul_zero, Nat.zero_add, List.nil_append, ← Nat.toDigits_of_lt_base hlt] at hsingle
      · have hdigit := isHexDigit_digitChar (Nat.mod_lt n (by decide : 0 < 16))
        have hsnoc := Spells.snoc (ih (n / 16) (by omega)) hdigit
        rwa [Nat.div_add_mod, ← Nat.toDigits_of_base_le (by decide) hge] at hsnoc

theorem Spells.zero_cons (h : Spells digits n) : Spells ('0' :: digits) n := by
  induction h with
  | nil =>
      have hzero : IsHexDigit '0' 0 := .inl rfl
      exact .snoc .nil hzero
  | snoc front last ih => exact .snoc ih last

theorem Spells.forall_mem (h : Spells digits n) : ∀ c ∈ digits, ∃ value, IsHexDigit c value := by
  induction h with
  | nil => exact List.forall_mem_nil _
  | snoc front last ih =>
      exact List.forall_mem_append.mpr ⟨ih, List.forall_mem_singleton.mpr ⟨_, last⟩⟩

theorem spells_hexPadded (width n : Nat) : Spells (hexPadded width n).toList n := by
  rw [hexPadded, padZeros, String.toList_ofList]
  induction width - (Nat.toDigits 16 n).length with
  | zero => exact spells_toDigits n
  | succ zeros ih => exact ih.zero_cons

theorem hexPadded_ne_nil (width n : Nat) : (hexPadded width n).toList ≠ [] := by
  rw [hexPadded, padZeros, String.toList_ofList]
  exact List.append_ne_nil_of_right_ne_nil _ Nat.toDigits_ne_nil

end Reroute.Text
