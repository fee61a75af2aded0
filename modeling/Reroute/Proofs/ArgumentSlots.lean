import Mathlib.Algebra.Ring.Nat
import Reroute.Proofs.Dispatching
/-!
# Where the parameters of a list are passed

A calling convention is told parameter by parameter. Under System V a
parameter counts the parameters of its own class in front of it
(`Abi.rank`): the count is its register as long as the class has registers
left, and behind that it goes to the stack. What goes there lies in eight
bytes apiece, without a gap and in the order of the list, whichever class
runs out first (`Abi.SysVPlaced`). Under cdecl a parameter lies behind all
that stand in front of it (`Abi.CdeclPlaced`).

One pass with three counters finds these slots: what it does behind some
parameters depends on how many of each class they are and on nothing else
about them (`Abi.exists_classifySysV_append`).
-/

namespace Reroute

namespace ParamType

/-- A float that is passed by value. -/
def FloatValue (p : ParamType) : Prop := p.byRef = false ∧ (p.element = .r4 ∨ p.element = .r8)

/-- A number of eight bytes on every host that is passed by value. -/
def WideValue (p : ParamType) : Prop :=
  p.byRef = false ∧ (p.element = .i8 ∨ p.element = .u8 ∨ p.element = .r8)

instance : DecidablePred FloatValue := fun _ => inferInstanceAs (Decidable (_ ∧ _))

instance : DecidablePred WideValue := fun _ => inferInstanceAs (Decidable (_ ∧ _))

end ParamType

namespace Slot

/-- The slots share neither a register nor a byte of the stack. -/
def Apart : Slot → Slot → Prop
  | .register i, .register j => i ≠ j
  | .stack offset size, .stack offset' size' => offset + size ≤ offset' ∨ offset' + size' ≤ offset
  | _, _ => True

def isStack : Slot → Bool
  | .register _ => false
  | .stack _ _ => true

end Slot

namespace Abi

/-! ## What the conventions ask for -/

/-- How many parameters of the class of a parameter are in front of it. -/
def rank (front : List ParamType) (p : ParamType) : Nat :=
  front.countP fun q => decide (q.FloatValue ↔ p.FloatValue)

/-- The bytes of a parameter on a 32-bit stack. -/
def stackSize (p : ParamType) : Nat := if p.WideValue then 8 else 4

/-- The slots of parameters under System V. -/
structure SysVPlaced (params : List ParamType) (slots : List Slot) : Prop where
  length : slots.length = params.length
  float : ∀ front p back, params = front ++ p :: back → p.FloatValue → rank front p < 8 →
    slots[front.length]? = some (.register (6 + rank front p))
  other : ∀ front p back, params = front ++ p :: back → ¬p.FloatValue → rank front p < 6 →
    slots[front.length]? = some (.register (rank front p))
  spilled : ∀ front p back, params = front ++ p :: back →
    (if p.FloatValue then 8 else 6) ≤ rank front p →
    ∃ offset, slots[front.length]? = some (.stack offset 8)
  stacked : slots.filter Slot.isStack =
    (List.range (slots.countP Slot.isStack)).map fun k => .stack (8 * k) 8
  apart : slots.Pairwise Slot.Apart

/-- The slots of parameters under cdecl. -/
structure CdeclPlaced (params : List ParamType) (slots : List Slot) : Prop where
  length : slots.length = params.length
  placed : ∀ front p back, params = front ++ p :: back →
    slots[front.length]? = some (.stack (front.map stackSize).sum (stackSize p))
  apart : slots.Pairwise Slot.Apart

/-! ## Classes -/

theorem isFloating_eq_true_iff {p : ParamType} : isFloating p = true ↔ p.FloatValue := by
  obtain ⟨element, byRef⟩ := p
  cases byRef <;> cases element <;> simp [isFloating, ParamType.FloatValue, ElementType.isFloat]

theorem cdeclSize_eq (p : ParamType) : cdeclSize p = stackSize p := by
  obtain ⟨element, byRef⟩ := p
  cases byRef <;> cases element <;> rfl

theorem rank_of_float {front : List ParamType} {p : ParamType} (h : p.FloatValue) :
    rank front p = front.countP isFloating := by
  refine List.countP_congr fun q _ => ?_
  rw [decide_eq_true_iff, isFloating_eq_true_iff]
  exact iff_true_right h

theorem rank_of_other {front : List ParamType} {p : ParamType} (h : ¬p.FloatValue) :
    rank front p = front.countP (!isFloating ·) := by
  refine List.countP_congr fun q _ => ?_
  rw [decide_eq_true_iff, Bool.not_eq_true', Bool.eq_false_iff, ne_eq, isFloating_eq_true_iff]
  exact iff_false_right h

/-! ## System V -/

section sysV

variable {integers floats stack : Nat} {p : ParamType} {front back params : List ParamType}

theorem classifySysV_float (h : isFloating p = true) (hroom : floats < 8) :
    classifySysV integers floats stack (p :: back) =
      .register (6 + floats) :: classifySysV integers (floats + 1) stack back := by
  rw [classifySysV, if_pos ⟨h, hroom⟩]
  rfl

theorem classifySysV_other (h : isFloating p = false) (hroom : integers < 6) :
    classifySysV integers floats stack (p :: back) =
      .register integers :: classifySysV (integers + 1) floats stack back := by
  rw [classifySysV, if_neg (by simp [h]), if_pos ⟨by simp [h], hroom⟩]

theorem classifySysV_spilled (h : if isFloating p then 8 ≤ floats else 6 ≤ integers) :
    classifySysV integers floats stack (p :: back) =
      .stack stack 8 :: classifySysV integers floats (stack + 8) back := by
  cases hp : isFloating p with
  | true =>
      rw [hp, if_pos rfl] at h
      rw [classifySysV, if_neg fun hin => absurd hin.2 (Nat.not_lt_of_le h),
        if_neg fun hin => absurd hp hin.1]
  | false =>
      rw [hp, if_neg (by decide)] at h
      rw [classifySysV, if_neg fun hin => absurd (hp ▸ hin.1) (by decide),
        if_neg fun hin => absurd hin.2 (Nat.not_lt_of_le h)]

/-- The three ways in which the pass deals with a parameter. -/
theorem room_cases (p : ParamType) (integers floats : Nat) :
    (isFloating p = true ∧ floats < 8) ∨ (isFloating p = false ∧ integers < 6) ∨
      if isFloating p then 8 ≤ floats else 6 ≤ integers := by
  cases isFloating p <;> simp <;> omega

/-- Behind some parameters the registers of each class are taken as far as there
are parameters of it. -/
theorem exists_classifySysV_append (integers floats stack : Nat) (front back : List ParamType)
    (hintegers : integers ≤ 6) (hfloats : floats ≤ 8) :
    ∃ stack', classifySysV integers floats stack (front ++ back) =
      classifySysV integers floats stack front ++
        classifySysV (min 6 (integers + front.countP (!isFloating ·)))
          (min 8 (floats + front.countP isFloating)) stack' back := by
  induction front generalizing integers floats stack with
  | nil =>
      refine ⟨stack, ?_⟩
      rw [List.countP_nil, List.countP_nil, Nat.add_zero, Nat.add_zero,
        Nat.min_eq_right hintegers, Nat.min_eq_right hfloats]
      rfl
  | cons p front ih =>
      rcases room_cases p integers floats with ⟨hp, hroom⟩ | ⟨hp, hroom⟩ | hfull
      · obtain ⟨stack', h⟩ := ih integers (floats + 1) stack hintegers hroom
        refine ⟨stack', ?_⟩
        have hcount : floats + (p :: front).countP isFloating =
            floats + 1 + front.countP isFloating := by
          rw [List.countP_cons_of_pos hp]
          omega
        rw [List.cons_append, classifySysV_float hp hroom, classifySysV_float hp hroom, h, hcount,
          List.countP_cons_of_neg (by simp [hp]), List.cons_append]
      · obtain ⟨stack', h⟩ := ih (integers + 1) floats stack hroom hfloats
        refine ⟨stack', ?_⟩
        have hcount : integers + (p :: front).countP (!isFloating ·) =
            integers + 1 + front.countP (!isFloating ·) := by
          rw [List.countP_cons_of_pos (by simp [hp])]
          omega
        rw [List.cons_append, classifySysV_other hp hroom, classifySysV_other hp hroom, h, hcount,
          List.countP_cons_of_neg (by simp [hp]), List.cons_append]
      · obtain ⟨stack', h⟩ := ih integers floats (stack + 8) hintegers hfloats
        refine ⟨stack', ?_⟩
        rw [List.cons_append, classifySysV_spilled hfull, classifySysV_spilled hfull, h,
          List.cons_append]
        -- One more of a class whose registers are all taken takes none.
        cases hp : isFloating p with
        | true =>
            rw [hp, if_pos rfl] at hfull
            have hmin : min 8 (floats + (p :: front).countP isFloating) =
                min 8 (floats + front.countP isFloating) := by
              rw [List.countP_cons_of_pos hp]
              omega
            rw [hmin, List.countP_cons_of_neg (by simp [hp])]
        | false =>
            rw [hp, if_neg (by decide)] at hfull
            have hmin : min 6 (integers + (p :: front).countP (!isFloating ·)) =
                min 6 (integers + front.countP (!isFloating ·)) := by
              rw [List.countP_cons_of_pos (by simp [hp])]
              omega
            rw [hmin, List.countP_cons_of_neg (by simp [hp])]

/-- The slot of a parameter is the one that the pass gives it behind the others. -/
theorem exists_slot_eq (front : List ParamType) (p : ParamType) (back : List ParamType) :
    ∃ stack, (sysV.classify (front ++ p :: back))[front.length]? =
      (classifySysV (min 6 (front.countP (!isFloating ·))) (min 8 (front.countP isFloating)) stack
        (p :: back)).head? := by
  obtain ⟨stack, h⟩ := exists_classifySysV_append 0 0 0 front (p :: back) (Nat.zero_le _)
    (Nat.zero_le _)
  refine ⟨stack, ?_⟩
  rw [classify, h, List.getElem?_append_right (Nat.le_of_eq (length_classifySysV ..)),
    length_classifySysV, Nat.sub_self, Nat.zero_add, Nat.zero_add, List.head?_eq_getElem?]

theorem filter_isStack_classifySysV (integers floats stack : Nat) (params : List ParamType) :
    (classifySysV integers floats stack params).filter Slot.isStack =
      (List.range ((classifySysV integers floats stack params).countP Slot.isStack)).map
        fun k => .stack (stack + 8 * k) 8 := by
  induction params generalizing integers floats stack with
  | nil => rfl
  | cons p params ih =>
      rcases room_cases p integers floats with ⟨hp, hroom⟩ | ⟨hp, hroom⟩ | hfull
      · rw [classifySysV_float hp hroom, List.filter_cons_of_neg Bool.false_ne_true,
          List.countP_cons_of_neg Bool.false_ne_true, ih]
      · rw [classifySysV_other hp hroom, List.filter_cons_of_neg Bool.false_ne_true,
          List.countP_cons_of_neg Bool.false_ne_true, ih]
      · rw [classifySysV_spilled hfull, List.filter_cons_of_pos rfl, List.countP_cons_of_pos rfl,
          ih, List.range_succ_eq_map, List.map_cons, List.map_map]
        refine congrArg (List.cons _) (List.map_congr_left fun k _ => ?_)
        show Slot.stack (stack + 8 + 8 * k) 8 = .stack (stack + 8 * (k + 1)) 8
        rw [Nat.mul_succ, Nat.add_assoc, Nat.add_comm 8]

/-- What is given out behind some point is nothing that was given out before. -/
theorem fresh_of_mem_classifySysV {slot : Slot}
    (h : slot ∈ classifySysV integers floats stack params) :
    (∃ i, slot = .register i ∧ (integers ≤ i ∧ i < 6 ∨ 6 + floats ≤ i)) ∨
      ∃ offset, slot = .stack offset 8 ∧ stack ≤ offset := by
  induction params generalizing integers floats stack with
  | nil => cases h
  | cons p params ih =>
      rcases room_cases p integers floats with ⟨hp, hroom⟩ | ⟨hp, hroom⟩ | hfull
      · rw [classifySysV_float hp hroom] at h
        rcases List.mem_cons.mp h with rfl | h
        · exact .inl ⟨_, rfl, .inr (Nat.le_refl _)⟩
        · rcases ih h with ⟨i, rfl, hi⟩ | hstack
          · exact .inl ⟨i, rfl, by omega⟩
          · exact .inr hstack
      · rw [classifySysV_other hp hroom] at h
        rcases List.mem_cons.mp h with rfl | h
        · exact .inl ⟨_, rfl, .inl ⟨Nat.le_refl _, hroom⟩⟩
        · rcases ih h with ⟨i, rfl, hi⟩ | hstack
          · exact .inl ⟨i, rfl, by omega⟩
          · exact .inr hstack
      · rw [classifySysV_spilled hfull] at h
        rcases List.mem_cons.mp h with rfl | h
        · exact .inr ⟨_, rfl, Nat.le_refl _⟩
        · rcases ih h with hregister | ⟨offset, rfl, hoffset⟩
          · exact .inl hregister
          · exact .inr ⟨offset, rfl, by omega⟩

theorem apart_classifySysV (integers floats stack : Nat) (params : List ParamType) :
    (classifySysV integers floats stack params).Pairwise Slot.Apart := by
  induction params generalizing integers floats stack with
  | nil => exact .nil
  | cons p params ih =>
      rcases room_cases p integers floats with ⟨hp, hroom⟩ | ⟨hp, hroom⟩ | hfull
      · rw [classifySysV_float hp hroom]
        refine .cons (fun slot hslot => ?_) (ih ..)
        rcases fresh_of_mem_classifySysV hslot with ⟨i, rfl, hi⟩ | ⟨offset, rfl, -⟩
        · show 6 + floats ≠ i
          omega
        · trivial
      · rw [classifySysV_other hp hroom]
        refine .cons (fun slot hslot => ?_) (ih ..)
        rcases fresh_of_mem_classifySysV hslot with ⟨i, rfl, hi⟩ | ⟨offset, rfl, -⟩
        · show integers ≠ i
          omega
        · trivial
      · rw [classifySysV_spilled hfull]
        refine .cons (fun slot hslot => ?_) (ih ..)
        rcases fresh_of_mem_classifySysV hslot with ⟨i, rfl, -⟩ | ⟨offset, rfl, hoffset⟩
        · trivial
        · exact .inl hoffset

theorem sysVPlaced (params : List ParamType) : SysVPlaced params (sysV.classify params) where
  length := length_classifySysV ..
  float := by
    rintro front p back rfl hp hrank
    obtain ⟨stack, hslot⟩ := exists_slot_eq front p back
    rw [rank_of_float hp] at hrank ⊢
    rw [hslot, Nat.min_eq_right (Nat.le_of_lt hrank),
      classifySysV_float (isFloating_eq_true_iff.mpr hp) hrank, List.head?_cons]
  other := by
    rintro front p back rfl hp hrank
    obtain ⟨stack, hslot⟩ := exists_slot_eq front p back
    rw [rank_of_other hp] at hrank ⊢
    rw [hslot, Nat.min_eq_right (Nat.le_of_lt hrank), classifySysV_other
      (Bool.eq_false_iff.mpr fun h => hp (isFloating_eq_true_iff.mp h)) hrank, List.head?_cons]
  spilled := by
    rintro front p back rfl hrank
    obtain ⟨stack, hslot⟩ := exists_slot_eq front p back
    refine ⟨stack, ?_⟩
    rw [hslot, classifySysV_spilled, List.head?_cons]
    by_cases hp : p.FloatValue
    · rw [if_pos hp, rank_of_float hp] at hrank
      rw [if_pos (isFloating_eq_true_iff.mpr hp)]
      omega
    · rw [if_neg hp, rank_of_other hp] at hrank
      rw [if_neg fun h => hp (isFloating_eq_true_iff.mp h)]
      omega
  stacked := by
    have h := filter_isStack_classifySysV 0 0 0 params
    simp only [Nat.zero_add] at h
    exact h
  apart := apart_classifySysV ..

end sysV

/-! ## Cdecl -/

theorem length_classifyCdecl (stack : Nat) (params : List ParamType) :
    (classifyCdecl stack params).length = params.length := by
  induction params generalizing stack with
  | nil => rfl
  | cons p params ih => rw [classifyCdecl, List.length_cons, List.length_cons, ih]

theorem slot_classifyCdecl (stack : Nat) (front : List ParamType) (p : ParamType)
    (back : List ParamType) :
    (classifyCdecl stack (front ++ p :: back))[front.length]? =
      some (.stack (stack + (front.map stackSize).sum) (stackSize p)) := by
  induction front generalizing stack with
  | nil =>
      rw [← cdeclSize_eq]
      rfl
  | cons q front ih =>
      rw [List.cons_append, classifyCdecl, List.length_cons, List.getElem?_cons_succ, ih,
        List.map_cons, List.sum_cons, cdeclSize_eq, Nat.add_assoc]

theorem behind_of_mem_classifyCdecl {stack : Nat} {params : List ParamType} {slot : Slot}
    (h : slot ∈ classifyCdecl stack params) : ∃ offset size, slot = .stack offset size ∧
      stack ≤ offset := by
  induction params generalizing stack with
  | nil => cases h
  | cons p params ih =>
      rw [classifyCdecl] at h
      rcases List.mem_cons.mp h with rfl | h
      · exact ⟨_, _, rfl, Nat.le_refl _⟩
      · obtain ⟨offset, size, rfl, hoffset⟩ := ih h
        exact ⟨offset, size, rfl, by omega⟩

theorem apart_classifyCdecl (stack : Nat) (params : List ParamType) :
    (classifyCdecl stack params).Pairwise Slot.Apart := by
  induction params generalizing stack with
  | nil => exact .nil
  | cons p params ih =>
      rw [classifyCdecl]
      refine .cons (fun slot hslot => ?_) (ih _)
      obtain ⟨offset, size, rfl, hoffset⟩ := behind_of_mem_classifyCdecl hslot
      exact .inl hoffset

theorem cdeclPlaced (params : List ParamType) : CdeclPlaced params (cdecl.classify params) where
  length := length_classifyCdecl ..
  placed := by
    rintro front p back rfl
    have h := slot_classifyCdecl 0 front p back
    rwa [Nat.zero_add] at h
  apart := apart_classifyCdecl ..

/-- Each parameter has the slot that its convention has for it, and no two
parameters share any of theirs. -/
theorem classify_placed (params : List ParamType) :
    SysVPlaced params (sysV.classify params) ∧ CdeclPlaced params (cdecl.classify params) :=
  ⟨sysVPlaced params, cdeclPlaced params⟩

/-- The seventh integer goes to the stack and the float behind it to a register. -/
example : sysV.classify (List.replicate 7 (.plain .i4) ++ [.plain .r8, .reference .r8]) =
    (List.range 6).map Slot.register ++ [.stack 0 8, .register 6, .stack 8 8] := by
  decide

end Abi

end Reroute
