/-!
# Sums of words

A sum of two machine words wraps around. `Word.add?` gives it only if it has not,
which is told by the words alone: a sum that wraps around is less than what was
added to.
-/

namespace Reroute

namespace Word

/-- The sum of two words, if it is one. -/
def add? (a b : UInt64) : Option UInt64 := if a + b < a then none else some (a + b)

theorem add_lt_iff (a b : UInt64) : a + b < a ↔ UInt64.size ≤ a.toNat + b.toNat := by
  have ha := a.toNat_lt
  have hb := b.toNat_lt
  rw [UInt64.lt_iff_toNat_lt, UInt64.toNat_add]
  simp only [UInt64.size]
  omega

theorem add?_eq_some_iff {a b sum : UInt64} : add? a b = some sum ↔
    a.toNat + b.toNat < UInt64.size ∧ sum.toNat = a.toNat + b.toNat := by
  unfold add?
  split
  · rename_i hwraps
    have hsize := (add_lt_iff a b).mp hwraps
    simp only [reduceCtorEq, false_iff]
    omega
  · rename_i hfits
    have hsize : a.toNat + b.toNat < UInt64.size := Nat.lt_of_not_le (mt (add_lt_iff a b).mpr hfits)
    have hsum : (a + b).toNat = a.toNat + b.toNat := by
      rw [UInt64.toNat_add]
      exact Nat.mod_eq_of_lt hsize
    rw [Option.some.injEq, ← UInt64.toNat_inj, hsum]
    exact ⟨fun h => ⟨hsize, h.symm⟩, fun h => h.2.symm⟩

end Word

end Reroute
