import Mathlib.Data.List.Forall2
import Reroute.Error
/-!
# Runs of computations with a state

Readers of bytes and the interning of entries are computations of one
shape: they carry a state along, they may fail, and the state outlives a
failure. A run is a pair of an answer and the state behind it. The lemmas
here take a run of a longer computation apart into the runs of its parts,
once for the runs that succeed and once for those that fail, so that no
other proof has to open the monad. Answers for all of a list are there if
each is, and otherwise the first error is.
-/

namespace Reroute

variable {ε σ α β : Type}

/-! ## One among several -/

/-- Callers that take turns are a list, in which a step replaces one. -/
theorem getElem?_set_cases {callers : List α} {index i : Nat} {caller found : α}
    (h : (callers.set index caller)[i]? = some found) :
    (i = index ∧ found = caller) ∨ (i ≠ index ∧ callers[i]? = some found) := by
  rw [List.getElem?_set] at h
  split at h
  · rename_i heq
    split at h
    · exact .inl ⟨heq.symm, (Option.some.inj h).symm⟩
    · cases h
  · rename_i hne
    exact .inr ⟨Ne.symm hne, h⟩

theorem getElem?_set_self_of_getElem? {callers : List α} {index : Nat} {caller other : α}
    (h : callers[index]? = some other) : (callers.set index caller)[index]? = some caller :=
  List.getElem?_set_self (List.getElem?_eq_some_iff.mp h).1

/-- A caller that is not the one in a place stays where it is. -/
theorem getElem?_set_of_ne {callers : List α} {index i : Nat} {caller other found : α}
    (hat : callers[index]? = some other) (h : callers[i]? = some found) (hne : other ≠ found) :
    (callers.set index caller)[i]? = some found := by
  rw [List.getElem?_set_ne, h]
  rintro rfl
  exact hne (Option.some.inj (hat.symm.trans h))

/-! ## Answers without a state -/

@[simp] theorem answer_bind_eq_ok_iff {x : Except ε α} {f : α → Except ε β} {b : β} :
    (x >>= f) = .ok b ↔ ∃ a, x = .ok a ∧ f a = .ok b := by
  cases x with
  | error e =>
      constructor
      · intro h
        cases h
      · rintro ⟨a, h, -⟩
        cases h
  | ok a =>
      constructor
      · intro h
        exact ⟨a, rfl, h⟩
      · rintro ⟨a', h, hf⟩
        cases h
        exact hf

@[simp] theorem answer_pure_eq_ok_iff {a b : α} : (pure a : Except ε α) = .ok b ↔ a = b :=
  Except.ok.injEq a b ▸ Iff.rfl

theorem answer_map_eq_ok_iff {x : Except ε α} {f : α → β} {b : β} :
    x.map f = .ok b ↔ ∃ a, x = .ok a ∧ f a = b := by
  cases x with
  | error e => simp [Except.map]
  | ok a => simp [Except.map]

theorem answer_toOption_eq_some_iff {x : Except ε α} {a : α} : x.toOption = some a ↔ x = .ok a := by
  cases x with
  | error e => simp [Except.toOption]
  | ok a => simp [Except.toOption]

/-! ## Answers for all of a list -/

section answers

variable {f : α → Except ε β} {list : List α}

theorem answer_mapM_eq_ok_iff {answers : List β} :
    list.mapM f = .ok answers ↔ List.Forall₂ (fun a b => f a = .ok b) list answers := by
  induction list generalizing answers with
  | nil =>
      rw [List.mapM_nil, answer_pure_eq_ok_iff, List.forall₂_nil_left_iff]
      exact eq_comm
  | cons a rest ih =>
      simp only [List.mapM_cons, answer_bind_eq_ok_iff, answer_pure_eq_ok_iff, ih,
        List.forall₂_cons_left_iff]
      constructor
      · rintro ⟨b, hb, others, hothers, rfl⟩
        exact ⟨b, others, hb, hothers, rfl⟩
      · rintro ⟨b, others, hb, hothers, rfl⟩
        exact ⟨b, hb, others, hothers, rfl⟩

/-- There is no answer for a list if there is none for one of it, and the error is
that of the first. -/
theorem answer_mapM_of_error {front back : List α} {a : α} {e : ε}
    (hfront : ∀ b ∈ front, ∃ value, f b = .ok value) (h : f a = .error e) :
    (front ++ a :: back).mapM f = .error e := by
  induction front with
  | nil =>
      rw [List.nil_append, List.mapM_cons, h]
      rfl
  | cons b rest ih =>
      obtain ⟨⟨value, hvalue⟩, hrest⟩ := List.forall_mem_cons.mp hfront
      rw [List.cons_append, List.mapM_cons, hvalue, ih hrest]
      rfl

theorem exists_answers_or_first_error (f : α → Except ε β) (list : List α) :
    (∃ answers, List.Forall₂ (fun a b => f a = .ok b) list answers) ∨
    ∃ front a back e, list = front ++ a :: back ∧ (∀ b ∈ front, ∃ value, f b = .ok value) ∧
      f a = .error e := by
  induction list with
  | nil => exact .inl ⟨[], .nil⟩
  | cons a rest ih =>
      cases ha : f a with
      | error e => exact .inr ⟨[], a, rest, e, rfl, List.forall_mem_nil _, ha⟩
      | ok b =>
          rcases ih with ⟨answers, hanswers⟩ | ⟨front, a', back, e, rfl, hfront, herror⟩
          · exact .inl ⟨b :: answers, .cons ha hanswers⟩
          · exact .inr ⟨a :: front, a', back, e, rfl,
              List.forall_mem_cons.mpr ⟨⟨b, ha⟩, hfront⟩, herror⟩

end answers

/-! ## Successful runs -/

@[simp] theorem pure_eq_ok_iff {a b : α} {s s' : σ} :
    (pure a : ExceptT ε (StateM σ) α) s = (.ok b, s') ↔ a = b ∧ s = s' := by
  constructor
  · intro h
    cases h
    exact ⟨rfl, rfl⟩
  · rintro ⟨rfl, rfl⟩
    rfl

theorem bind_of_ok {x : ExceptT ε (StateM σ) α} {f : α → ExceptT ε (StateM σ) β}
    {a : α} {s s' : σ} (h : x s = (.ok a, s')) : (x >>= f) s = f a s' := by
  simp only [bind, ExceptT.bind, ExceptT.mk, StateT.bind, h]
  rfl

theorem bind_of_error {x : ExceptT ε (StateM σ) α} {f : α → ExceptT ε (StateM σ) β}
    {e : ε} {s s' : σ} (h : x s = (.error e, s')) : (x >>= f) s = (.error e, s') := by
  simp only [bind, ExceptT.bind, ExceptT.mk, StateT.bind, h]
  rfl

/-- A run of two steps succeeds exactly if the first one does and then the
second one, from where the first left the state. -/
@[simp] theorem bind_eq_ok_iff {x : ExceptT ε (StateM σ) α} {f : α → ExceptT ε (StateM σ) β}
    {b : β} {s s'' : σ} :
    (x >>= f) s = (.ok b, s'') ↔ ∃ a s', x s = (.ok a, s') ∧ f a s' = (.ok b, s'') := by
  constructor
  · intro h
    rcases hx : x s with ⟨answer, s'⟩
    cases answer with
    | error e =>
        rw [bind_of_error hx] at h
        cases h
    | ok a =>
        rw [bind_of_ok hx] at h
        exact ⟨a, s', rfl, h⟩
  · rintro ⟨a, s', hx, hf⟩
    rw [bind_of_ok hx, hf]

/-- A computation has one answer only. -/
theorem ok_unique {x : ExceptT ε (StateM σ) α} {a b : α} {s s' s'' : σ}
    (h : x s = (.ok a, s')) (h' : x s = (.ok b, s'')) : a = b ∧ s' = s'' := by
  rw [h] at h'
  cases h'
  exact ⟨rfl, rfl⟩

/-! ## Failed runs -/

@[simp] theorem pure_ne_error {a : α} {e : ε} {s s' : σ} :
    (pure a : ExceptT ε (StateM σ) α) s ≠ (.error e, s') := fun h => by cases h

/-- A run of two steps fails in the first, or in the second behind it. -/
@[simp] theorem bind_eq_error_iff {x : ExceptT ε (StateM σ) α}
    {f : α → ExceptT ε (StateM σ) β} {e : ε} {s s'' : σ} :
    (x >>= f) s = (.error e, s'') ↔
      x s = (.error e, s'') ∨ ∃ a s', x s = (.ok a, s') ∧ f a s' = (.error e, s'') := by
  constructor
  · intro h
    rcases hx : x s with ⟨answer, s'⟩
    cases answer with
    | error e' =>
        rw [bind_of_error hx] at h
        cases h
        exact Or.inl rfl
    | ok a =>
        rw [bind_of_ok hx] at h
        exact Or.inr ⟨a, s', rfl, h⟩
  · rintro (hx | ⟨a, s', hx, hf⟩)
    · exact bind_of_error hx
    · rw [bind_of_ok hx, hf]

/-- Every error that a computation can come back with satisfies `P`. -/
def FailsOnly (P : ε → Prop) (x : ExceptT ε (StateM σ) α) : Prop :=
  ∀ s e s', x s = (.error e, s') → P e

namespace FailsOnly

variable {P Q : ε → Prop} {x : ExceptT ε (StateM σ) α} {f : α → ExceptT ε (StateM σ) β}

theorem mono (hx : FailsOnly P x) (h : ∀ e, P e → Q e) : FailsOnly Q x :=
  fun s e s' hfail => h e (hx s e s' hfail)

theorem pure (a : α) : FailsOnly P (Pure.pure a : ExceptT ε (StateM σ) α) :=
  fun _ _ _ h => absurd h pure_ne_error

theorem bind (hx : FailsOnly P x) (hf : ∀ a, FailsOnly P (f a)) : FailsOnly P (x >>= f) := by
  intro s e s'' h
  rcases bind_eq_error_iff.mp h with hfail | ⟨a, s', -, hfail⟩
  · exact hx s e s'' hfail
  · exact hf a s' e s'' hfail

theorem ite {p : Prop} [Decidable p] {y : ExceptT ε (StateM σ) α} (hx : FailsOnly P x)
    (hy : FailsOnly P y) : FailsOnly P (if p then x else y) := by
  split
  · exact hx
  · exact hy

end FailsOnly

end Reroute
