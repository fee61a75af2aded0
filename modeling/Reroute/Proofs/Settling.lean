import Mathlib.Data.List.Forall2
import Reroute.Proofs.Interning
/-!
# Computations that settle

Whatever a computation over a clone's scope has named stays on record. So
once it has succeeded it gives the same answer in every later scope, and
finds nothing left to intern there (`Interning.Settles`). A loop over a list
can then be read off the scope that it leaves behind: each of its rounds,
made over in that scope, gives what it gave (`forall₂_of_mapM`), and nothing
has to be said about the scopes in between.
-/

namespace Reroute

namespace Interning

variable {α β : Type}

/-- Once it has succeeded, a computation has the same answer in every later
scope and leaves that scope as it is. -/
def Settles (x : Interning α) : Prop :=
  ∀ ⦃s s' later : Interner⦄ ⦃a : α⦄, x s = (.ok a, s') → s'.Later later →
    x later = (.ok a, later)

namespace Settles

variable {x : Interning α} {f : α → Interning β} {count : Nat}

theorem pure (a : α) : Settles (Pure.pure a : Interning α) := by
  intro s s' later b h hlater
  obtain ⟨rfl, -⟩ := pure_eq_ok_iff.mp h
  rfl

theorem ofExcept (answer : Except Error α) : Settles (Interning.ofExcept answer) := by
  intro s s' later a h hlater
  obtain ⟨rfl, -⟩ := ofExcept_eq_ok_iff.mp h
  rfl

theorem token (entry : Entry) : Settles (Interning.token entry) := by
  intro s s' later t h hlater
  exact Interner.intern_of_found (hlater.lookup?_eq_some (Interner.lookup?_of_intern h))

theorem bind (hx : Settles x) (hf : ∀ a, Settles (f a)) (hgrows : ∀ a, Grows (f a) count) :
    Settles (x >>= f) := by
  intro s s'' later b h hlater
  obtain ⟨a, s', hfirst, hrest⟩ := bind_eq_ok_iff.mp h
  have hbetween := ((hgrows a).later hrest).trans hlater
  exact bind_eq_ok_iff.mpr ⟨a, later, hx hfirst hbetween, hf a hrest hlater⟩

/-- What stands behind an answer of another scope settles if it does so for
that answer. -/
theorem ofExcept_bind {answer : Except Error α} (hf : ∀ a, answer = .ok a → Settles (f a)) :
    Settles (Interning.ofExcept answer >>= f) := by
  cases answer with
  | error e => exact ofExcept (.error e)
  | ok a => exact hf a rfl

theorem resolve (source : Scope) (kind : OperandKind) (t : Token) :
    Settles (Interning.resolve source kind t) := by
  by_cases hnull : t = .null
  · subst hnull
    exact pure _
  · rw [resolve_eq_intern hnull]
    exact (ofExcept _).bind (fun entry => token entry) fun entry => .token entry

end Settles

/-- Each round of a loop that has succeeded gives the same in the scope that
the loop leaves behind. -/
theorem forall₂_of_mapM {f : α → Interning β} {count : Nat} (hsettles : ∀ a, Settles (f a))
    (hgrows : ∀ a, Grows (f a) count) {list : List α} {answers : List β} {s s' : Interner}
    (h : list.mapM f s = (.ok answers, s')) :
    s.Later s' ∧ List.Forall₂ (fun a b => f a s' = (.ok b, s')) list answers := by
  induction list generalizing s answers with
  | nil =>
      obtain ⟨rfl, rfl⟩ := pure_eq_ok_iff.mp h
      exact ⟨.refl s, .nil⟩
  | cons a rest ih =>
      simp only [List.mapM_cons, bind_eq_ok_iff, pure_eq_ok_iff] at h
      obtain ⟨b, s₁, hfirst, others, s₂, hrest, rfl, rfl⟩ := h
      obtain ⟨hlater, hothers⟩ := ih hrest
      exact ⟨((hgrows a).later hfirst).trans hlater, .cons (hsettles a hfirst hlater) hothers⟩

theorem mapM_of_forall₂ {f : α → Interning β} {list : List α} {answers : List β} {s : Interner}
    (h : List.Forall₂ (fun a b => f a s = (.ok b, s)) list answers) :
    list.mapM f s = (.ok answers, s) := by
  induction h with
  | nil => rfl
  | @cons a b rest others hfirst _ ih =>
      simp only [List.mapM_cons, bind_eq_ok_iff, pure_eq_ok_iff]
      exact ⟨b, s, hfirst, others, s, ih, rfl, rfl⟩

/-- A loop settles if its rounds do. -/
theorem Settles.mapM {f : α → Interning β} {count : Nat} (hsettles : ∀ a, Settles (f a))
    (hgrows : ∀ a, Grows (f a) count) (list : List α) : Settles (list.mapM f) := by
  intro s s' later answers h hlater
  obtain ⟨-, hrounds⟩ := forall₂_of_mapM hsettles hgrows h
  exact mapM_of_forall₂ (hrounds.imp fun a b hround => hsettles a hround hlater)

end Interning

end Reroute
