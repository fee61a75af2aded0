import Reroute.Proofs.Settling
/-!
# What operands are resolved to

The source scope says what a token operand refers to: a string, a blob or a
member, as the kind of the operand has it (`Scope.referent?`). In the clone's
scope it stands as an entry that says more than that: what sort of member it
is, and whether a generic type owns it (`Referent.Tagged`). The kind of the
operand has no part in this, and each referent has an entry of its own
(`Referent.Tagged.injective`). So the tokens of two operands agree exactly if
the operands refer to the same thing (`Interning.resolve_faithful`).
-/

namespace Reroute

/-- What a token operand can refer to. -/
inductive Referent where
  | string (literal : String)
  | signature (blob : Bytes)
  | member (m : Member)
  deriving Repr, DecidableEq

namespace Referent

/-- Some type owns a member, and it is generic. -/
def GenericOwner (owner : Option TypeRef) : Prop := ∃ t, owner = some t ∧ t.isGeneric = true

/-- A referent and the entry that stands for it. A dynamic method is one
before all else, a generic owner comes before the sort of the method, and a
constructor before a plain method. -/
inductive Tagged : Referent → Entry → Prop where
  | string {literal : String} : Tagged (.string literal) (.string literal)
  | signature {blob : Bytes} : Tagged (.signature blob) (.signature blob)
  | type {t : TypeRef} : Tagged (.member (.type t)) (.type t)
  | dynamicMethod {m : MethodRef} (isDynamic : m.isDynamic = true) :
      Tagged (.member (.method m)) (.dynamicMethod m)
  | genericMethod {m : MethodRef} (notDynamic : m.isDynamic = false)
      (generic : GenericOwner m.declaring) : Tagged (.member (.method m)) (.genericMethod m)
  | constructor {m : MethodRef} (notDynamic : m.isDynamic = false)
      (notGeneric : ¬GenericOwner m.declaring) (isConstructor : m.isConstructor = true) :
      Tagged (.member (.method m)) (.constructor m)
  | method {m : MethodRef} (notDynamic : m.isDynamic = false)
      (notGeneric : ¬GenericOwner m.declaring) (notConstructor : m.isConstructor = false) :
      Tagged (.member (.method m)) (.method m)
  | genericField {f : FieldRef} (generic : GenericOwner f.declaring) :
      Tagged (.member (.field f)) (.genericField f)
  | field {f : FieldRef} (notGeneric : ¬GenericOwner f.declaring) :
      Tagged (.member (.field f)) (.field f)

/-- The entry that is interned for a referent. -/
def entry : Referent → Entry
  | .string literal => .string literal
  | .signature blob => .signature blob
  | .member m => .ofMember m

theorem hasGenericOwner_eq_true_iff {owner : Option TypeRef} :
    hasGenericOwner owner = true ↔ GenericOwner owner := by
  cases owner <;> simp [hasGenericOwner, GenericOwner]

/-- What is interned for a method, by the three tests that it is put to. -/
theorem tagged_ofMethod (m : MethodRef) :
    Tagged (.member (.method m)) (.ofMember (.method m)) := by
  rw [Entry.ofMember]
  split
  · exact .dynamicMethod ‹_›
  · rename_i hdynamic
    have notDynamic : m.isDynamic = false := Bool.eq_false_iff.mpr hdynamic
    by_cases hgeneric : hasGenericOwner m.declaring = true
    · have generic := hasGenericOwner_eq_true_iff.mp hgeneric
      rw [Entry.ofConstructor, Entry.ofMethod, if_pos hgeneric, if_pos hgeneric, ite_self]
      exact .genericMethod notDynamic generic
    · have notGeneric := mt hasGenericOwner_eq_true_iff.mpr hgeneric
      rw [Entry.ofConstructor, Entry.ofMethod, if_neg hgeneric, if_neg hgeneric]
      split
      · exact .constructor notDynamic notGeneric ‹_›
      · rename_i hconstructor
        exact .method notDynamic notGeneric (Bool.eq_false_iff.mpr hconstructor)

theorem tagged_ofField (f : FieldRef) : Tagged (.member (.field f)) (.ofMember (.field f)) := by
  rw [Entry.ofMember, Entry.ofField]
  split
  · rename_i hgeneric
    exact .genericField (hasGenericOwner_eq_true_iff.mp hgeneric)
  · rename_i hgeneric
    exact .field (mt hasGenericOwner_eq_true_iff.mpr hgeneric)

theorem tagged_entry (x : Referent) : x.Tagged x.entry := by
  cases x with
  | string literal => exact .string
  | signature blob => exact .signature
  | member m =>
      cases m with
      | method m => exact tagged_ofMethod m
      | field f => exact tagged_ofField f
      | type t => exact .type

/-- An entry holds all of what it stands for. -/
theorem Tagged.injective {x y : Referent} {entry : Entry} (hx : x.Tagged entry)
    (hy : y.Tagged entry) : x = y := by
  cases hx <;> cases hy <;> rfl

/-- The tests that decide on the entry of a member exclude each other. -/
theorem Tagged.unique {x : Referent} {entry entry' : Entry} (h : x.Tagged entry)
    (h' : x.Tagged entry') : entry = entry' := by
  cases h <;> cases h' <;> simp_all

theorem entry_inj {x y : Referent} : x.entry = y.entry ↔ x = y := by
  constructor
  · intro h
    exact x.tagged_entry.injective (h ▸ y.tagged_entry)
  · rintro rfl
    rfl

end Referent

namespace Scope

/-- What a scope answers for a token operand: the kind of the operand says
what to ask for, and only kinds with a token ask for anything. -/
def referent? (source : Scope) (kind : OperandKind) (t : Token) :
    Option (Except Error Referent) :=
  match kind with
  | .string => some ((source.string t).map .string)
  | .sig => some ((source.signature t).map .signature)
  | .field | .method | .type | .tok => some ((source.member t).map .member)
  | _ => none

variable {source : Scope} {kind : OperandKind} {t : Token}

theorem entry_of_referent? {answer : Except Error Referent}
    (h : source.referent? kind t = some answer) :
    source.entry kind t = answer.map Referent.entry := by
  cases kind with
  | string =>
      cases h
      cases hsource : source.string t <;> simp only [Scope.entry, hsource] <;> rfl
  | sig =>
      cases h
      cases hsource : source.signature t <;> simp only [Scope.entry, hsource] <;> rfl
  | field | method | type | tok =>
      cases h
      cases hsource : source.member t <;> simp only [Scope.entry, hsource] <;> rfl
  | _ => cases h

/-- The error for an operand whose kind has no token. -/
def notReference (kind : OperandKind) (t : Token) : Error :=
  .impossible (kind.name ++ " operand " ++ t.text ++ " is not a metadata reference")

theorem entry_of_not_isToken (h : kind.isToken = false) :
    source.entry kind t = .error (notReference kind t) := by
  cases kind with
  | string | field | method | type | tok | sig => cases h
  | _ => rfl

end Scope

namespace Interning

variable {source source' : Scope} {kind kind' : OperandKind} {t t' r r' : Token}
  {x x' : Referent} {s s₁ s₂ s₃ : Interner}

theorem resolve_eq_token (named : t ≠ .null) (h : source.referent? kind t = some (.ok x)) :
    resolve source kind t = token x.entry := by
  rw [resolve_eq_intern named, Scope.entry_of_referent? h]
  rfl

theorem resolve_eq_error (named : t ≠ .null) {e : Error} (h : source.entry kind t = .error e)
    (s : Interner) : resolve source kind t s = (.error e, s) := by
  rw [resolve_eq_intern named, h]
  rfl

/-- What becomes of a token operand in the scope `s`. -/
structure Routed (source : Scope) (kind : OperandKind) (t : Token) (s : Interner) : Prop where
  null : t = .null → resolve source kind t s = (.ok .null, s)
  /-- A kind without a token is refused, whatever the source knows. -/
  refused : t ≠ .null → kind.isToken = false →
    resolve source kind t s = (.error (Scope.notReference kind t), s)
  failed : ∀ {e : Error}, t ≠ .null → source.referent? kind t = some (.error e) →
    resolve source kind t s = (.error e, s)
  named : ∀ {x : Referent}, t ≠ .null → source.referent? kind t = some (.ok x) →
    ∃ r s' entry, resolve source kind t s = (.ok r, s') ∧ x.Tagged entry ∧
      s'.get? r = some entry

/-- A call for an operand that refers to `x`, and the token that it gave. -/
structure Answered (source : Scope) (kind : OperandKind) (t : Token) (x : Referent)
    (s : Interner) (r : Token) (s' : Interner) : Prop where
  named : t ≠ .null
  refers : source.referent? kind t = some (.ok x)
  run : resolve source kind t s = (.ok r, s')

theorem Answered.intern (h : Answered source kind t x s r s₁) :
    s.intern x.entry = (.ok r, s₁) := by
  have hrun := h.run
  rwa [resolve_eq_token h.named h.refers] at hrun

theorem routed (hs : s.Reachable) (room : (resolve source kind t).Fits s) :
    Routed source kind t s where
  null h := by
    subst h
    rfl
  refused hnamed hkind := resolve_eq_error hnamed (Scope.entry_of_not_isToken hkind) s
  failed hnamed h := resolve_eq_error hnamed (Scope.entry_of_referent? h) s
  named := by
    intro x hnamed hx
    rw [Fits, resolve_eq_token hnamed hx] at room
    obtain ⟨r, hrun, hget⟩ := Interner.intern_ok hs room
    rw [resolve_eq_token hnamed hx]
    exact ⟨r, _, x.entry, hrun, x.tagged_entry, hget⟩

/-- The kinds of operands that can refer to any member. -/
def memberKinds : List OperandKind := [.field, .method, .type, .tok]

theorem referent?_of_member (hkind : kind ∈ memberKinds) {m : Member}
    (h : source.member t = .ok m) : source.referent? kind t = some (.ok (.member m)) := by
  simp only [memberKinds, List.mem_cons, List.not_mem_nil, or_false] at hkind
  rcases hkind with rfl | rfl | rfl | rfl <;> simp [Scope.referent?, h, Except.map]

/-- What can be relied on when operands are resolved from the state `s` on. -/
structure Faithful (s : Interner) : Prop where
  routed : ∀ {source kind t}, (resolve source kind t).Fits s → Routed source kind t s
  /-- Two calls, with any calls in between, give one token exactly if their
  operands refer to the same thing. -/
  eq_iff : ∀ {source kind t x r s₁ s₂ source' kind' t' x' r' s₃},
    Answered source kind t x s r s₁ → s₁.Later s₂ →
      Answered source' kind' t' x' s₂ r' s₃ → (r = r' ↔ x = x')
  /-- The kinds of the operands make no difference, and a second call for the
  same member leaves the scope as it is. -/
  member : ∀ {source kind t r s₁ s₂ source' kind' t' m}, kind ∈ memberKinds →
    kind' ∈ memberKinds → t ≠ .null → t' ≠ .null → source.member t = .ok m →
      source'.member t' = .ok m → resolve source kind t s = (.ok r, s₁) → s₁.Later s₂ →
        resolve source' kind' t' s₂ = (.ok r, s₂)

/-- **Operands are resolved faithfully** in every state of a scope. -/
theorem resolve_faithful (reachable : s.Reachable) : Faithful s where
  routed room := Interning.routed reachable room
  eq_iff h hlater h' := by
    rw [Interner.token_eq_iff reachable h.intern hlater h'.intern, Referent.entry_inj]
  member hkind hkind' hnamed hnamed' hm hm' hrun hlater := by
    rw [resolve_eq_token hnamed (referent?_of_member hkind hm)] at hrun
    rw [resolve_eq_token hnamed' (referent?_of_member hkind' hm')]
    exact Settles.token _ hrun hlater

/-- A constructor that a generic type declares. -/
def listConstructor : MethodRef :=
  ⟨⟨6⟩, ".ctor", some ⟨⟨10⟩, "List<int>", true, false⟩, true, false⟩

/-- A scope that has two tokens for the constructor. -/
def listScope : Scope :=
  TokenTable.toScope ⟨[(⟨0x0A000001⟩, .method listConstructor),
    (⟨0x0A000002⟩, .method listConstructor)], [], []⟩

/-- The constructor is named behind a string, and then by its other token in
an operand of another kind. -/
theorem resolve_faithful_listConstructor :
    ∃ r s', resolve listScope .method ⟨0x0A000001⟩ (Interner.empty.intern (.string "other")).2 =
        (.ok r, s') ∧
      s'.get? r = some (.genericMethod listConstructor) ∧
      resolve listScope .tok ⟨0x0A000002⟩ s' = (.ok r, s') := by
  have hfaithful := resolve_faithful (.intern (.refl _) (.string "other"))
  have hroom := (grows_resolve listScope .method ⟨0x0A000001⟩).fits
    (s := (Interner.empty.intern (.string "other")).2) (by decide)
  obtain ⟨r, s', entry, hrun, htagged, hget⟩ :=
    (hfaithful.routed hroom).named (by decide) rfl
  cases htagged.unique (.genericMethod rfl ⟨_, rfl, rfl⟩)
  refine ⟨r, s', hrun, hget, ?_⟩
  exact hfaithful.member (by decide) (by decide) (by decide) (by decide) rfl rfl hrun (.refl s')

end Interning

end Reroute
