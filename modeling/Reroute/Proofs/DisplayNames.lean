import Reroute.Proofs.Interning
/-!
# Display names tell entries apart

The runtime knows types, methods and fields by their handles, and names are
for display. Two references are to the same entity if they agree on all but
names, their own and their owner's (`Ask.SameEntity`). An entry however holds
the whole reference, so interning compares the names too: two requests for
one entity are answered by one token exactly if the display names agree as
well (`Interner.same_token_iff`), and a type under two names has two tokens.
-/

namespace Reroute

/-! ## References to one entity -/

/-- Types that agree on all but their names. -/
structure TypeRef.SameEntity (t u : TypeRef) : Prop where
  handle : t.handle = u.handle
  isGeneric : t.isGeneric = u.isGeneric
  isValueType : t.isValueType = u.isValueType

/-- Owners that agree on all but their names. -/
inductive SameOwner : Option TypeRef → Option TypeRef → Prop where
  | global : SameOwner none none
  | owned {t u : TypeRef} (same : t.SameEntity u) : SameOwner (some t) (some u)

/-- Methods that agree on all but names, their own and their owner's. -/
structure MethodRef.SameEntity (m n : MethodRef) : Prop where
  handle : m.handle = n.handle
  declaring : SameOwner m.declaring n.declaring
  isConstructor : m.isConstructor = n.isConstructor
  isDynamic : m.isDynamic = n.isDynamic

/-- Fields that agree on all but names, their own and their owner's. -/
structure FieldRef.SameEntity (f g : FieldRef) : Prop where
  handle : f.handle = g.handle
  declaring : SameOwner f.declaring g.declaring

namespace Ask

/-- Two requests of one sort for references to the same entity. -/
inductive SameEntity : Ask → Ask → Prop where
  | method {m n : MethodRef} (same : m.SameEntity n) : SameEntity (.method m) (.method n)
  | constructor {m n : MethodRef} (same : m.SameEntity n) :
      SameEntity (.constructor m) (.constructor n)
  | dynamicMethod {m n : MethodRef} (same : m.SameEntity n) :
      SameEntity (.dynamicMethod m) (.dynamicMethod n)
  | field {f g : FieldRef} (same : f.SameEntity g) : SameEntity (.field f) (.field g)
  | type {t u : TypeRef} (same : t.SameEntity u) : SameEntity (.type t) (.type u)

/-- A reference's own name and that of its owner. -/
def withOwner (name : String) (owner : Option TypeRef) : List String :=
  name :: (owner.map TypeRef.name).toList

/-- The display names in what is asked for. -/
def displayNames : Ask → List String
  | .method m | .constructor m | .dynamicMethod m => withOwner m.name m.declaring
  | .field f => withOwner f.name f.declaring
  | .type t => [t.name]
  | .string _ | .signature _ => []

end Ask

theorem TypeRef.SameEntity.eq_of_name {t u : TypeRef} (h : t.SameEntity u)
    (hname : t.name = u.name) : t = u := by
  cases t
  cases u
  obtain ⟨rfl, rfl, rfl⟩ := h
  cases hname
  rfl

theorem SameOwner.eq_of_names {owner owner' : Option TypeRef} {name name' : String}
    (h : SameOwner owner owner')
    (hnames : Ask.withOwner name owner = Ask.withOwner name' owner') :
    name = name' ∧ owner = owner' := by
  cases h with
  | global => exact ⟨(List.cons.inj hnames).1, rfl⟩
  | owned same =>
      obtain ⟨hname, hrest⟩ := List.cons.inj hnames
      exact ⟨hname, congrArg some (same.eq_of_name (List.cons.inj hrest).1)⟩

theorem MethodRef.SameEntity.eq_of_names {m n : MethodRef} (h : m.SameEntity n)
    (hnames : Ask.withOwner m.name m.declaring = Ask.withOwner n.name n.declaring) : m = n := by
  obtain ⟨hname, hdeclaring⟩ := h.declaring.eq_of_names hnames
  cases m
  cases n
  obtain ⟨rfl, -, rfl, rfl⟩ := h
  cases hname
  cases hdeclaring
  rfl

theorem FieldRef.SameEntity.eq_of_names {f g : FieldRef} (h : f.SameEntity g)
    (hnames : Ask.withOwner f.name f.declaring = Ask.withOwner g.name g.declaring) : f = g := by
  obtain ⟨hname, hdeclaring⟩ := h.declaring.eq_of_names hnames
  cases f
  cases g
  obtain ⟨rfl, -⟩ := h
  cases hname
  cases hdeclaring
  rfl

/-! ## Entries and names -/

namespace Entry

theorem ofMethod_inj {m n : MethodRef} (h : ofMethod m = ofMethod n) : m = n := by
  unfold ofMethod at h
  split at h <;> split at h <;> cases h <;> rfl

theorem ofConstructor_inj {m n : MethodRef} (h : ofConstructor m = ofConstructor n) : m = n := by
  unfold ofConstructor at h
  split at h <;> split at h <;> cases h <;> rfl

theorem ofField_inj {f g : FieldRef} (h : ofField f = ofField g) : f = g := by
  unfold ofField at h
  split at h <;> split at h <;> cases h <;> rfl

end Entry

namespace Ask

variable {a b : Ask}

/-- Names are all that references to one entity can differ in. -/
theorem SameEntity.eq_iff (h : a.SameEntity b) : a = b ↔ a.displayNames = b.displayNames := by
  refine ⟨congrArg displayNames, fun hnames => ?_⟩
  cases h with
  | method same => exact congrArg Ask.method (same.eq_of_names hnames)
  | constructor same => exact congrArg Ask.constructor (same.eq_of_names hnames)
  | dynamicMethod same => exact congrArg Ask.dynamicMethod (same.eq_of_names hnames)
  | field same => exact congrArg Ask.field (same.eq_of_names hnames)
  | type same => exact congrArg Ask.type (same.eq_of_name (List.cons.inj hnames).1)

/-- An entry holds the names too. -/
theorem SameEntity.entry_eq_iff (h : a.SameEntity b) :
    a.entry = b.entry ↔ a.displayNames = b.displayNames := by
  rw [← h.eq_iff]
  refine ⟨fun hentry => ?_, congrArg Ask.entry⟩
  cases h with
  | method => exact congrArg Ask.method (Entry.ofMethod_inj hentry)
  | constructor => exact congrArg Ask.constructor (Entry.ofConstructor_inj hentry)
  | dynamicMethod => exact congrArg Ask.dynamicMethod (Entry.dynamicMethod.inj hentry)
  | field => exact congrArg Ask.field (Entry.ofField_inj hentry)
  | type => exact congrArg Ask.type (Entry.type.inj hentry)

end Ask

namespace Interner

/-- **One entity has one token exactly under one name.** Where there is room,
two requests for the same entity are both answered, with anything asked for in
between, and the tokens are the same exactly if the display names are. -/
theorem same_token_iff {s later : Interner} {a b : Ask} (reachable : s.Reachable)
    (same : a.SameEntity b) (between : (s.intern a.entry).2.Later later)
    (room : (later.intern b.entry).2.size ≤ Token.maxRow) :
    ∃ token token', (s.intern a.entry).1 = .ok token ∧ (later.intern b.entry).1 = .ok token' ∧
      (token = token' ↔ a.displayNames = b.displayNames) := by
  have hlater : s.Later later := ((Later.refl s).intern a.entry).trans between
  have hstep : later.Later (later.intern b.entry).2 := (Later.refl later).intern b.entry
  have hroom := Nat.le_trans (between.trans hstep).size_le room
  obtain ⟨token, hrun, -⟩ := intern_ok reachable hroom
  obtain ⟨token', hrun', -⟩ := intern_ok (reachable.trans hlater) room
  refine ⟨token, token', by rw [hrun], by rw [hrun'], ?_⟩
  rw [token_eq_iff reachable hrun between hrun', same.entry_eq_iff]

/-- A field of a type and the same field of the type under its full name, with
the type asked for in between. -/
theorem same_token_iff_field :
    ∃ token token', (empty.intern (.field ⟨⟨3⟩, "x", some ⟨⟨7⟩, "Point", false, true⟩⟩)).1 =
        .ok token ∧
      (((empty.intern (.field ⟨⟨3⟩, "x", some ⟨⟨7⟩, "Point", false, true⟩⟩)).2.intern
        (.type ⟨⟨7⟩, "Point", false, true⟩)).2.intern
          (.field ⟨⟨3⟩, "x", some ⟨⟨7⟩, "Shapes.Point", false, true⟩⟩)).1 = .ok token' ∧
      token ≠ token' := by
  have hboth := same_token_iff
    (a := .field ⟨⟨3⟩, "x", some ⟨⟨7⟩, "Point", false, true⟩⟩)
    (b := .field ⟨⟨3⟩, "x", some ⟨⟨7⟩, "Shapes.Point", false, true⟩⟩)
    (.refl empty) (.field ⟨rfl, .owned ⟨rfl, rfl, rfl⟩⟩)
    (.intern (.refl _) (.type ⟨⟨7⟩, "Point", false, true⟩)) (by decide)
  obtain ⟨token, token', hrun, hrun', hiff⟩ := hboth
  exact ⟨token, token', hrun, hrun', mt hiff.mp (by decide)⟩

/-- One entity does not always have one token: a type that is asked for under
two names is given two. -/
theorem not_one_token :
    Ask.SameEntity (.type ⟨⟨1⟩, "A", false, false⟩) (.type ⟨⟨1⟩, "B", false, false⟩) ∧
      (askAll [.type ⟨⟨1⟩, "A", false, false⟩, .type ⟨⟨1⟩, "B", false, false⟩] empty).1 =
        [.ok ⟨0x02000001⟩, .ok ⟨0x02000002⟩] :=
  ⟨.type ⟨rfl, rfl, rfl⟩, rfl⟩

end Interner

end Reroute
