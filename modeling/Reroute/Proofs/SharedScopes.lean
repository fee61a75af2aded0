import Reroute.Proofs.Cloning
import Reroute.Proofs.Restoring
/-!
# Clones that share a scope

Methods can be cloned one after the other into one scope (`Clone.cloneAll`),
and any of the calls may fail. The scope only grows by them, so the tokens of
a clone go on naming what they named when it was made (`Clone.Kept`). Every
stage of cloning settles, so cloning a method again gives the clone that is
there already and finds nothing left to intern. A call that is refused before
its first stage leaves the scope as it is (`Method.Refused`).
-/

namespace Reroute

/-! ## Cloning settles -/

namespace Instruction

theorem settles_retoken (source : Scope) (i : Instruction) :
    Interning.Settles (i.retoken source) := by
  rcases i.retoken_cases source with ⟨t, -, hrun⟩ | ⟨-, hrun⟩
  · rw [hrun]
    exact (Interning.Settles.resolve source i.kind t).bind (fun t' => .pure _) fun t' => .pure _
  · rw [hrun]
    exact .pure i

theorem settles_encodeIn (source : Scope) (i : Instruction) :
    Interning.Settles (i.encodeIn source) :=
  (settles_retoken source i).bind (fun _ => .ofExcept _) fun _ => .ofExcept _

theorem settles_retokenItems (source : Scope) (items : List (Except Error Instruction)) :
    Interning.Settles (retokenItems source items) := by
  induction items with
  | nil => exact .pure []
  | cons item rest ih =>
      refine Interning.Settles.ofExcept_bind fun i _ => ?_
      refine (settles_encodeIn source i).bind (fun first => ?_) fun first =>
        (grows_retokenItems source rest).bind fun others => .pure _
      exact ih.bind (fun others => .pure _) fun others => .pure _

theorem settles_retokenCode (source : Scope) (code : Bytes) :
    Interning.Settles (retokenCode source code) :=
  settles_retokenItems source _

end Instruction

namespace Method

/-- A method that is refused before anything of it is named. -/
inductive Refused (m : Method) : Error → Prop where
  | shape {reason : String} (obstacle : m.obstacle? = some reason) :
      Refused m (.unsupportedShape (m.name ++ ": " ++ reason))
  | ownerless (noObstacle : m.obstacle? = none) (notStatic : m.isStatic = false)
      (noOwner : m.declaring = none) :
      Refused m (.impossible ("instance method '" ++ m.name ++ "' has no declaring type"))
  | locals {b : Body} {e : Error} (noObstacle : m.obstacle? = none) (hasBody : m.body = some b)
      (receiver : m.isStatic ∨ m.declaring.isSome) (named : b.localSignature ≠ .null)
      (unresolved : m.scope.signature b.localSignature = .error e) : Refused m e

end Method

namespace Clone

variable {m : Method} {s s' later : Interner} {clone : Clone} {t : Token} {e : Error}

theorem settles_ofMethod (m : Method) : Interning.Settles (ofMethod m) := by
  rw [ofMethod_eq]
  refine Interning.Settles.ofExcept_bind fun body _ => ?_
  refine Interning.Settles.ofExcept_bind fun params _ => ?_
  refine Interning.Settles.ofExcept_bind fun localSignature _ => ?_
  have hcode := Instruction.grows_retokenCode m.scope body.code
  have hhandlers := Section.grows_encode m.scope body.regions
  refine (Interning.Settles.token _).bind (fun localToken => ?_) fun localToken =>
    hhandlers.bind fun handlers => hcode.bind fun code => .pure _
  refine (Section.settles_encode m.scope body.regions).bind (fun handlers => ?_) fun handlers =>
    hcode.bind fun code => .pure _
  exact (Instruction.settles_retokenCode m.scope body.code).bind (fun code => .pure _)
    fun code => .pure _

/-- A refused method leaves the scope as it is. -/
theorem ofMethod_of_refused (h : m.Refused e) (s : Interner) : ofMethod m s = (.error e, s) := by
  rw [ofMethod_eq]
  cases h with
  | shape obstacle =>
      rw [Method.cloneableBody, obstacle]
      rfl
  | ownerless noObstacle notStatic noOwner =>
      obtain ⟨-, -, -, -, hbody⟩ := Method.obstacle?_eq_none_iff.mp noObstacle
      obtain ⟨b, hb⟩ := Option.isSome_iff_exists.mp hbody
      rw [Method.cloneableBody, noObstacle, hb, Interning.ofExcept_ok_bind, Method.flatParams,
        Method.receiver?, notStatic, noOwner]
      rfl
  | @locals b e noObstacle hasBody receiver named unresolved =>
      obtain ⟨params, hparams⟩ := Method.exists_flatParams_iff.mpr receiver
      rw [Method.cloneableBody, noObstacle, hasBody, Interning.ofExcept_ok_bind, hparams,
        Interning.ofExcept_ok_bind, Body.locals, if_neg (mt Token.isNull_eq_true_iff.mp named),
        unresolved]
      rfl

/-! ## What a clone's tokens name -/

/-- A token names an entry in one state of a scope and the same one in
another. The null token names nothing in either. -/
def SameName (s s' : Interner) (t : Token) : Prop :=
  t = .null ∨ ∃ entry, s.get? t = some entry ∧ s'.get? t = some entry

/-- The tokens of a clone, in its code, in its section and for its local
variables, name in one state of its scope what they name in another. -/
structure Kept (c : Clone) (s s' : Interner) : Prop where
  locals : s.get? c.localToken = some (.signature c.localSignature) ∧
    s'.get? c.localToken = some (.signature c.localSignature)
  code : ∃ instructions, Instruction.decode c.code = .ok instructions ∧
    ∀ i ∈ instructions, ∀ t, i.operand = .token t → SameName s s' t
  handlers : c.handlers ≠ [] → ∃ regions cursor,
    Section.readChain.runOn c.handlers = (.ok regions, cursor) ∧
      ∀ r ∈ regions, ∀ t, r.catchType = some t → SameName s s' t

theorem sameName_of_renames {source : Scope} {kind : OperandKind} {t' : Token}
    (h : source.Renames s kind t t') (hlater : s.Later s') : SameName s s' t' := by
  cases h with
  | null => exact .inl rfl
  | entry _ _ found => exact .inr ⟨_, found, hlater.get?_eq_some found⟩

theorem exists_renames_of_renamed {source : Scope} {kind : OperandKind} {old : Operand}
    (h : Operand.Renamed source s kind old (.token t)) : ∃ t₀, source.Renames s kind t₀ t := by
  cases h with
  | token renames => exact ⟨_, renames⟩
  | other noToken => cases noToken

theorem exists_renames_of_restored {source : Scope} {r found : Region} (hs : s.Reachable)
    (h : r.Restored source s found) (htype : found.catchType = some t) :
    ∃ t₀, source.Renames s .type t₀ t := by
  by_cases hkind : r.kind = .catchClause
  · obtain ⟨t₀, t', -, -, hresolve, hfound⟩ := h.catchType hkind
    cases hfound.symm.trans htype
    exact ⟨t₀, Interning.renames_of_resolve hs hresolve⟩
  · rw [h.noCatchType hkind] at htype
    cases htype

theorem forall_of_forall₂ {α β : Type} {R : α → β → Prop} {P : β → Prop} {list : List α}
    {others : List β} (h : List.Forall₂ R list others) (hP : ∀ a b, R a b → P b) :
    ∀ b ∈ others, P b := by
  have hboth := h.flip.imp fun b a hab => And.intro (hP a b hab) hab
  exact ((List.forall₂_and_left _ _).mp hboth).1

/-- Each stage gave tokens that name something in the scope that it left
behind, and so in all that came of that scope. -/
theorem kept_of_ofMethod (hs : s.Reachable) (h : ofMethod m s = (.ok clone, s'))
    (hlater : s'.Later later) : clone.Kept s' later := by
  obtain ⟨b, s₁, s₂, -, -, -, htoken, hhandlers, hcode, -, -⟩ := exists_stages h
  have hlater₁ := (Interning.Grows.token _).later htoken
  have hlater₂ := (Section.grows_encode m.scope b.regions).later hhandlers
  have hlater₃ := (Instruction.grows_retokenCode m.scope b.code).later hcode
  have hs₂ := (hs.trans hlater₁).trans hlater₂
  refine ⟨?_, ?_, ?_⟩
  · have hget := (hlater₂.trans hlater₃).get?_eq_some (Interning.get?_of_token_ok hs htoken)
    exact ⟨hget, hlater.get?_eq_some hget⟩
  · obtain ⟨instructions, others, -, hothers, hretokened⟩ :=
      (Instruction.retokenedCode_of_ok hs₂ hcode).decoded
    refine ⟨others, hothers, forall_of_forall₂ hretokened fun i j hj t hoperand => ?_⟩
    obtain ⟨t₀, hrenames⟩ := exists_renames_of_renamed (hoperand ▸ hj.operand)
    exact sameName_of_renames hrenames hlater
  · intro hfilled
    obtain ⟨found, cursor, hread, -, hrestored⟩ := Section.restored_of_encode hhandlers hfilled
    refine ⟨found, cursor, hread, forall_of_forall₂ hrestored fun r r' hr' t htype => ?_⟩
    obtain ⟨t₀, hrenames⟩ := exists_renames_of_restored hs₂ hr' htype
    exact sameName_of_renames (hrenames.later hlater₃) hlater

/-! ## Calls one behind the other -/

/-- The answers to calls that clone methods into one scope, and the scope
behind them. -/
def cloneAll : List Method → Interner → List (Except Error Clone) × Interner
  | [], s => ([], s)
  | m :: rest, s =>
    let (answer, s) := ofMethod m s
    let (answers, s) := cloneAll rest s
    (answer :: answers, s)

/-- A call that fails has only interned entries too. -/
theorem later_ofMethod (m : Method) (s : Interner) : s.Later (ofMethod m s).2 := by
  cases hbody : m.body with
  | some b => exact (grows_ofMethod hbody).grows s
  | none =>
      cases hobstacle : m.obstacle? with
      | some reason =>
          rw [ofMethod_of_refused (.shape hobstacle)]
          exact .refl s
      | none =>
          obtain ⟨-, -, -, -, hsome⟩ := Method.obstacle?_eq_none_iff.mp hobstacle
          rw [hbody] at hsome
          cases hsome

theorem later_cloneAll (methods : List Method) (s : Interner) :
    s.Later (cloneAll methods s).2 := by
  induction methods generalizing s with
  | nil => exact .refl s
  | cons m rest ih => exact (later_ofMethod m s).trans (ih _)

/-- What callers that share a scope can rely on, in the state `s`. -/
structure Undisturbed (s : Interner) : Prop where
  /-- No calls change what the tokens of a clone name. -/
  kept : ∀ {m clone s'} (more : List Method), ofMethod m s = (.ok clone, s') →
    clone.Kept s' (cloneAll more s').2
  /-- Behind any calls a method has the same clone in every part, and cloning
  it leaves the scope as it is. -/
  again : ∀ {m clone s'} (more : List Method), ofMethod m s = (.ok clone, s') →
    ofMethod m (cloneAll more s').2 = (.ok clone, (cloneAll more s').2)
  refused : ∀ {m e}, m.Refused e → ofMethod m s = (.error e, s)

/-- **Clones that share a scope do not disturb each other**, behind any calls
and whatever calls follow, those that fail at any stage included. -/
theorem cloneAll_undisturbed (past : List Method) {s : Interner} (reachable : s.Reachable) :
    Undisturbed (cloneAll past s).2 where
  kept more h := kept_of_ofMethod (reachable.trans (later_cloneAll past s)) h (later_cloneAll more _)
  again more h := settles_ofMethod _ h (later_cloneAll more _)
  refused h := ofMethod_of_refused h _

/-- A method that throws away a string that its scope knows and one that it
does not, so cloning it fails when the first one is interned. -/
def halfNamed : Method :=
  { guarded with
    name := "HalfNamed"
    body := some (.ofCode
      [0x72, 0x09, 0x00, 0x00, 0x70, 0x26, 0x72, 0x0A, 0x00, 0x00, 0x70, 0x26, 0x2A]) }

theorem cloneAll_undisturbed_guarded :
    ∃ clone s', ofMethod guarded (cloneAll [halfNamed] .empty).2 = (.ok clone, s') ∧
      (cloneAll [halfNamed] .empty).2.entries = [.signature noLocals, .string "hello"] ∧
      clone.Kept s' (cloneAll [halfNamed, guarded] s').2 ∧
      ofMethod guarded (cloneAll [halfNamed, guarded] s').2 =
        (.ok clone, (cloneAll [halfNamed, guarded] s').2) := by
  have hundisturbed := cloneAll_undisturbed [halfNamed] (.refl .empty)
  obtain ⟨clone, s', hrun⟩ :
      ∃ clone s', ofMethod guarded (cloneAll [halfNamed] .empty).2 = (.ok clone, s') :=
    ⟨_, _, rfl⟩
  exact ⟨clone, s', hrun, rfl, hundisturbed.kept _ hrun, hundisturbed.again _ hrun⟩

end Clone

end Reroute
