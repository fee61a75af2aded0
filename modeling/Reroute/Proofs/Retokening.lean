import Reroute.Clone
import Reroute.Proofs.Interning
import Reroute.Proofs.StreamItems
/-!
# Code whose tokens are named anew

`Retokened` relates an instruction to what becomes of it in a clone: it is
the same instruction, except that its token names in the scope of the clone
what the source says that the token named. So it has as many bytes, of which
only those of the token can differ, and it stands in the same place. The run
over a stream keeps this relation from one instruction to the next while the
scope grows, and stops at the first instruction that does not decode or
whose token the source cannot resolve (`FirstFault`).
-/

namespace Reroute

namespace Operand

/-- An operand and the one that takes its place in another scope. -/
inductive Renamed (source : Scope) (s : Interner) (kind : OperandKind) :
    Operand → Operand → Prop where
  | token {t t' : Token} (renames : source.Renames s kind t t') :
      Renamed source s kind (.token t) (.token t')
  | other {operand : Operand} (noToken : operand.token? = Option.none) :
      Renamed source s kind operand operand

namespace Renamed

variable {source : Scope} {s s' : Interner} {kind : OperandKind} {old new : Operand}

theorem later (h : Renamed source s kind old new) (hlater : s.Later s') :
    Renamed source s' kind old new := by
  cases h with
  | token renames => exact .token (renames.later hlater)
  | other noToken => exact .other noToken

/-- No token is a distance. -/
theorem deltas (h : Renamed source s kind old new) : new.deltas = old.deltas := by
  cases h <;> rfl

theorem meant {t : Token} (h : Renamed source s kind (.token t) new) (named : t ≠ .null) :
    ∃ entry, source.entry kind t = .ok entry := by
  cases h with
  | token renames =>
      cases renames with
      | null => exact absurd rfl named
      | entry _ meant _ => exact ⟨_, meant⟩
  | other noToken => cases noToken

theorem form {declared : OperandKind} {bytes : Bytes} (h : Renamed source s kind old new)
    (hform : Operand.Form declared old bytes) :
    ∃ out, Operand.Form declared new out ∧ out.length = bytes.length ∧
      (out = bytes ∨ old.token?.isSome ∧ bytes.length = 4) := by
  cases h with
  | other => exact ⟨bytes, hform, rfl, Or.inl rfl⟩
  | @token t t' =>
      cases hform with
      | token isToken =>
          have hold : (LittleEndian.toBytes t.value).length = 4 :=
            LittleEndian.length_toBytes t.value
          have hnew : (LittleEndian.toBytes t'.value).length = 4 :=
            LittleEndian.length_toBytes t'.value
          exact ⟨_, .token isToken t', hnew.trans hold.symm, Or.inr ⟨rfl, hold⟩⟩

end Renamed

end Operand

namespace Instruction

/-- An instruction and the one that takes its place in another scope. -/
structure Retokened (source : Scope) (s : Interner) (i j : Instruction) : Prop where
  offset : j.offset = i.offset
  size : j.size = i.size
  lead : j.lead = i.lead
  opcode : j.opcode = i.opcode
  mnemonic : j.mnemonic = i.mnemonic
  kind : j.kind = i.kind
  flow : j.flow = i.flow
  operand : Operand.Renamed source s i.kind i.operand j.operand
  targets : j.targets = i.targets

/-- The source resolves the token of an instruction, if it has one that is
not null. -/
def Resolves (source : Scope) (i : Instruction) : Prop :=
  ∀ t, i.operand = .token t → t ≠ .null → ∃ entry, source.entry i.kind t = .ok entry

/-- The token of an instruction takes its last four bytes. -/
def HasTokenAt (i : Instruction) (position : Nat) : Prop :=
  i.token?.isSome ∧ i.next - 4 ≤ position ∧ position < i.next

/-- The error of the first instruction from a cursor on that does not decode
or does not resolve. -/
inductive FirstFault (source : Scope) : Cursor → Error → Prop where
  | undecoded {c c' : Cursor} {e : Error} (more : c.ahead ≠ []) (fails : read c = (.error e, c')) :
      FirstFault source c e
  | unresolved {c c' : Cursor} {i : Instruction} {t : Token} {e : Error}
      (reads : read c = (.ok i, c')) (hasToken : i.operand = .token t) (named : t ≠ .null)
      (fails : source.entry i.kind t = .error e) : FirstFault source c e
  | later {c c' : Cursor} {i : Instruction} {e : Error} (reads : read c = (.ok i, c'))
      (resolves : i.Resolves source) (behind : FirstFault source c' e) : FirstFault source c e

variable {source : Scope} {s s' : Interner} {i j : Instruction} {bytes out : Bytes} {e : Error}

/-! ## One instruction -/

theorem Retokened.later (h : Retokened source s i j) (hlater : s.Later s') :
    Retokened source s' i j where
  offset := h.offset
  size := h.size
  lead := h.lead
  opcode := h.opcode
  mnemonic := h.mnemonic
  kind := h.kind
  flow := h.flow
  targets := h.targets
  operand := h.operand.later hlater

theorem Retokened.resolves (h : Retokened source s i j) : i.Resolves source := by
  intro t hoperand hnamed
  have hrenamed := h.operand
  rw [hoperand] at hrenamed
  exact hrenamed.meant hnamed

theorem Retokened.encode (h : Retokened source s i j) (hencode : i.encode = .ok bytes) :
    ∃ out, j.encode = .ok out ∧ out.length = bytes.length ∧
      ∀ position, (i.token?.isSome → position < bytes.length - 4) →
        out[position]? = bytes[position]? := by
  obtain ⟨row, old, hfind, hmnemonic, hkind, hold, rfl⟩ := encode_eq_ok_iff.mp hencode
  obtain ⟨new, hnew, hlen, hsame⟩ := h.operand.form hold
  refine ⟨Opcode.form i.lead i.opcode ++ new, ?_, ?_, ?_⟩
  · refine encode_eq_ok_iff.mpr ⟨row, new, ?_, ?_, ?_, hnew, ?_⟩
    · rw [h.lead, h.opcode]
      exact hfind
    · rw [h.mnemonic]
      exact hmnemonic
    · rw [h.kind]
      exact hkind
    · rw [h.lead, h.opcode]
  · rw [List.length_append, List.length_append, hlen]
  · intro position hposition
    rcases hsame with rfl | ⟨htoken, hfour⟩
    · rfl
    · have hlt := hposition htoken
      rw [List.length_append, hfour, Nat.add_sub_cancel] at hlt
      rw [List.getElem?_append_left hlt, List.getElem?_append_left hlt]

theorem Retokened.encodedSize (h : Retokened source s i j) (hencode : i.encode = .ok bytes) :
    j.encodedSize = i.encodedSize := by
  obtain ⟨out, hout, hlen, -⟩ := h.encode hencode
  rw [encodedSize_of_encode hout, encodedSize_of_encode hencode, hlen]

theorem Retokened.placedAt (h : Retokened source s i j) (hencode : i.encode = .ok bytes)
    {position : Nat} (hplaced : i.PlacedAt position) : j.PlacedAt position where
  offset := h.offset.trans hplaced.offset
  size := by
    rw [h.size, hplaced.size, h.encodedSize hencode]
  flow := by
    rw [h.lead, h.opcode, h.flow]
    exact hplaced.flow
  targets := by
    rw [h.targets, h.operand.deltas, next, h.offset, h.size]
    exact hplaced.targets

/-- A token is resolved, and an instruction without one is left alone. -/
theorem retoken_cases (source : Scope) (i : Instruction) :
    (∃ t, i.operand = .token t ∧ i.retoken source =
      Interning.resolve source i.kind t >>= fun t' => pure { i with operand := .token t' }) ∨
    (i.operand.token? = none ∧ i.retoken source = pure i) := by
  unfold retoken
  cases i.operand with
  | token t => exact Or.inl ⟨t, rfl, rfl⟩
  | _ => exact Or.inr ⟨rfl, rfl⟩

theorem grows_retoken (source : Scope) (i : Instruction) :
    Interning.Grows (i.retoken source) 1 := by
  rcases i.retoken_cases source with ⟨t, -, hrun⟩ | ⟨-, hrun⟩
  · rw [hrun]
    exact (Interning.grows_resolve source i.kind t).bind fun t' => .pure _
  · rw [hrun]
    exact (Interning.Grows.pure i).mono (Nat.zero_le 1)

theorem retokened_of_retoken (hs : s.Reachable) (h : i.retoken source s = (.ok j, s')) :
    Retokened source s' i j := by
  rcases i.retoken_cases source with ⟨t, hoperand, hrun⟩ | ⟨hother, hrun⟩
  · rw [hrun, bind_eq_ok_iff] at h
    obtain ⟨t', s₁, hresolve, hpure⟩ := h
    obtain ⟨rfl, rfl⟩ := pure_eq_ok_iff.mp hpure
    have hrenames := Interning.renames_of_resolve hs hresolve
    exact ⟨rfl, rfl, rfl, rfl, rfl, rfl, rfl, hoperand ▸ .token hrenames, rfl⟩
  · rw [hrun] at h
    obtain ⟨rfl, rfl⟩ := pure_eq_ok_iff.mp h
    exact ⟨rfl, rfl, rfl, rfl, rfl, rfl, rfl, .other hother, rfl⟩

theorem unresolved_of_retoken (hs : s.Reachable) (room : s'.size ≤ Token.maxRow)
    (h : i.retoken source s = (.error e, s')) :
    ∃ t, i.operand = .token t ∧ t ≠ .null ∧ source.entry i.kind t = .error e := by
  rcases i.retoken_cases source with ⟨t, hoperand, hrun⟩ | ⟨-, hrun⟩
  · rw [hrun, bind_eq_error_iff] at h
    rcases h with hresolve | ⟨t', s₁, -, hpure⟩
    · exact ⟨t, hoperand, Interning.entry_of_resolve_error hs room hresolve⟩
    · exact absurd hpure pure_ne_error
  · rw [hrun] at h
    exact absurd h pure_ne_error

/-- Whatever a token is replaced by, there are bytes for the instruction. -/
theorem exists_encode_of_retoken (hbytes : i.encode = .ok bytes)
    (h : i.retoken source s = (.ok j, s')) : ∃ out, j.encode = .ok out := by
  rcases i.retoken_cases source with ⟨t, hoperand, hrun⟩ | ⟨-, hrun⟩
  · rw [hrun, bind_eq_ok_iff] at h
    obtain ⟨t', s₁, -, hpure⟩ := h
    obtain ⟨rfl, -⟩ := pure_eq_ok_iff.mp hpure
    obtain ⟨row, old, hfind, hmnemonic, hkind, hform, -⟩ := encode_eq_ok_iff.mp hbytes
    rw [hoperand] at hform
    have hnew : Operand.Form row.kind (.token t') _ := .token hform.isToken t'
    exact ⟨_, encode_eq_ok_iff.mpr ⟨row, _, hfind, hmnemonic, hkind, hnew, rfl⟩⟩
  · rw [hrun] at h
    obtain ⟨rfl, -⟩ := pure_eq_ok_iff.mp h
    exact ⟨bytes, hbytes⟩

theorem grows_encodeIn (source : Scope) (i : Instruction) :
    Interning.Grows (i.encodeIn source) 1 :=
  (grows_retoken source i).bind fun _ => .ofExcept _

theorem retokened_of_encodeIn (hs : s.Reachable) (h : i.encodeIn source s = (.ok bytes, s')) :
    ∃ j, Retokened source s' i j ∧ j.encode = .ok bytes := by
  rw [encodeIn, bind_eq_ok_iff] at h
  obtain ⟨j, s₁, hretoken, hrun⟩ := h
  obtain ⟨hencode, rfl⟩ := Interning.ofExcept_eq_ok_iff.mp hrun
  exact ⟨j, retokened_of_retoken hs hretoken, hencode⟩

/-- What can be encoded before its token is named anew can be so afterwards. -/
theorem unresolved_of_encodeIn (hs : s.Reachable) (room : s'.size ≤ Token.maxRow)
    (hbytes : i.encode = .ok bytes) (h : i.encodeIn source s = (.error e, s')) :
    ∃ t, i.operand = .token t ∧ t ≠ .null ∧ source.entry i.kind t = .error e := by
  rw [encodeIn, bind_eq_error_iff] at h
  rcases h with hretoken | ⟨j, s₁, hretoken, hrun⟩
  · exact unresolved_of_retoken hs room hretoken
  · obtain ⟨hencode, rfl⟩ := Interning.ofExcept_eq_error_iff.mp hrun
    obtain ⟨out, hout⟩ := exists_encode_of_retoken hbytes hretoken
    rw [hout] at hencode
    cases hencode

/-! ## A stream -/

variable {c : Cursor} {items : List (Except Error Instruction)} {code : Bytes}
  {instructions others : List Instruction}

/-- What becomes of a stream has the same places, and its bytes are the same
wherever there is no token. -/
theorem encodeAll_of_retokened {position : Nat}
    (hretokened : List.Forall₂ (Retokened source s) instructions others)
    (hencode : encodeAll instructions = .ok code) (hplaced : PlacedFrom position instructions) :
    ∃ out, encodeAll others = .ok out ∧ PlacedFrom position others ∧ out.length = code.length ∧
      ∀ index, (∀ i ∈ instructions, ¬i.HasTokenAt (position + index)) →
        out[index]? = code[index]? := by
  induction hretokened generalizing position code with
  | nil => exact ⟨code, hencode, trivial, rfl, fun index _ => rfl⟩
  | @cons i j rest others hfirst _ ih =>
      obtain ⟨front, back, hfront, hback, rfl⟩ := encodeAll_cons_eq_ok_iff.mp hencode
      obtain ⟨front', hfront', hlen, hsame⟩ := hfirst.encode hfront
      obtain ⟨back', hback', hplaced', hlen', hsame'⟩ := ih hback hplaced.2
      have hsize := encodedSize_of_encode hfront
      have hnext : i.next = position + front.length := by
        rw [next, hplaced.1.offset, hplaced.1.size, hsize]
      rw [← hfirst.encodedSize hfront] at hplaced'
      refine ⟨front' ++ back', encodeAll_cons_eq_ok_iff.mpr ⟨_, _, hfront', hback', rfl⟩,
        ⟨hfirst.placedAt hfront hplaced.1, hplaced'⟩, ?_, ?_⟩
      · rw [List.length_append, List.length_append, hlen, hlen']
      · intro index houtside
        by_cases hindex : index < front.length
        · rw [List.getElem?_append_left hindex, List.getElem?_append_left (hlen ▸ hindex)]
          refine hsame index fun htoken => ?_
          have hnot := houtside i (List.mem_cons_self ..)
          rw [HasTokenAt, hnext] at hnot
          by_contra hge
          exact hnot ⟨htoken, by omega, by omega⟩
        · have hge : front.length ≤ index := Nat.not_lt.mp hindex
          rw [List.getElem?_append_right hge, List.getElem?_append_right (hlen ▸ hge), hlen]
          refine hsame' _ fun i' hmem => ?_
          have hnot := houtside i' (List.mem_cons_of_mem i hmem)
          rwa [hsize, Nat.add_assoc, Nat.add_sub_cancel' hge]

theorem grows_retokenItems (source : Scope) (items : List (Except Error Instruction)) :
    Interning.Grows (retokenItems source items) items.length := by
  induction items with
  | nil => exact .pure []
  | cons item rest ih =>
      rw [List.length_cons, Nat.add_comm]
      exact Interning.Grows.ofExcept_bind fun i _ =>
        (grows_encodeIn source i).bind fun first => ih.bind fun others => .pure _

/-- The induction is on the items. What became of the first one is still so
when the scope has grown by the rest. -/
theorem retokened_of_retokenItems (hs : s.Reachable)
    (h : retokenItems source items s = (.ok out, s')) :
    ∃ instructions others, items = instructions.map .ok ∧
      List.Forall₂ (Retokened source s') instructions others ∧ encodeAll others = .ok out := by
  induction items generalizing s out with
  | nil =>
      obtain ⟨rfl, rfl⟩ := pure_eq_ok_iff.mp h
      exact ⟨[], [], rfl, .nil, rfl⟩
  | cons item rest ih =>
      simp only [retokenItems, bind_eq_ok_iff, pure_eq_ok_iff, Interning.ofExcept_eq_ok_iff] at h
      obtain ⟨i, s₀, ⟨rfl, rfl⟩, front, s₁, hfirst, back, s₂, hrest, rfl, rfl⟩ := h
      have hlater₁ := (grows_encodeIn source i).later hfirst
      have hlater := (grows_retokenItems source rest).later hrest
      obtain ⟨j, hj, hfront⟩ := retokened_of_encodeIn hs hfirst
      obtain ⟨instructions, others, rfl, hothers, hback⟩ := ih (hs.trans hlater₁) hrest
      exact ⟨i :: instructions, j :: others, rfl, .cons (hj.later hlater) hothers,
        encodeAll_cons_eq_ok_iff.mpr ⟨front, back, hfront, hback, rfl⟩⟩

theorem firstFault_of_retokenItems (hitems : Items c items) (hs : s.Reachable)
    (room : s'.size ≤ Token.maxRow) (h : retokenItems source items s = (.error e, s')) :
    FirstFault source c e := by
  induction hitems generalizing s with
  | done => exact absurd h pure_ne_error
  | failed more fails =>
      cases h
      exact .undecoded more fails
  | @next c c' i rest reads _ ih =>
      simp only [retokenItems, bind_eq_error_iff, Interning.ofExcept_eq_ok_iff,
        Interning.ofExcept_eq_error_iff, pure_ne_error, and_false, exists_false, or_false] at h
      -- An instruction that was read stops the run by its token, or a later one does.
      rcases h with ⟨h, -⟩ | ⟨_, s₀, ⟨heq, rfl⟩, hfirst | ⟨front, s₁, hfirst, hrest⟩⟩
      · cases h
      · cases heq
        obtain ⟨bytes, hbytes, -⟩ := read_eq_ok_iff.mp reads
        obtain ⟨t, hoperand, hnamed, hfails⟩ := unresolved_of_encodeIn hs room hbytes hfirst
        exact .unresolved reads hoperand hnamed hfails
      · cases heq
        have hlater₁ := (grows_encodeIn source i).later hfirst
        have hlater := (grows_retokenItems source rest).later hrest
        obtain ⟨j, hj, -⟩ := retokened_of_encodeIn hs hfirst
        exact .later reads hj.resolves (ih (hs.trans hlater₁) hrest)

/-- Code with a fault does not decode and resolve as a whole. -/
theorem FirstFault.not_resolves (h : FirstFault source c e)
    (hitems : Items c (instructions.map .ok)) : ¬∀ i ∈ instructions, i.Resolves source := by
  intro hall
  induction h generalizing instructions with
  | undecoded more fails =>
      have hfailed := hitems.of_error more fails
      cases instructions <;> cases hfailed
  | unresolved reads hasToken named fails =>
      obtain ⟨rest, hcons, -⟩ := hitems.of_read reads
      obtain ⟨first, others, rfl, hfirst, -⟩ := List.map_eq_cons_iff.mp hcons
      cases hfirst
      obtain ⟨entry, hentry⟩ := hall _ (List.mem_cons_self ..) _ hasToken named
      rw [fails] at hentry
      cases hentry
  | later reads _ _ ih =>
      obtain ⟨rest, hcons, hbehind⟩ := hitems.of_read reads
      obtain ⟨first, others, rfl, -, rfl⟩ := List.map_eq_cons_iff.mp hcons
      exact ih hbehind fun i hmem => hall i (List.mem_cons_of_mem first hmem)

theorem FirstFault.unique {e' : Error} (h : FirstFault source c e) (h' : FirstFault source c e') :
    e = e' := by
  induction h with
  | undecoded more fails =>
      cases h' with
      | undecoded _ fails' =>
          rw [fails] at fails'
          cases fails'
          rfl
      | unresolved reads | later reads =>
          rw [fails] at reads
          cases reads
  | unresolved reads hasToken named fails =>
      cases h' with
      | undecoded _ fails' =>
          rw [reads] at fails'
          cases fails'
      | unresolved reads' hasToken' _ fails' =>
          obtain ⟨rfl, -⟩ := ok_unique reads reads'
          cases hasToken.symm.trans hasToken'
          exact Except.error.inj (fails.symm.trans fails')
      | later reads' resolves _ =>
          obtain ⟨rfl, -⟩ := ok_unique reads reads'
          obtain ⟨entry, hentry⟩ := resolves _ hasToken named
          rw [fails] at hentry
          cases hentry
  | later reads resolves _ ih =>
      cases h' with
      | undecoded _ fails =>
          rw [reads] at fails
          cases fails
      | unresolved reads' hasToken named fails =>
          obtain ⟨rfl, -⟩ := ok_unique reads reads'
          obtain ⟨entry, hentry⟩ := resolves _ hasToken named
          rw [fails] at hentry
          cases hentry
      | later reads' _ behind =>
          obtain ⟨rfl, rfl⟩ := ok_unique reads reads'
          exact ih behind

/-! ## Code -/

/-- Code and what becomes of it in a scope: it is as long, decodes to
instructions that take the place of those that were there, and differs only
where these have their tokens. -/
structure RetokenedCode (source : Scope) (s : Interner) (code out : Bytes) : Prop where
  length : out.length = code.length
  decoded : ∃ instructions others, decode code = .ok instructions ∧ decode out = .ok others ∧
    List.Forall₂ (Retokened source s) instructions others
  outside : ∀ instructions, decode code = .ok instructions → ∀ position,
    (∀ i ∈ instructions, ¬i.HasTokenAt position) → out[position]? = code[position]?

/-- Code has no more tokens than bytes. -/
theorem grows_retokenCode (source : Scope) (code : Bytes) :
    Interning.Grows (retokenCode source code) code.length :=
  (grows_retokenItems source _).mono (items_of_code code).length_le

theorem retokenedCode_of_ok (hs : s.Reachable) (h : retokenCode source code s = (.ok out, s')) :
    RetokenedCode source s' code out := by
  obtain ⟨instructions, others, hitems, hretokened, hout⟩ := retokened_of_retokenItems hs h
  have hall := items_of_code code
  rw [hitems, items_map_ok_iff_decode] at hall
  obtain ⟨hencode, hplaced⟩ := decode_eq_ok_iff.mp hall
  obtain ⟨out', hout', hplaced', hlen, hsame⟩ :=
    encodeAll_of_retokened hretokened hencode hplaced
  obtain rfl : out' = out := Except.ok.inj (hout'.symm.trans hout)
  refine ⟨hlen, ⟨instructions, others, hall, decode_eq_ok_iff.mpr ⟨hout, hplaced'⟩, hretokened⟩, ?_⟩
  intro found hfound position houtside
  obtain rfl : instructions = found := Except.ok.inj (hall.symm.trans hfound)
  refine hsame position fun i hmem => ?_
  rw [Nat.zero_add]
  exact houtside i hmem

theorem RetokenedCode.resolves (h : RetokenedCode source s code out) :
    ∃ instructions, decode code = .ok instructions ∧ ∀ i ∈ instructions, i.Resolves source := by
  obtain ⟨instructions, others, hdecode, -, hretokened⟩ := h.decoded
  have hboth := hretokened.imp fun i j (hj : Retokened source s i j) => And.intro hj.resolves hj
  exact ⟨instructions, hdecode, ((List.forall₂_and_left _ _).mp hboth).1⟩

/-- Code is named anew exactly if all of it decodes and resolves. -/
theorem retokenCode_ok_iff (hs : s.Reachable) (room : (retokenCode source code).Fits s) :
    (∃ out, (retokenCode source code s).1 = .ok out) ↔
      ∃ instructions, decode code = .ok instructions ∧ ∀ i ∈ instructions, i.Resolves source := by
  rcases hrun : retokenCode source code s with ⟨answer, s'⟩
  rw [Interning.Fits, hrun] at room
  constructor
  · rintro ⟨out, rfl⟩
    exact (retokenedCode_of_ok hs hrun).resolves
  · rintro ⟨instructions, hdecode, hall⟩
    cases answer with
    | ok out => exact ⟨out, rfl⟩
    | error e =>
        have hfault := firstFault_of_retokenItems (items_of_code code) hs room hrun
        exact absurd hall (hfault.not_resolves (items_map_ok_iff_decode.mpr hdecode))

theorem retokenCode_error_iff (hs : s.Reachable) (room : (retokenCode source code).Fits s) :
    (retokenCode source code s).1 = .error e ↔ FirstFault source (.start code) e := by
  rcases hrun : retokenCode source code s with ⟨answer, s'⟩
  rw [Interning.Fits, hrun] at room
  constructor
  · rintro rfl
    exact firstFault_of_retokenItems (items_of_code code) hs room hrun
  · intro hfault
    cases answer with
    | ok out =>
        obtain ⟨instructions, hdecode, hall⟩ := (retokenedCode_of_ok hs hrun).resolves
        exact absurd hall (hfault.not_resolves (items_map_ok_iff_decode.mpr hdecode))
    | error e' =>
        have hfault' := firstFault_of_retokenItems (items_of_code code) hs room hrun
        rw [hfault.unique hfault']

/-- **Naming code anew changes its tokens and nothing else.** It succeeds
exactly if the code decodes and resolves; what comes out is the code with
its tokens named in the scope as it is then. It fails with the error of the
first instruction that does not decode or resolve, and not for want of a
form: whatever was read and renamed can be encoded. -/
theorem retokenCode_correct (source : Scope) (code : Bytes) (s : Interner) (reachable : s.Reachable)
    (room : (retokenCode source code).Fits s) :
    ((∃ out, (retokenCode source code s).1 = .ok out) ↔
      ∃ instructions, decode code = .ok instructions ∧ ∀ i ∈ instructions, i.Resolves source) ∧
    (∀ out, (retokenCode source code s).1 = .ok out →
      RetokenedCode source (retokenCode source code s).2 code out) ∧
    (∀ e, (retokenCode source code s).1 = .error e ↔ FirstFault source (.start code) e) ∧
    ∀ (c c' : Cursor) (i j : Instruction) (s₁ s₂ : Interner), read c = (.ok i, c') →
      i.retoken source s₁ = (.ok j, s₂) → ∃ bytes, j.encode = .ok bytes := by
  refine ⟨retokenCode_ok_iff reachable room, ?_, fun e => retokenCode_error_iff reachable room, ?_⟩
  · rcases hrun : retokenCode source code s with ⟨answer, s'⟩
    rintro out rfl
    exact retokenedCode_of_ok reachable hrun
  · intro c c' i j s₁ s₂ hread hretoken
    obtain ⟨bytes, hbytes, -⟩ := read_eq_ok_iff.mp hread
    exact exists_encode_of_retoken hbytes hretoken

/-- A string behind another one of the scope, the null token, and a branch
back over both. -/
theorem retokenCode_correct_string :
    RetokenedCode (TokenTable.toScope ⟨[], [(⟨0x70000001⟩, "hello")], []⟩)
      ⟨[.string "other", .string "hello"],
        [(.string "hello", ⟨0x70000002⟩), (.string "other", ⟨0x70000001⟩)]⟩
      [0x72, 0x01, 0x00, 0x00, 0x70, 0x7E, 0x00, 0x00, 0x00, 0x00, 0x2B, 0xF4]
      [0x72, 0x02, 0x00, 0x00, 0x70, 0x7E, 0x00, 0x00, 0x00, 0x00, 0x2B, 0xF4] :=
  (retokenCode_correct (TokenTable.toScope ⟨[], [(⟨0x70000001⟩, "hello")], []⟩)
    [0x72, 0x01, 0x00, 0x00, 0x70, 0x7E, 0x00, 0x00, 0x00, 0x00, 0x2B, 0xF4]
    (Interner.empty.intern (.string "other")).2 (.intern (.refl _) _)
    ((grows_retokenCode _ _).fits (by decide))).2.1 _ rfl

end Instruction

end Reroute
