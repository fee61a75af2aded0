import Reroute.Native.Call
import Reroute.Proofs.MemoryBytes
/-!
# Native calls and boxed calls

A native call of a proxy is a boxed call of it in other clothes. A slot holds
a word, and the word is the argument itself or leads to storage that holds it.
The dispatcher boxes the arguments, makes one boxed call, and takes the
outcome apart again: what the call left in its references goes back into the
storage of each, and its result becomes a word (`Native.Settled`).

The storages of different references must not overlap. Storing them one by
one then leaves each as it was stored (`Native.storeAll_holds`), and whatever
is not part of a storage keeps its bytes in any case
(`Native.byte_storeAll`).
-/

namespace Reroute

variable {σ : Type}

/-! ## Boxed calls -/

namespace Proxy

theorem length_writeBack (params : List ParamType) (values args : List Value) :
    (writeBack params values args).2.length = args.length := by
  induction params generalizing values args with
  | nil => rfl
  | cons param params ih =>
      rcases values with _ | ⟨value, values⟩
      · rfl
      rcases args with _ | ⟨arg, args⟩
      · rfl
      rw [writeBack]
      split
      · split
        · rfl
        · simp only [List.length_cons, ih]
      · simp only [List.length_cons, ih]

theorem length_pass (p : Proxy σ) (receiver : Option Value) (params : List ParamType)
    (args : List Value) (s : σ) : (p.pass receiver params args s).1.args.length = args.length := by
  unfold pass
  split
  · rfl
  · rename_i boxed _
    dsimp only
    split
    · rfl
    · split
      · have hlength := length_writeBack params (p.handler receiver boxed s).1.args args
        split <;> rename_i hback <;> rwa [hback] at hlength
      · rfl

theorem length_invoke (p : Proxy σ) (args : List Value) (s : σ) :
    (p.invoke args s).1.args.length = args.length := by
  unfold invoke
  dsimp only
  split
  · rfl
  · split
    · split
      · rfl
      · simp only [List.length_cons, length_pass]
    · exact length_pass ..
    · exact length_pass ..

end Proxy

/-! ## Slots -/

namespace Slot

def address (registers stack : UInt64) : Slot → UInt64
  | .register index => registers + UInt64.ofNat (8 * index)
  | .stack offset _ => stack + UInt64.ofNat offset

end Slot

namespace Abi

theorem length_classifySysV (integers floats stack : Nat) (params : List ParamType) :
    (classifySysV integers floats stack params).length = params.length := by
  induction params generalizing integers floats stack with
  | nil => rfl
  | cons param params ih =>
      rw [classifySysV]
      split
      · simp only [List.length_cons, ih]
      · split <;> simp only [List.length_cons, ih]

/-- What System V leaves on the stack takes a whole word there. -/
theorem size_of_mem_classifySysV {integers floats stack offset size : Nat}
    {params : List ParamType}
    (h : Slot.stack offset size ∈ classifySysV integers floats stack params) : size = 8 := by
  induction params generalizing integers floats stack with
  | nil => cases h
  | cons param params ih =>
      rw [classifySysV] at h
      split at h
      · rcases List.mem_cons.mp h with heq | hrest
        · cases heq
        · exact ih hrest
      · split at h
        · rcases List.mem_cons.mp h with heq | hrest
          · cases heq
          · exact ih hrest
        · rcases List.mem_cons.mp h with heq | hrest
          · cases heq
            rfl
          · exact ih hrest

end Abi

namespace Native

theorem readSlot_eq_value {m : Memory} {registers stack : UInt64} {slot : Slot}
    {params : List ParamType} (h : slot ∈ Abi.sysV.classify params) :
    readSlot m registers stack slot = m.value UInt64 (slot.address registers stack) := by
  cases slot with
  | register index => rfl
  | stack offset size =>
      cases Abi.size_of_mem_classifySysV h
      rfl

/-! ## Arguments -/

abbrev Argument := ParamType × UInt64

namespace Argument

def IsNull (a : Argument) : Prop := a.1.byRef ∧ a.2 = 0

/-- The addresses of the storage that a reference leads to. Other arguments have none. -/
def Covers (a : Argument) (address : UInt64) : Prop :=
  a.1.byRef ∧ ¬a.IsNull ∧ (address - a.2).toNat < storageSize a.1.element

/-- The boxed value of an argument: the little-endian number in the storage
of a reference, and otherwise the word itself, as a value of its type. -/
def boxed (m : Memory) (a : Argument) : Value :=
  .ofBits a.1.element
    (if a.1.byRef then UInt64.ofNat (Bytes.toNat (m.read a.2 (storageSize a.1.element))) else a.2)

/-- A reference to which the call has left a value without a native form. -/
def Unfit (a : Argument) (v : Value) : Prop := a.1.byRef ∧ v.bits? a.1.element = none

/-- The storage of a reference holds the low bytes of a value. -/
def Holds (m : Memory) (a : Argument) (v : Value) : Prop :=
  ∃ bits, v.bits? a.1.element = some bits ∧
    m.read a.2 (storageSize a.1.element) = Bytes.ofNat (storageSize a.1.element) bits.toNat

end Argument

def nullReference : Error := .other "null by-reference argument"

theorem storageSize_le (element : ElementType) : storageSize element ≤ 8 := by
  cases element <;> decide

theorem pointee_of_ne_zero {word : UInt64} (h : word ≠ 0) : pointee word = .ok word :=
  if_neg h

theorem box_of_isNull {m : Memory} {a : Argument} (h : a.IsNull) :
    box m a.1 a.2 = .error nullReference := by
  obtain ⟨href, hzero⟩ := h
  rw [box, if_pos href, hzero]
  rfl

theorem box_of_not_isNull {m : Memory} {a : Argument} (h : ¬a.IsNull) :
    box m a.1 a.2 = .ok (a.boxed m) := by
  unfold box Argument.boxed
  by_cases href : a.1.byRef
  · rw [if_pos href, if_pos href, pointee_of_ne_zero fun hzero => h ⟨href, hzero⟩]
    rfl
  · rw [if_neg href, if_neg href]
    rfl

theorem boxAll_of_null {m : Memory} {call : List Argument} (h : ∃ a ∈ call, a.IsNull) :
    (call.mapM fun a => box m a.1 a.2) = .error nullReference := by
  induction call with
  | nil => simp at h
  | cons a call ih =>
      rw [List.mapM_cons]
      by_cases hnull : a.IsNull
      · rw [box_of_isNull hnull]
        rfl
      · have hrest : ∃ b ∈ call, b.IsNull := by
          obtain ⟨b, hb, hbnull⟩ := h
          rcases List.mem_cons.mp hb with rfl | hb
          · exact absurd hbnull hnull
          · exact ⟨b, hb, hbnull⟩
        rw [box_of_not_isNull hnull, ih hrest]
        rfl

theorem boxAll_of_not_null {m : Memory} {call : List Argument} (h : ∀ a ∈ call, ¬a.IsNull) :
    (call.mapM fun a => box m a.1 a.2) = .ok (call.map (Argument.boxed m)) := by
  induction call with
  | nil => rfl
  | cons a call ih =>
      rw [List.mapM_cons, box_of_not_isNull (h a List.mem_cons_self),
        ih fun b hb => h b (List.mem_cons_of_mem a hb)]
      rfl

/-! ## Storing the references -/

theorem byte_save {m : Memory} {a : Argument} {address word : UInt64} (href : a.1.byRef)
    (hnull : ¬a.IsNull) (h : ¬a.Covers address) :
    (save m a.2 (storageSize a.1.element) word).byte address = m.byte address := by
  refine Memory.byte_write_of_length_le ?_
  rw [Bytes.length_ofNat]
  exact Nat.le_of_not_lt fun hlt => h ⟨href, hnull, hlt⟩

theorem covers_storage {a : Argument} (href : a.1.byRef) (hnull : ¬a.IsNull) {i : Nat}
    (hi : i < storageSize a.1.element) : a.Covers (a.2 + UInt64.ofNat i) := by
  refine ⟨href, hnull, ?_⟩
  rwa [Memory.toNat_add_sub _ (Nat.lt_of_lt_of_le hi (Nat.le_trans (storageSize_le _) (by decide)))]

theorem holds_save (m : Memory) {a : Argument} {v : Value} {bits : UInt64}
    (h : v.bits? a.1.element = some bits) :
    a.Holds (save m a.2 (storageSize a.1.element) bits) v := by
  refine ⟨bits, h, ?_⟩
  have hread := Memory.read_write m a.2 (Bytes.ofNat (storageSize a.1.element) bits.toNat) (by
    rw [Bytes.length_ofNat]
    exact Nat.le_trans (storageSize_le _) (by decide))
  rwa [Bytes.length_ofNat] at hread

/-- A storage whose bytes stay as they are holds what it held. -/
theorem Argument.Holds.of_bytes {m m' : Memory} {a : Argument} {v : Value} (h : a.Holds m v)
    (hsame : ∀ address, a.Covers address → m'.byte address = m.byte address)
    (href : a.1.byRef) (hnull : ¬a.IsNull) : a.Holds m' v := by
  obtain ⟨bits, hbits, hread⟩ := h
  refine ⟨bits, hbits, ?_⟩
  rw [← hread]
  exact Memory.read_congr fun i hi => hsame _ (covers_storage href hnull hi)

section storing

variable {a : Argument} {call : List Argument} {value : Value} {values : List Value} {m : Memory}

abbrev storeAll (call : List Argument) (values : List Value) (m : Memory) :
    Except Error Unit × Memory :=
  storeBack (call.map Prod.fst) (call.map Prod.snd) values m

theorem storeAll_of_value (h : ¬a.1.byRef) :
    storeAll (a :: call) (value :: values) m = storeAll call values m := by
  rw [storeAll, List.map_cons, List.map_cons, storeBack, if_neg h]

theorem storeAll_of_fit (href : a.1.byRef) (hnull : ¬a.IsNull) {bits : UInt64}
    (hbits : value.bits? a.1.element = some bits) :
    storeAll (a :: call) (value :: values) m =
      storeAll call values (save m a.2 (storageSize a.1.element) bits) := by
  rw [storeAll, List.map_cons, List.map_cons, storeBack, if_pos href,
    pointee_of_ne_zero fun hzero => hnull ⟨href, hzero⟩, Value.bits, hbits]

theorem storeAll_of_unfit (hnull : ¬a.IsNull) (h : a.Unfit value) :
    storeAll (a :: call) (value :: values) m =
      (.error (.typeMismatch a.1.element value.typeName), m) := by
  obtain ⟨href, hbits⟩ := h
  rw [storeAll, List.map_cons, List.map_cons, storeBack, if_pos href,
    pointee_of_ne_zero fun hzero => hnull ⟨href, hzero⟩, Value.bits, hbits]

theorem byte_storeAll {address : UInt64} (values : List Value) (hnull : ∀ a ∈ call, ¬a.IsNull)
    (h : ∀ a ∈ call, ¬a.Covers address) :
    (storeAll call values m).2.byte address = m.byte address := by
  induction call generalizing values m with
  | nil => rfl
  | cons a call ih =>
      rcases values with _ | ⟨value, values⟩
      · rfl
      have hrest := fun m => ih (m := m) values
        (fun b hb => hnull b (List.mem_cons_of_mem a hb))
        (fun b hb => h b (List.mem_cons_of_mem a hb))
      have hnot := hnull a List.mem_cons_self
      by_cases href : a.1.byRef
      · cases hbits : value.bits? a.1.element with
        | none => rw [storeAll_of_unfit hnot ⟨href, hbits⟩]
        | some bits =>
            rw [storeAll_of_fit href hnot hbits, hrest]
            exact byte_save href hnot (h a List.mem_cons_self)
      · rw [storeAll_of_value href, hrest]

/-- The references are stored up to the first with a value that is unfit. -/
theorem storeAll_unfit (hnull : ∀ a ∈ call, ¬a.IsNull)
    (h : ∃ x ∈ call.zip values, x.1.Unfit x.2) :
    ∃ element name, (storeAll call values m).1 = .error (.typeMismatch element name) := by
  induction call generalizing values m with
  | nil => simp at h
  | cons a call ih =>
      rcases values with _ | ⟨value, values⟩
      · simp at h
      have hnot := hnull a List.mem_cons_self
      by_cases hunfit : a.Unfit value
      · rw [storeAll_of_unfit hnot hunfit]
        exact ⟨_, _, rfl⟩
      · have hrest : ∃ x ∈ call.zip values, x.1.Unfit x.2 := by
          obtain ⟨x, hx, hx'⟩ := h
          rcases List.mem_cons.mp hx with rfl | hx
          · exact absurd hx' hunfit
          · exact ⟨x, hx, hx'⟩
        have hbehind := fun m => ih (m := m) (fun b hb => hnull b (List.mem_cons_of_mem a hb)) hrest
        by_cases href : a.1.byRef
        · obtain ⟨bits, hbits⟩ := Option.ne_none_iff_exists'.mp fun hnone => hunfit ⟨href, hnone⟩
          rw [storeAll_of_fit href hnot hbits]
          exact hbehind _
        · rw [storeAll_of_value href]
          exact hbehind _

/-- Storing touches no storage twice, so each holds in the end what was stored
in it. -/
theorem storeAll_holds (hnull : ∀ a ∈ call, ¬a.IsNull)
    (hapart : call.Pairwise fun a b => ∀ address, a.Covers address → ¬b.Covers address)
    (hfit : ∀ x ∈ call.zip values, ¬x.1.Unfit x.2) :
    (storeAll call values m).1 = .ok () ∧
      ∀ x ∈ call.zip values, x.1.1.byRef → x.1.Holds (storeAll call values m).2 x.2 := by
  induction call generalizing values m with
  | nil => exact ⟨rfl, fun x hx => absurd hx (List.not_mem_nil)⟩
  | cons a call ih =>
      rcases values with _ | ⟨value, values⟩
      · exact ⟨rfl, fun x hx => absurd hx (List.not_mem_nil)⟩
      obtain ⟨hahead, hapart⟩ := List.pairwise_cons.mp hapart
      have hnot := hnull a List.mem_cons_self
      have hnull' : ∀ b ∈ call, ¬b.IsNull := fun b hb => hnull b (List.mem_cons_of_mem a hb)
      have hrest := fun m => ih (m := m) hnull' hapart
        fun x hx => hfit x (List.mem_cons_of_mem (a, value) hx)
      by_cases href : a.1.byRef
      · have hsome := fun hnone => hfit (a, value) List.mem_cons_self ⟨href, hnone⟩
        obtain ⟨bits, hbits⟩ := Option.ne_none_iff_exists'.mp hsome
        rw [storeAll_of_fit href hnot hbits]
        obtain ⟨hok, hholds⟩ := hrest (save m a.2 (storageSize a.1.element) bits)
        refine ⟨hok, fun x hx hxref => ?_⟩
        rcases List.mem_cons.mp hx with rfl | hx
        · -- The storages behind this one have no byte of it.
          refine (holds_save m hbits).of_bytes (fun address hcovers => ?_) href hnot
          exact byte_storeAll values hnull' fun b hb => hahead b hb address hcovers
        · exact hholds x hx hxref
      · rw [storeAll_of_value href]
        obtain ⟨hok, hholds⟩ := hrest m
        refine ⟨hok, fun x hx hxref => ?_⟩
        rcases List.mem_cons.mp hx with rfl | hx
        · exact absurd hxref href
        · exact hholds x hx hxref

end storing

/-! ## Taking a boxed call apart -/

/-- What a native call makes of the outcome of its boxed call. -/
def settle (p : ProxyForm) (call : List Argument) (m : Memory) (answer : Answer) :
    Except Error UInt64 × Memory :=
  match answer.result with
  | .error error => (.error error, m)
  | .ok value =>
    match storeAll call answer.args m with
    | (.error error, m) => (.error error, m)
    | (.ok (), m) =>
      (if p.signature.ret.isVoid then .ok 0 else value.bits p.signature.ret.element, m)

/-- What a native call is to make of the outcome of its boxed call: the word
of its result, and the memory. -/
structure Settled (p : ProxyForm) (call : List Argument) (m : Memory) (answer : Answer)
    (word : Except Error UInt64) (m' : Memory) : Prop where
  arity : answer.args.length = call.length
  failed : ∀ e, answer.result = .error e → word = .error e ∧ m' = m
  returned : ∀ value, answer.result = .ok value →
    (∀ x ∈ call.zip answer.args, ¬x.1.Unfit x.2) →
    ∀ bits, (if p.signature.ret.isVoid then some 0 else value.bits? p.signature.ret.element) =
      some bits →
    word = .ok bits ∧ ∀ x ∈ call.zip answer.args, x.1.1.byRef → x.1.Holds m' x.2
  unfit : ∀ value, answer.result = .ok value →
    ((∃ x ∈ call.zip answer.args, x.1.Unfit x.2) ∨
      (¬p.signature.ret.isVoid ∧ value.bits? p.signature.ret.element = none)) →
    ∃ element name, word = .error (.typeMismatch element name)
  elsewhere : ∀ address, (∀ a ∈ call, ¬a.Covers address) → m'.byte address = m.byte address

theorem settle_of_error {p : ProxyForm} {call : List Argument} {m : Memory} {answer : Answer}
    {e : Error} (h : answer.result = .error e) : settle p call m answer = (.error e, m) := by
  simp only [settle, h]

theorem settle_of_stored {p : ProxyForm} {call : List Argument} {m : Memory} {answer : Answer}
    {value : Value} (h : answer.result = .ok value)
    (hstored : (storeAll call answer.args m).1 = .ok ()) :
    settle p call m answer =
      (if p.signature.ret.isVoid then .ok 0 else value.bits p.signature.ret.element,
        (storeAll call answer.args m).2) := by
  rcases hstore : storeAll call answer.args m with ⟨stored, m'⟩
  rw [hstore] at hstored
  cases hstored
  simp only [settle, h, hstore]

theorem settle_of_not_stored {p : ProxyForm} {call : List Argument} {m : Memory}
    {answer : Answer} {value : Value} {e : Error} (h : answer.result = .ok value)
    (hstored : (storeAll call answer.args m).1 = .error e) :
    settle p call m answer = (.error e, (storeAll call answer.args m).2) := by
  rcases hstore : storeAll call answer.args m with ⟨stored, m'⟩
  rw [hstore] at hstored
  cases hstored
  simp only [settle, h, hstore]

theorem settled {p : ProxyForm} {call : List Argument} {m : Memory} {answer : Answer}
    (harity : answer.args.length = call.length) (hnull : ∀ a ∈ call, ¬a.IsNull)
    (hapart : call.Pairwise fun a b => ∀ address, a.Covers address → ¬b.Covers address) :
    Settled p call m answer (settle p call m answer).1 (settle p call m answer).2 := by
  have hbyte : ∀ address, (∀ a ∈ call, ¬a.Covers address) →
      (storeAll call answer.args m).2.byte address = m.byte address :=
    fun address h => byte_storeAll answer.args hnull h
  cases hresult : answer.result with
  | error e =>
      rw [settle_of_error hresult]
      refine ⟨harity, fun e' h => ?_, fun v h => ?_, fun v h => ?_, fun _ _ => rfl⟩
      · cases hresult.symm.trans h
        exact ⟨rfl, rfl⟩
      · cases hresult.symm.trans h
      · cases hresult.symm.trans h
  | ok value =>
      -- Storing stops at the first value that does not fit, if there is one.
      by_cases hunfit : ∃ x ∈ call.zip answer.args, x.1.Unfit x.2
      · obtain ⟨element, name, hstored⟩ := storeAll_unfit (m := m) hnull hunfit
        rw [settle_of_not_stored hresult hstored]
        refine ⟨harity, fun e h => ?_, fun v h hfit => ?_, fun v h _ => ⟨_, _, rfl⟩, hbyte⟩
        · cases hresult.symm.trans h
        · obtain ⟨x, hx, hxunfit⟩ := hunfit
          exact absurd hxunfit (hfit x hx)
      · obtain ⟨hstored, hholds⟩ :=
          storeAll_holds (m := m) hnull hapart fun x hx h => hunfit ⟨x, hx, h⟩
        rw [settle_of_stored hresult hstored]
        refine ⟨harity, fun e h => ?_, fun v h _ bits hbits => ⟨?_, hholds⟩, fun v h hno => ?_,
          hbyte⟩
        · cases hresult.symm.trans h
        · cases hresult.symm.trans h
          dsimp only
          by_cases hvoid : p.signature.ret.isVoid
          · rw [if_pos hvoid] at hbits ⊢
            cases hbits
            rfl
          · rw [if_neg hvoid] at hbits ⊢
            rw [Value.bits, hbits]
        · cases hresult.symm.trans h
          rcases hno with hno | ⟨hret, hbits⟩
          · exact absurd hno hunfit
          · rw [if_neg hret, Value.bits, hbits]
            exact ⟨_, _, rfl⟩

/-! ## Native calls -/

def arguments (p : ProxyForm) (words : List UInt64) : List Argument := p.signature.params.zip words

/-- The words that a native caller has left, in the slots of the host's convention. -/
def slotWords (p : ProxyForm) (registers stack : UInt64) (m : Memory) : List UInt64 :=
  (Abi.sysV.classify p.signature.params).map fun slot =>
    m.value UInt64 (slot.address registers stack)

section calls

variable {p : Proxy σ} {registers stack result : UInt64} {m : Memory} {s : σ}
  {words : List UInt64}

theorem readSlots_eq :
    (Abi.host.classify p.signature.params).map (readSlot m registers stack) =
      slotWords p.toProxyForm registers stack m :=
  List.map_congr_left fun _ h => readSlot_eq_value h

theorem length_slotWords :
    (slotWords p.toProxyForm registers stack m).length = p.signature.params.length := by
  rw [slotWords, List.length_map]
  exact Abi.length_classifySysV ..

theorem dispatch_of_null (hwords : slotWords p.toProxyForm registers stack m = words)
    (hnull : ∃ a ∈ arguments p.toProxyForm words, a.IsNull) :
    dispatch p registers stack m s = (.error nullReference, m, s) := by
  have hbox := boxAll_of_null (m := m) hnull
  unfold dispatch
  dsimp only
  rw [readSlots_eq, hwords]
  split
  · rename_i heq
    cases heq.symm.trans hbox
    rfl
  · rename_i heq
    cases heq.symm.trans hbox

/-- Without null references a native call is the boxed call and what becomes
of its outcome. -/
theorem dispatch_of_not_null (hwords : slotWords p.toProxyForm registers stack m = words)
    (hnull : ∀ a ∈ arguments p.toProxyForm words, ¬a.IsNull) :
    dispatch p registers stack m s =
      let boxed := p.invoke ((arguments p.toProxyForm words).map (Argument.boxed m)) s
      let settled := settle p.toProxyForm (arguments p.toProxyForm words) m boxed.1
      (settled.1, settled.2, boxed.2) := by
  have hlength : words.length = p.signature.params.length := hwords ▸ length_slotWords
  have hparams : (arguments p.toProxyForm words).map Prod.fst = p.signature.params :=
    List.map_fst_zip (Nat.le_of_eq hlength.symm)
  have hword : (arguments p.toProxyForm words).map Prod.snd = words :=
    List.map_snd_zip (Nat.le_of_eq hlength)
  have hbox := boxAll_of_not_null (m := m) hnull
  unfold dispatch
  dsimp only
  rw [readSlots_eq, hwords]
  split
  · rename_i heq
    cases heq.symm.trans hbox
  · rename_i args heq
    cases heq.symm.trans hbox
    rcases p.invoke ((arguments p.toProxyForm words).map (Argument.boxed m)) s with ⟨answer, s'⟩
    rw [settle, storeAll, hparams, hword]
    dsimp only
    cases answer.result with
    | error e => rfl
    | ok value =>
        dsimp only
        rcases storeBack p.signature.params words answer.args m with ⟨stored, m'⟩
        cases stored <;> rfl

end calls

/-- A native call by its boxed call. It is made once, or not at all if a
reference leads nowhere; then nothing has happened. -/
structure Agrees (p : Proxy σ) (call : List Argument) (m : Memory) (s : σ)
    (run : Except Error UInt64 × Memory × σ) : Prop where
  null : (∃ a ∈ call, a.IsNull) → run = (.error nullReference, m, s)
  boxed : (∀ a ∈ call, ¬a.IsNull) →
    run.2.2 = (p.invoke (call.map (Argument.boxed m)) s).2 ∧
      Settled p.toProxyForm call m (p.invoke (call.map (Argument.boxed m)) s).1 run.1 run.2.1

/-- What the caller and its thread are left with behind a native call: the
result slot, the error that is parked, and everything else as the call left it. -/
structure Delivered (call : List Argument) (result : UInt64)
    (run : Except Error UInt64 × Memory × σ) (left : Option Error × Memory × σ) : Prop where
  returned : ∀ word, run.1 = .ok word → left.1 = none ∧ left.2.1.value UInt64 result = word
  failed : ∀ e, run.1 = .error e →
    left.1 = some (parkedError e) ∧ left.2.1.value UInt64 result = 0
  storages : ∀ a ∈ call, a.1.byRef → ¬a.IsNull →
    left.2.1.read a.2 (storageSize a.1.element) = run.2.1.read a.2 (storageSize a.1.element)
  elsewhere : ∀ address, 8 ≤ (address - result).toNat →
    left.2.1.byte address = run.2.1.byte address
  state : left.2.2 = run.2.2

theorem delivered {p : Proxy σ} {registers stack result : UInt64} {m : Memory} {s : σ}
    {call : List Argument}
    (hresult : ∀ a ∈ call, ∀ address, a.Covers address → 8 ≤ (address - result).toNat) :
    Delivered call result (dispatch p registers stack m s)
      (answer p registers stack result m s) := by
  unfold answer
  rcases dispatch p registers stack m s with ⟨outcome, m', s'⟩
  have helsewhere : ∀ (word address : UInt64), 8 ≤ (address - result).toNat →
      (m'.store result word).byte address = m'.byte address :=
    fun word address h => Memory.byte_write_of_length_le h
  have hstorages : ∀ (word : UInt64), ∀ a ∈ call, a.1.byRef → ¬a.IsNull →
      (m'.store result word).read a.2 (storageSize a.1.element) =
        m'.read a.2 (storageSize a.1.element) := by
    intro word a ha href hnull
    exact Memory.read_congr fun i hi =>
      helsewhere word _ (hresult a ha _ (covers_storage href hnull hi))
  have hstored : ∀ word : UInt64, (m'.store result word).value UInt64 result = word :=
    fun word => Memory.value_store m' result word (by decide)
  cases outcome with
  | ok word =>
      refine ⟨fun w h => ?_, fun e h => ?_, hstorages word, helsewhere word, rfl⟩
      · cases h
        exact ⟨rfl, hstored word⟩
      · cases h
  | error e =>
      refine ⟨fun w h => ?_, fun e h => ?_, hstorages 0, helsewhere 0, rfl⟩
      · cases h
      · cases h
        exact ⟨rfl, hstored 0⟩

/-- A native call does what the boxed call of the same proxy does, for any
words in the slots and any storages that overlap neither each other nor the
result slot. -/
theorem dispatch_agrees (p : Proxy σ) (registers stack result : UInt64) (m : Memory) (s : σ)
    (words : List UInt64) (hwords : slotWords p.toProxyForm registers stack m = words)
    (hapart : (arguments p.toProxyForm words).Pairwise fun a b =>
      ∀ address, a.Covers address → ¬b.Covers address)
    (hresult : ∀ a ∈ arguments p.toProxyForm words, ∀ address,
      a.Covers address → 8 ≤ (address - result).toNat) :
    Agrees p (arguments p.toProxyForm words) m s (dispatch p registers stack m s) ∧
      Delivered (arguments p.toProxyForm words) result (dispatch p registers stack m s)
        (answer p registers stack result m s) := by
  refine ⟨⟨dispatch_of_null hwords, fun hnull => ?_⟩, delivered hresult⟩
  rw [dispatch_of_not_null hwords hnull]
  refine ⟨rfl, settled ?_ hnull hapart⟩
  rw [Proxy.length_invoke, List.length_map]

/-- A proxy that puts numbers into neighbouring storages and counts its calls. -/
def pairSetter : Proxy Nat where
  signature := .plain [.reference .i4, .plain .i1, .reference .u1] (.plain .i4)
  binding := .static
  handler := fun _ _ count => (⟨.ok (.i4 7), [.i4 (-2), .i1 0, .u1 5]⟩, count + 1)

theorem dispatch_agrees_pairSetter :
    let m := ((Memory.zero.store 0x1000 (0x3000 : UInt64)).store 0x1008 (1 : UInt64)).store 0x1010
      (0x3004 : UInt64)
    let call := arguments pairSetter.toProxyForm [0x3000, 1, 0x3004]
    Agrees pairSetter call m 0 (dispatch pairSetter 0x1000 0x2000 m 0) ∧
      Delivered call 0x1070 (dispatch pairSetter 0x1000 0x2000 m 0)
        (answer pairSetter 0x1000 0x2000 0x1070 m 0) := by
  intro m call
  have hdistance : call.Pairwise fun a b =>
      storageSize a.1.element ≤ (b.2 - a.2).toNat ∧
        storageSize b.1.element ≤ (a.2 - b.2).toNat := by
    decide
  have hslot : ∀ a ∈ call,
      storageSize a.1.element ≤ (0x1070 - a.2).toNat ∧ 8 ≤ (a.2 - 0x1070).toNat := by
    decide
  refine dispatch_agrees pairSetter 0x1000 0x2000 0x1070 m 0 _ (by decide +kernel) ?_ ?_
  · refine hdistance.imp fun h address hcovers hcovers' => ?_
    exact absurd hcovers'.2.2
      (Nat.not_lt_of_le (Memory.apart_of_distance h.1 h.2 hcovers.2.2))
  · exact fun a ha address hcovers =>
      Memory.apart_of_distance (hslot a ha).1 (hslot a ha).2 hcovers.2.2

end Native

end Reroute
