import Reroute.Proofs.Converting
import Reroute.Proofs.Dispatching
/-!
# Boxing and converting more than once

A native call boxes its arguments, the proxy converts what it is given to the
types that it has declared, and the dispatcher turns what is left into words
again. The same value goes through the same type several times on the way, and
each time but the first does nothing: a word that has been boxed comes back
without the bits that its type has no use for (`Value.bits?_ofBits`), and
looking at those again changes nothing. So a handler that changes none of its
arguments changes no storage of its caller (`Native.Undisturbed`).

A binary32 is no such case. It is widened on the way, and a NaN is not the same
afterwards.
-/

namespace Reroute

namespace Value

/-! ## Words of boxed values -/

/-- What is left of a word as one of an element type. -/
def kept (e : ElementType) (word : UInt64) : UInt64 :=
  match e with
  | .void => 0
  | .boolean => if word.toUInt8 = 0 then 0 else 1
  | e => lowBits (8 * Native.storageSize e) word

/-- What has been converted to a type is one of that type. -/
structure StableIn (e : ElementType) : Prop where
  boxed : ∀ word, (ofBits e word).bits e = .ok (kept e word)
  again : ∀ v w : Value, v.convert e = .ok w → w.convert e = .ok w
  word : ∀ v w : Value, v.convert e = .ok w → ∀ word, v.bits e = .ok word → w.bits e = .ok word

variable {e : ElementType} {t : IntegerType} {v : Value} {word : UInt64}

theorem kept_of_integer (h : e.kind = .integer t) (word : UInt64) :
    kept e word = lowBits t.width word := by
  cases e <;> cases h <;> rfl

theorem kept_of_whole (h : Native.storageSize e = 8) (word : UInt64) : kept e word = word := by
  cases e <;> cases h <;> exact lowBits_of_le (Nat.le_refl 64) word

theorem kept_of_ne_boolean (h : e ≠ .boolean) (word : UInt64) :
    kept e word = lowBits (8 * Native.storageSize e) word := by
  cases e with
  | boolean => exact absurd rfl h
  | void => exact congrArg UInt64.ofNat (Nat.mod_one word.toNat).symm
  | _ => rfl

theorem storageSize_of_handle (h : e.kind = .handle) : Native.storageSize e = 8 := by
  cases e <;> cases h <;> rfl

theorem kept_boolean (word : UInt64) :
    kept .boolean word = if (word.toUInt8 != 0) = true then 1 else 0 := by
  by_cases h : word.toUInt8 = 0 <;> simp [kept, h]

/-- The kinds that have a word of their own, told apart by what is left of it. -/
theorem bits?_ofBits (h : e ≠ .r4) (word : UInt64) :
    (ofBits e word).bits? e = some (kept e word) := by
  cases hkind : e.kind with
  | void =>
      cases e <;> cases hkind
      rfl
  | boolean =>
      cases e <;> cases hkind
      rw [kept_boolean]
      rfl
  | float =>
      cases e <;> cases hkind
      · exact absurd rfl h
      · rw [kept_of_whole rfl]
        rfl
  | integer t =>
      obtain ⟨m, hm, -, hmod⟩ := exists_number_ofBits hkind word
      rcases integer?_cases (ofBits e word) with ⟨hnone, -⟩ | ⟨n, word', hn, hword', hmod'⟩
      · rw [hm.number] at hnone
        cases hnone
      obtain rfl : n = m := Option.some.inj (hn.symm.trans hm.number)
      have hdvd : (2 ^ t.width : Int) ∣ 2 ^ 64 := pow_dvd_pow 2 (width_le hkind)
      have hsame : (word'.toNat : Int) ≡ word.toNat [ZMOD (2 ^ t.width : Nat)] := by
        push_cast
        exact (hmod'.of_dvd hdvd).trans hmod
      rw [bits?_of_integer hkind, hword', Option.map_some, kept_of_integer hkind,
        lowBits_eq_iff.mpr (Int.natCast_modEq_iff.mp hsame)]
  | handle =>
      rw [bits?_of_handle hkind, kept_of_whole (storageSize_of_handle hkind),
        ofBits_of_handle hkind, handle?_eq_some_iff]
      split
      · rename_i hzero
        rw [hzero]
        exact .null
      · exact .ref word

theorem toUInt8_lowBits (word : UInt64) : (lowBits 8 word).toUInt8 = word.toUInt8 := by
  rw [← UInt8.toNat_inj, UInt64.toNat_toUInt8, UInt64.toNat_toUInt8, toNat_lowBits, Nat.mod_mod]

theorem toUInt16_lowBits (word : UInt64) : (lowBits 16 word).toUInt16 = word.toUInt16 := by
  rw [← UInt16.toNat_inj, UInt64.toNat_toUInt16, UInt64.toNat_toUInt16, toNat_lowBits, Nat.mod_mod]

theorem toUInt32_lowBits (word : UInt64) : (lowBits 32 word).toUInt32 = word.toUInt32 := by
  rw [← UInt32.toNat_inj, UInt64.toNat_toUInt32, UInt64.toNat_toUInt32, toNat_lowBits, Nat.mod_mod]

/-- A type looks at no more of a word than is left of it. -/
theorem ofBits_kept (e : ElementType) (word : UInt64) : ofBits e (kept e word) = ofBits e word := by
  cases e with
  | void => rfl
  | boolean =>
      rw [kept_boolean]
      cases h : word.toUInt8 != 0 <;> simp [ofBits, h]
  | char => exact congrArg Value.char (toUInt16_lowBits word)
  | i1 => exact congrArg (fun x => Value.i1 x.toInt8) (toUInt8_lowBits word)
  | u1 => exact congrArg Value.u1 (toUInt8_lowBits word)
  | i2 => exact congrArg (fun x => Value.i2 x.toInt16) (toUInt16_lowBits word)
  | u2 => exact congrArg Value.u2 (toUInt16_lowBits word)
  | i4 => exact congrArg (fun x => Value.i4 x.toInt32) (toUInt32_lowBits word)
  | u4 => exact congrArg Value.u4 (toUInt32_lowBits word)
  | r4 => exact congrArg (fun x => Value.r4 ⟨x⟩) (toUInt32_lowBits word)
  | i8 | u8 | r8 | string | ptr | valueType | classType | i | u | fnPtr | object | szArray =>
      rw [kept_of_whole rfl]

/-- The word of a value has no bits that are of no use. -/
theorem kept_of_bits? (h : e ≠ .r4) (hbits : v.bits? e = some word) : kept e word = word := by
  cases hkind : e.kind with
  | void =>
      cases e <;> cases hkind
      cases hbits
      rfl
  | boolean =>
      cases e <;> cases hkind
      obtain ⟨value, -, rfl⟩ := bits?_boolean_eq_some_iff.mp hbits
      cases value <;> rfl
  | float =>
      cases e <;> cases hkind
      · exact absurd rfl h
      · exact kept_of_whole rfl word
  | integer t =>
      rw [bits?_of_integer hkind] at hbits
      obtain ⟨word', -, rfl⟩ := Option.map_eq_some_iff.mp hbits
      rw [kept_of_integer hkind, lowBits_lowBits]
  | handle => exact kept_of_whole (storageSize_of_handle hkind) word

theorem convert_ofBits (h : e ≠ .r4) (word : UInt64) :
    (ofBits e word).convert e = .ok (ofBits e word) := by
  rw [convert_of_bits (bits?_ofBits h word), ofBits_kept]

theorem stableIn (h : e ≠ .r4) : StableIn e where
  boxed word := bits_eq_ok_iff.mpr (bits?_ofBits h word)
  again v w hw := by
    rcases convert_eq_ok_iff.mp hw with ⟨-, rfl⟩ | ⟨word, -, rfl⟩
    · exact hw
    · exact convert_ofBits h word
  word v w hw word hword := by
    rcases convert_eq_ok_iff.mp hw with ⟨-, rfl⟩ | ⟨word', hword', rfl⟩
    · exact hword
    · obtain rfl : word' = word := Option.some.inj (hword'.symm.trans (bits_eq_ok_iff.mp hword))
      rw [bits_eq_ok_iff, bits?_ofBits h, kept_of_bits? h hword']

end Value

/-! ## Calls that change no argument -/

variable {σ : Type}

namespace Proxy

variable {p : Proxy σ} {params : List ParamType} {args boxed : List Value} {s : σ}

/-- The references among the arguments are what they would be converted to. -/
def Settles (params : List ParamType) (args : List Value) : Prop :=
  ∀ x ∈ args.zip params, x.2.byRef → x.1.convert x.2.element = .ok x.1

/-- The handler leaves the arguments of a call as it gets them. -/
def HandsBack (p : Proxy σ) (args : List Value) (s : σ) : Prop :=
  ∀ boxed, convertAll p.declared (args.drop p.binding.leading) = .ok boxed →
    (p.handler (p.receiver? args) boxed s).1.args = boxed

theorem writeBack_of_settles (h : Settles params args)
    (boxes : List.Forall₂ (fun x v => x.1.convert x.2.element = .ok v) (args.zip params) boxed) :
    writeBack params boxed args = (.ok (), args) := by
  induction params generalizing args boxed with
  | nil => rfl
  | cons param params ih =>
      rcases args with _ | ⟨arg, args⟩
      · rw [List.zip_nil_left, List.forall₂_nil_left_iff] at boxes
        subst boxes
        rfl
      rw [List.zip_cons_cons, List.forall₂_cons_left_iff] at boxes
      obtain ⟨value, boxed, hvalue, hboxed, rfl⟩ := boxes
      obtain ⟨hfirst, hrest⟩ := List.forall_mem_cons.mp h
      have hslot : if param.byRef then value.convert param.element = .ok arg else arg = arg := by
        split
        · rename_i href
          obtain rfl : arg = value := Except.ok.inj ((hfirst href).symm.trans hvalue)
          exact hvalue
        · rfl
      rw [writeBack_cons_of_written hslot, ih hrest hboxed]

/-- Whether the call succeeds or not, it leaves the arguments that it was given. -/
theorem args_pass {receiver : Option Value} (h : Settles params args)
    (hback : ∀ boxed, convertAll params args = .ok boxed →
      (p.handler receiver boxed s).1.args = boxed) :
    (p.pass receiver params args s).1.args = args := by
  cases hboxes : convertAll params args with
  | error e => rw [pass_of_unconverted hboxes]; rfl
  | ok boxed =>
      have hargs := hback boxed hboxes
      rcases hrun : p.handler receiver boxed s with ⟨answer, s'⟩
      rw [hrun] at hargs
      cases hresult : answer.result with
      | error e => rw [pass_of_failed hboxes hrun hresult]; rfl
      | ok result =>
          by_cases hkept : answer.args.length = params.length
          · have hwrite : writeBack params answer.args args = (.ok (), args) := by
              rw [hargs]
              exact writeBack_of_settles h (convertAll_eq_ok_iff.mp hboxes)
            rw [pass_of_written hboxes hrun hresult hkept hwrite]
          · unfold pass
            rw [hboxes]
            simp only [hrun, hresult, if_neg hkept, Answer.fail]

theorem args_invoke (h : Settles p.declared (args.drop p.binding.leading))
    (hback : p.HandsBack args s) : (p.invoke args s).1.args = args := by
  unfold HandsBack receiver? at hback
  unfold declared at h hback
  unfold invoke
  dsimp only
  split
  · rfl
  · cases hbinding : p.binding with
    | static | embedded _ =>
        rw [hbinding] at h hback
        exact args_pass h hback
    | thisCall =>
        rw [hbinding] at h hback
        cases args with
        | nil => rfl
        | cons receiver rest => exact congrArg (receiver :: ·) (args_pass h hback)

end Proxy

namespace Native

variable {p : Proxy σ} {registers stack word : UInt64} {m m' : Memory} {s s' : σ}
  {call : List Argument} {words : List UInt64}

/-- The memory of a caller whose references are as they were, a truth value as the
byte that stands for it. -/
structure Undisturbed (call : List Argument) (m m' : Memory) : Prop where
  storages : ∀ a ∈ call, a.1.byRef → m'.read a.2 (storageSize a.1.element) =
    if a.1.element = .boolean then [if m.byte a.2 = 0 then 0 else 1]
    else m.read a.2 (storageSize a.1.element)
  elsewhere : ∀ address, (∀ a ∈ call, ¬a.Covers address) → m'.byte address = m.byte address

theorem boxed_of_byRef {a : Argument} (h : a.1.byRef) (m : Memory) :
    a.boxed m = .ofBits a.1.element (load m a.2 (storageSize a.1.element)) := by
  rw [Argument.boxed, if_pos h]
  rfl

theorem toNat_load (m : Memory) (address : UInt64) (e : ElementType) :
    (load m address (storageSize e)).toNat = Bytes.toNat (m.read address (storageSize e)) := by
  have hlt := Bytes.toNat_lt (m.read address (storageSize e))
  have hsize : Bytes.count (storageSize e) ≤ UInt64.size := by cases e <;> decide
  rw [Memory.length_read] at hlt
  exact UInt64.toNat_ofNat_of_lt' (Nat.lt_of_lt_of_le hlt hsize)

theorem count_eq_two_pow (width : Nat) : Bytes.count width = 2 ^ (8 * width) :=
  (Nat.pow_mul 2 8 width).symm

/-- What is stored for a reference that has not been changed. -/
theorem ofNat_kept_load (m : Memory) (address : UInt64) (e : ElementType) :
    Bytes.ofNat (storageSize e) (Value.kept e (load m address (storageSize e))).toNat =
      if e = .boolean then [if m.byte address = 0 then 0 else 1]
      else m.read address (storageSize e) := by
  split
  · rename_i hbool
    subst hbool
    have hread : m.read address (storageSize .boolean) = [m.byte address] :=
      congrArg (fun a => [m.byte a]) (UInt64.add_zero address)
    have hbyte : (load m address (storageSize .boolean)).toUInt8 = m.byte address := by
      rw [← UInt8.toNat_inj, UInt64.toNat_toUInt8, toNat_load, hread]
      exact Nat.mod_eq_of_lt (m.byte address).toNat_lt
    rw [Value.kept, hbyte]
    split <;> rfl
  · rename_i hbool
    have hlt := Bytes.toNat_lt (m.read address (storageSize e))
    have hback := Bytes.ofNat_toNat (m.read address (storageSize e))
    rw [Memory.length_read, count_eq_two_pow] at hlt
    rw [Memory.length_read] at hback
    rw [Value.kept_of_ne_boolean hbool, Value.toNat_lowBits, toNat_load, Nat.mod_eq_of_lt hlt,
      hback]

theorem settles_boxed (h : ∀ a ∈ call, a.1.byRef → a.1.element ≠ .r4) (n : Nat) :
    Proxy.Settles ((call.map Prod.fst).drop n) ((call.map (Argument.boxed m)).drop n) := by
  rw [Proxy.Settles, ← List.map_drop, ← List.map_drop, List.zip_map']
  intro x hx href
  obtain ⟨a, ha, rfl⟩ := List.mem_map.mp hx
  rw [boxed_of_byRef href]
  exact Value.convert_ofBits (h a (List.mem_of_mem_drop ha) href) _

/-- A native call whose handler changes nothing changes nothing. -/
theorem undisturbed (hwords : slotWords p.toProxyForm registers stack m = words)
    (hapart : (arguments p.toProxyForm words).Pairwise fun a b =>
      ∀ address, a.Covers address → ¬b.Covers address)
    (hfloat : ∀ a ∈ arguments p.toProxyForm words, a.1.byRef → a.1.element ≠ .r4)
    (hback : p.HandsBack ((arguments p.toProxyForm words).map (Argument.boxed m)) s)
    (hrun : dispatch p registers stack m s = (.ok word, m', s')) :
    Undisturbed (arguments p.toProxyForm words) m m' := by
  have hnull : ∀ a ∈ arguments p.toProxyForm words, ¬a.IsNull := by
    intro a ha hnull
    rw [dispatch_of_null hwords ⟨a, ha, hnull⟩] at hrun
    cases hrun
  have hparams : (arguments p.toProxyForm words).map Prod.fst = p.signature.params :=
    List.map_fst_zip (Nat.le_of_eq (hwords ▸ length_slotWords).symm)
  have hsettles := settles_boxed (m := m) hfloat p.binding.leading
  rw [hparams] at hsettles
  have hargs := Proxy.args_invoke hsettles hback
  rw [dispatch_of_not_null hwords hnull] at hrun
  rcases hinvoke : p.invoke ((arguments p.toProxyForm words).map (Argument.boxed m)) s with
    ⟨answer, s''⟩
  rw [hinvoke] at hrun hargs
  dsimp only at hrun hargs
  generalize arguments p.toProxyForm words = call at *
  have hzip : call.zip answer.args = call.map fun a => (a, a.boxed m) := by
    rw [hargs, List.map_prod_left_eq_zip]
  have hfit : ∀ x ∈ call.zip answer.args, ¬x.1.Unfit x.2 := by
    rw [hzip]
    rintro x hx ⟨href, hnone⟩
    obtain ⟨a, ha, rfl⟩ := List.mem_map.mp hx
    rw [boxed_of_byRef href, Value.bits?_ofBits (hfloat a ha href)] at hnone
    cases hnone
  obtain ⟨hstored, hholds⟩ := storeAll_holds (m := m) hnull hapart hfit
  cases hresult : answer.result with
  | error e =>
      rw [settle_of_error hresult] at hrun
      cases hrun
  | ok value =>
      rw [settle_of_stored hresult hstored] at hrun
      obtain rfl : (storeAll call answer.args m).2 = m' := congrArg (fun run => run.2.1) hrun
      refine ⟨fun a ha href => ?_, fun address h => byte_storeAll answer.args hnull h⟩
      obtain ⟨bits, hbits, hread⟩ := hholds (a, a.boxed m) (by
        rw [hzip]
        exact List.mem_map_of_mem ha) href
      rw [boxed_of_byRef href, Value.bits?_ofBits (hfloat a ha href)] at hbits
      rw [hread, ← Option.some.inj hbits, ofNat_kept_load]

/-- Boxing and converting once is as good as doing so again, for values and for the
memory of a caller. -/
theorem reboxing_stable :
    (∀ e : ElementType, e ≠ .r4 → Value.StableIn e) ∧
      ∀ {σ : Type} (p : Proxy σ) (registers stack : UInt64) (m : Memory) (s : σ)
        (words : List UInt64), slotWords p.toProxyForm registers stack m = words →
        ((arguments p.toProxyForm words).Pairwise fun a b =>
          ∀ address, a.Covers address → ¬b.Covers address) →
        (∀ a ∈ arguments p.toProxyForm words, a.1.byRef → a.1.element ≠ .r4) →
        p.HandsBack ((arguments p.toProxyForm words).map (Argument.boxed m)) s →
        ∀ word m' s', dispatch p registers stack m s = (.ok word, m', s') →
          Undisturbed (arguments p.toProxyForm words) m m' :=
  ⟨fun _ h => Value.stableIn h, fun _ _ _ _ _ _ hwords hapart hfloat hback _ _ _ hrun =>
    undisturbed hwords hapart hfloat hback hrun⟩

/-- A proxy that looks at a truth value and a number and counts its calls. -/
def onlooker : Proxy Nat where
  signature := .plain [.reference .boolean, .reference .i4] (.plain .void)
  binding := .static
  handler := fun _ args count => (⟨.ok .null, args⟩, count + 1)

/-- A truth value that is told by a seven is told by a one afterwards. -/
theorem reboxing_stable_onlooker :
    let m := ((Memory.zero.store 0x1000 (0x3000 : UInt64)).store 0x1008 (0x3004 : UInt64)).write
      0x3000 [7, 0, 0, 0, 0xFE, 0xFF, 0xFF, 0xFF]
    Value.StableIn .boolean ∧ ∃ m', dispatch onlooker 0x1000 0x2000 m 0 = (.ok 0, m', 1) ∧
      m'.read 0x3000 1 = [1] ∧ m'.read 0x3004 4 = [0xFE, 0xFF, 0xFF, 0xFF] := by
  intro m
  obtain ⟨hstable, hcalls⟩ := reboxing_stable
  have hword : (dispatch onlooker 0x1000 0x2000 m 0).1 = .ok 0 := by decide +kernel
  have hcount : (dispatch onlooker 0x1000 0x2000 m 0).2.2 = 1 := by decide +kernel
  have hbytes : m.byte 0x3000 = 7 ∧ m.read 0x3004 4 = [0xFE, 0xFF, 0xFF, 0xFF] := by decide +kernel
  have hdistance : (arguments onlooker.toProxyForm [0x3000, 0x3004]).Pairwise fun a b =>
      storageSize a.1.element ≤ (b.2 - a.2).toNat ∧
        storageSize b.1.element ≤ (a.2 - b.2).toNat := by
    decide
  have hapart : (arguments onlooker.toProxyForm [0x3000, 0x3004]).Pairwise fun a b =>
      ∀ address, a.Covers address → ¬b.Covers address := by
    refine hdistance.imp fun h address hcovers hcovers' => ?_
    exact absurd hcovers'.2.2
      (Nat.not_lt_of_le (Memory.apart_of_distance h.1 h.2 hcovers.2.2))
  rcases hrun : dispatch onlooker 0x1000 0x2000 m 0 with ⟨word, m', count⟩
  rw [hrun] at hword hcount
  obtain rfl : word = .ok 0 := hword
  obtain rfl : count = 1 := hcount
  have hundisturbed := hcalls onlooker 0x1000 0x2000 m 0 [0x3000, 0x3004] (by decide +kernel) hapart
    (by decide) (fun _ _ => rfl) _ _ _ hrun
  refine ⟨hstable .boolean (by decide), m', rfl, ?_, ?_⟩
  · refine (hundisturbed.storages (.reference .boolean, 0x3000) (by decide) rfl).trans ?_
    rw [hbytes.1]
    rfl
  · exact (hundisturbed.storages (.reference .i4, 0x3004) (by decide) rfl).trans hbytes.2

end Native

end Reroute
