import Reroute.Proofs.Run
import Reroute.Proxy
/-!
# Calls through a proxy

A call through a proxy ends in one of five ways (`Proxy.Invocation`): the number
of arguments is wrong, an argument does not fit its parameter, the handler fails,
something that it left in a reference does not fit, or all goes well. Each way says
what the caller gets, what its arguments are then, and in which state it is, which is
that of one run of the handler or of none. There are no others, and no call ends
in two of them (`Proxy.invoke_eq_iff`).

What is written back is told by position (`Proxy.WrittenBack`), so that a value of the
handler in the slot of another parameter would not do.
-/

namespace Reroute

/-! ## Values and parameters -/

/-- The value can be had as one of the parameter's type. -/
def Value.Fits (v : Value) (param : ParamType) : Prop := ∃ w, v.convert param.element = .ok w

/-- All that a conversion can say is what it was given and what was asked for. -/
theorem Value.convert_eq_error {v : Value} {element : ElementType} {e : Error}
    (h : v.convert element = .error e) : e = .typeMismatch element v.typeName := by
  unfold Value.convert Value.bits at h
  split at h
  · cases h
  · cases h
  · cases h
  · cases hbits : v.bits? element with
    | none =>
        rw [hbits] at h
        exact (Except.error.inj h).symm
    | some word =>
        rw [hbits] at h
        cases h

theorem Value.convert_of_not_fits {v : Value} {param : ParamType} (h : ¬v.Fits param) :
    v.convert param.element = .error (.typeMismatch param.element v.typeName) := by
  cases hconvert : v.convert param.element with
  | error e => rw [Value.convert_eq_error hconvert]
  | ok w => exact absurd ⟨w, hconvert⟩ h

/-- Nothing is what every value is as one of type void. -/
@[simp] theorem Value.convert_void (v : Value) : v.convert .void = .ok .null := by
  cases v <;> rfl

/-- A form that one of the three kinds of proxies has. -/
inductive ProxyForm.Made : ProxyForm → Prop where
  | static {signature : Signature} {form : ProxyForm} (h : ProxyForm.static signature = .ok form) :
      Made form
  | embedded {signature : Signature} {receiver : Value} {form : ProxyForm}
      (h : ProxyForm.embedded signature receiver = .ok form) : Made form
  | thisCall {signature : Signature} {form : ProxyForm}
      (h : ProxyForm.thisCall signature = .ok form) : Made form

/-- How many of the parameters are the receiver. -/
def Binding.leading : Binding → Nat
  | .thisCall => 1
  | .embedded _ | .static => 0

theorem ProxyForm.of_eq_ok_iff {signature : Signature} {binding : Binding} {form : ProxyForm} :
    ProxyForm.of signature binding = .ok form ↔
      signature.isVararg = false ∧ signature.ret.byRef = false ∧ form = ⟨signature, binding⟩ := by
  unfold ProxyForm.of
  cases hvararg : signature.isVararg with
  | true => simp
  | false =>
      cases href : signature.ret.byRef with
      | true => simp
      | false => simp [eq_comm]

theorem ProxyForm.Made.leading_le {form : ProxyForm} (h : form.Made) :
    form.binding.leading ≤ form.signature.params.length := by
  cases h with
  | static h | embedded h =>
      obtain ⟨-, -, rfl⟩ := ProxyForm.of_eq_ok_iff.mp h
      exact Nat.zero_le _
  | @thisCall signature form h =>
      unfold ProxyForm.thisCall at h
      split at h
      · cases h
      · rename_i receiver rest hparams
        split at h
        · cases h
        · obtain ⟨-, -, rfl⟩ := ProxyForm.of_eq_ok_iff.mp h
          rw [hparams]
          exact Nat.succ_le_succ (Nat.zero_le _)

namespace Proxy

variable {σ : Type} {p : Proxy σ} {args : List Value} {s s' : σ}

/-! ## Ways a call ends -/

/-- What the handler is given as its receiver. -/
def receiver? (p : Proxy σ) (args : List Value) : Option Value :=
  match p.binding with
  | .thisCall => args.head?
  | .embedded receiver => some receiver
  | .static => none

/-- The parameters that the handler gets arguments for. -/
def declared (p : Proxy σ) : List ParamType := p.signature.params.drop p.binding.leading

/-- The slots of a caller when the values of a handler have been written back to
those in front of `stop`: references hold the value of their own place in their own
type, and all else is as it was. -/
structure WrittenBack (params : List ParamType) (values slots slots' : List Value) (stop : Nat) :
    Prop where
  length : slots'.length = slots.length
  reference : ∀ (i : Nat) (param : ParamType) (value : Value), i < stop → params[i]? = some param →
    param.byRef = true → values[i]? = some value →
      ∃ w, value.convert param.element = .ok w ∧ slots'[i]? = some w
  byValue : ∀ (i : Nat) (param : ParamType), params[i]? = some param → param.byRef = false →
    slots'[i]? = slots[i]?
  behind : ∀ i, stop ≤ i → slots'[i]? = slots[i]?

/-- The ways a call ends, with what it leaves. -/
inductive Invocation (p : Proxy σ) (args : List Value) (s : σ) : Answer × σ → Prop where
  | miscounted (count : args.length ≠ p.signature.params.length) :
      Invocation p args s (.fail (.argumentCount p.signature.params.length args.length) args, s)
  | mismatched {front back : List (Value × ParamType)} {arg : Value} {param : ParamType}
      (count : args.length = p.signature.params.length)
      (first : (args.drop p.binding.leading).zip p.declared = front ++ (arg, param) :: back)
      (fit : ∀ x ∈ front, x.1.Fits x.2) (unfit : ¬arg.Fits param) :
      Invocation p args s (.fail (.typeMismatch param.element arg.typeName) args, s)
  | failed {boxed : List Value} {answer : Answer} {s' : σ} {e : Error}
      (count : args.length = p.signature.params.length)
      (boxes : List.Forall₂ (fun x v => x.1.convert x.2.element = .ok v)
        ((args.drop p.binding.leading).zip p.declared) boxed)
      (run : p.handler (p.receiver? args) boxed s = (answer, s'))
      (error : answer.result = .error e) : Invocation p args s (.fail e args, s')
  | unwritten {boxed slots : List Value} {answer : Answer} {s' : σ} {result value : Value}
      {stop : Nat} {param : ParamType} (count : args.length = p.signature.params.length)
      (boxes : List.Forall₂ (fun x v => x.1.convert x.2.element = .ok v)
        ((args.drop p.binding.leading).zip p.declared) boxed)
      (run : p.handler (p.receiver? args) boxed s = (answer, s')) (ok : answer.result = .ok result)
      (written : WrittenBack p.declared answer.args (args.drop p.binding.leading) slots stop)
      (place : p.declared[stop]? = some param) (reference : param.byRef = true)
      (left : answer.args[stop]? = some value) (unfit : ¬value.Fits param) :
      Invocation p args s
        (.fail (.typeMismatch param.element value.typeName) (args.take p.binding.leading ++ slots),
          s')
  | returned {boxed slots : List Value} {answer : Answer} {s' : σ} {result : Value}
      (count : args.length = p.signature.params.length)
      (boxes : List.Forall₂ (fun x v => x.1.convert x.2.element = .ok v)
        ((args.drop p.binding.leading).zip p.declared) boxed)
      (run : p.handler (p.receiver? args) boxed s = (answer, s')) (ok : answer.result = .ok result)
      (written : WrittenBack p.declared answer.args (args.drop p.binding.leading) slots
        p.declared.length) :
      Invocation p args s
        (⟨result.convert p.signature.ret.element, args.take p.binding.leading ++ slots⟩, s')

/-! ## Writing back -/

section writing

variable {params : List ParamType} {param : ParamType} {values slots slots' : List Value}
  {value slot slot' : Value} {stop : Nat}

theorem writtenBack_zero : WrittenBack params values slots slots 0 :=
  ⟨rfl, fun _ _ _ h => absurd h (Nat.not_lt_zero _), fun _ _ _ _ => rfl, fun _ _ => rfl⟩

/-- What is written back to the first slot does not depend on the others. -/
theorem writtenBack_cons_iff :
    WrittenBack (param :: params) (value :: values) (slot :: slots) (slot' :: slots') (stop + 1) ↔
      (if param.byRef then value.convert param.element = .ok slot' else slot' = slot) ∧
        WrittenBack params values slots slots' stop := by
  constructor
  · rintro ⟨length, reference, byValue, behind⟩
    refine ⟨?_, Nat.succ.inj length, fun i q v hi => reference (i + 1) q v (Nat.succ_lt_succ hi),
      fun i => byValue (i + 1), fun i hi => behind (i + 1) (Nat.succ_le_succ hi)⟩
    cases href : param.byRef with
    | false => exact Option.some.inj (byValue 0 param rfl href)
    | true =>
        obtain ⟨w, hw, hslot⟩ := reference 0 param value (Nat.zero_lt_succ stop) rfl href rfl
        rw [Option.some.inj hslot]
        exact hw
  · rintro ⟨first, rest⟩
    refine ⟨congrArg (· + 1) rest.length, fun i q v hi hq href hv => ?_, fun i q hq href => ?_,
      fun i hi => ?_⟩
    · cases i with
      | zero =>
          cases hq
          cases hv
          rw [if_pos href] at first
          exact ⟨slot', first, rfl⟩
      | succ i => exact rest.reference i q v (Nat.lt_of_succ_lt_succ hi) hq href hv
    · cases i with
      | zero =>
          cases hq
          rw [href] at first
          exact congrArg some first
      | succ i => exact rest.byValue i q hq href
    · cases i with
      | zero => cases hi
      | succ i => exact rest.behind i (Nat.le_of_succ_le_succ hi)

theorem writeBack_cons : writeBack (param :: params) (value :: values) (slot :: slots) =
    if param.byRef then
      match value.convert param.element with
      | .error error => (.error error, slot :: slots)
      | .ok converted =>
        ((writeBack params values slots).1, converted :: (writeBack params values slots).2)
    else ((writeBack params values slots).1, slot :: (writeBack params values slots).2) := rfl

/-- One slot that is written, then the others. -/
theorem writeBack_cons_of_written
    (h : if param.byRef then value.convert param.element = .ok slot' else slot' = slot) :
    writeBack (param :: params) (value :: values) (slot :: slots) =
      ((writeBack params values slots).1, slot' :: (writeBack params values slots).2) := by
  rw [writeBack_cons]
  cases href : param.byRef with
  | true =>
      rw [href, if_pos rfl] at h
      rw [if_pos rfl, h]
  | false =>
      rw [href] at h
      obtain rfl : slot' = slot := h
      rfl

/-- Values are written back up to the first reference that they do not fit, or
all of them. The induction is on the parameters. -/
theorem writeBack_cases (hvalues : values.length = params.length)
    (hslots : slots.length = params.length) :
    (∃ slots', writeBack params values slots = (.ok (), slots') ∧
      WrittenBack params values slots slots' params.length) ∨
    ∃ slots' stop param value, writeBack params values slots =
        (.error (.typeMismatch param.element value.typeName), slots') ∧
      WrittenBack params values slots slots' stop ∧ params[stop]? = some param ∧
      param.byRef = true ∧ values[stop]? = some value ∧ ¬value.Fits param := by
  induction params generalizing values slots with
  | nil => exact .inl ⟨slots, rfl, writtenBack_zero⟩
  | cons param params ih =>
      obtain ⟨value, values, rfl⟩ := List.exists_cons_of_length_eq_add_one hvalues
      obtain ⟨slot, slots, rfl⟩ := List.exists_cons_of_length_eq_add_one hslots
      have hrest := ih (Nat.succ.inj hvalues) (Nat.succ.inj hslots)
      by_cases hunfit : param.byRef = true ∧ ¬value.Fits param
      · obtain ⟨href, hfit⟩ := hunfit
        refine .inr ⟨slot :: slots, 0, param, value, ?_, writtenBack_zero, rfl, href, rfl, hfit⟩
        rw [writeBack_cons, if_pos href, Value.convert_of_not_fits hfit]
      · obtain ⟨slot', hslot'⟩ : ∃ slot' : Value,
            if param.byRef then value.convert param.element = .ok slot' else slot' = slot := by
          by_cases href : param.byRef = true
          · obtain ⟨w, hw⟩ : value.Fits param :=
              Classical.not_not.mp fun hfit => hunfit ⟨href, hfit⟩
            exact ⟨w, by rw [if_pos href]; exact hw⟩
          · exact ⟨slot, by rw [if_neg href]⟩
        rw [writeBack_cons_of_written hslot']
        rcases hrest with ⟨slots', hwrite, hwritten⟩ |
          ⟨slots', stop, q, v, hwrite, hwritten, hat, href, hleft, hfit⟩
        · rw [hwrite]
          exact .inl ⟨slot' :: slots', rfl, writtenBack_cons_iff.mpr ⟨hslot', hwritten⟩⟩
        · rw [hwrite]
          exact .inr ⟨slot' :: slots', stop + 1, q, v, rfl,
            writtenBack_cons_iff.mpr ⟨hslot', hwritten⟩, hat, href, hleft, hfit⟩

theorem WrittenBack.fits (h : WrittenBack params values slots slots' stop) {i : Nat} (hi : i < stop)
    (hat : params[i]? = some param) (href : param.byRef = true) (hleft : values[i]? = some value) :
    value.Fits param := by
  obtain ⟨w, hw, -⟩ := h.reference i param value hi hat href hleft
  exact ⟨w, hw⟩

theorem WrittenBack.unique {others : List Value} (hvalues : values.length = params.length)
    (hslots : slots.length = params.length) (h : WrittenBack params values slots slots' stop)
    (h' : WrittenBack params values slots others stop) : slots' = others := by
  refine List.ext_getElem? fun i => ?_
  by_cases hi : i < params.length
  · have hat := List.getElem?_eq_getElem hi
    cases href : params[i].byRef with
    | false => rw [h.byValue i _ hat href, h'.byValue i _ hat href]
    | true =>
        by_cases hstop : i < stop
        · have hleft := List.getElem?_eq_getElem (hvalues ▸ hi)
          obtain ⟨w, hw, hslot⟩ := h.reference i _ _ hstop hat href hleft
          obtain ⟨w', hw', hslot'⟩ := h'.reference i _ _ hstop hat href hleft
          rw [hw] at hw'
          rw [hslot, hslot', Except.ok.inj hw']
        · rw [h.behind i (Nat.le_of_not_lt hstop), h'.behind i (Nat.le_of_not_lt hstop)]
  · have hout := Nat.le_of_not_lt hi
    rw [List.getElem?_eq_none (by rw [h.length, hslots]; exact hout),
      List.getElem?_eq_none (by rw [h'.length, hslots]; exact hout)]

/-- Slots that have all been written back are what the writing leaves. -/
theorem writeBack_of_writtenBack (hvalues : values.length = params.length)
    (hslots : slots.length = params.length)
    (h : WrittenBack params values slots slots' params.length) :
    writeBack params values slots = (.ok (), slots') := by
  rcases writeBack_cases hvalues hslots with ⟨others, hwrite, hwritten⟩ |
    ⟨others, stop, param, value, -, -, hat, href, hleft, hfit⟩
  · rw [hwrite, hwritten.unique hvalues hslots h]
  · exact absurd (h.fits (List.getElem?_eq_some_iff.mp hat).1 hat href hleft) hfit

/-- The writing stops at the first reference that its value does not fit. -/
theorem writeBack_of_stopped (hvalues : values.length = params.length)
    (hslots : slots.length = params.length) (h : WrittenBack params values slots slots' stop)
    (hat : params[stop]? = some param) (href : param.byRef = true)
    (hleft : values[stop]? = some value) (hfit : ¬value.Fits param) :
    writeBack params values slots =
      (.error (.typeMismatch param.element value.typeName), slots') := by
  rcases writeBack_cases hvalues hslots with ⟨others, -, hwritten⟩ |
    ⟨others, stop', param', value', hwrite, hwritten, hat', href', hleft', hfit'⟩
  · exact absurd (hwritten.fits (List.getElem?_eq_some_iff.mp hat).1 hat href hleft) hfit
  · -- In front of where either stops all values fit, so neither is in front of the other.
    obtain hlt | rfl | hlt := Nat.lt_trichotomy stop stop'
    · exact absurd (hwritten.fits hlt hat href hleft) hfit
    · obtain rfl : param' = param := Option.some.inj (hat'.symm.trans hat)
      obtain rfl : value' = value := Option.some.inj (hleft'.symm.trans hleft)
      rw [hwrite, hwritten.unique hvalues hslots h]
    · exact absurd (h.fits hlt hat' href' hleft') hfit'

end writing

/-! ## All calls -/

section calls

variable {receiver : Option Value} {params : List ParamType} {boxed slots : List Value}
  {answer : Answer} {result value : Value} {stop : Nat} {param : ParamType} {e : Error}

/-- A call that brings the right number of arguments runs the handler behind its
receiver. -/
theorem invoke_of_count (made : p.toProxyForm.Made)
    (count : args.length = p.signature.params.length) :
    p.invoke args s =
      ({ (p.pass (p.receiver? args) p.declared (args.drop p.binding.leading) s).1 with
          args := args.take p.binding.leading ++
            (p.pass (p.receiver? args) p.declared (args.drop p.binding.leading) s).1.args },
        (p.pass (p.receiver? args) p.declared (args.drop p.binding.leading) s).2) := by
  have hleading := made.leading_le
  unfold invoke receiver? declared
  rw [if_neg (not_not_intro count)]
  cases hbinding : p.binding with
  | static | embedded _ => rfl
  | thisCall =>
      cases args with
      | cons receiver rest => rfl
      | nil =>
          rw [hbinding, ← count] at hleading
          cases hleading

theorem convertAll_eq_ok_iff : convertAll params args = .ok boxed ↔
    List.Forall₂ (fun x v => x.1.convert x.2.element = .ok v) (args.zip params) boxed :=
  answer_mapM_eq_ok_iff

theorem length_boxed (hargs : args.length = params.length)
    (boxes : convertAll params args = .ok boxed) : boxed.length = params.length := by
  rw [← (convertAll_eq_ok_iff.mp boxes).length_eq, List.length_zip, hargs, Nat.min_self]

theorem pass_of_unconverted (h : convertAll params args = .error e) :
    p.pass receiver params args s = (.fail e args, s) := by
  unfold pass
  rw [h]

theorem pass_of_mismatch {front back : List (Value × ParamType)} {arg : Value}
    (first : args.zip params = front ++ (arg, param) :: back)
    (fit : ∀ x ∈ front, x.1.Fits x.2) (unfit : ¬arg.Fits param) :
    p.pass receiver params args s =
      (.fail (.typeMismatch param.element arg.typeName) args, s) := by
  refine pass_of_unconverted ?_
  rw [convertAll, first, answer_mapM_of_error fit (Value.convert_of_not_fits unfit)]

theorem pass_of_failed (boxes : convertAll params args = .ok boxed)
    (run : p.handler receiver boxed s = (answer, s')) (error : answer.result = .error e) :
    p.pass receiver params args s = (.fail e args, s') := by
  unfold pass
  rw [boxes]
  simp only [run, error]

theorem pass_of_unwritten (boxes : convertAll params args = .ok boxed)
    (run : p.handler receiver boxed s = (answer, s')) (ok : answer.result = .ok result)
    (kept : answer.args.length = params.length)
    (write : writeBack params answer.args args = (.error e, slots)) :
    p.pass receiver params args s = (.fail e slots, s') := by
  unfold pass
  rw [boxes]
  simp only [run, ok, if_pos kept, write]

theorem pass_of_written (boxes : convertAll params args = .ok boxed)
    (run : p.handler receiver boxed s = (answer, s')) (ok : answer.result = .ok result)
    (kept : answer.args.length = params.length)
    (write : writeBack params answer.args args = (.ok (), slots)) :
    p.pass receiver params args s = (⟨result.convert p.signature.ret.element, slots⟩, s') := by
  unfold pass
  rw [boxes]
  simp only [run, ok, if_pos kept, write]

theorem length_drop_leading (count : args.length = p.signature.params.length) :
    (args.drop p.binding.leading).length = p.declared.length := by
  unfold declared
  rw [List.length_drop, List.length_drop, count]

end calls

section ends

variable (made : p.toProxyForm.Made)
  (keeps : ∀ receiver args s, (p.handler receiver args s).1.args.length = args.length)

include keeps in
theorem length_answer_args {receiver : Option Value} {params : List ParamType}
    {boxed : List Value} {answer : Answer} (hargs : args.length = params.length)
    (boxes : convertAll params args = .ok boxed)
    (run : p.handler receiver boxed s = (answer, s')) : answer.args.length = params.length := by
  have hkept := keeps receiver boxed s
  rw [run] at hkept
  exact hkept.trans (length_boxed hargs boxes)

include made keeps in
/-- A call ends in each way that it can end in. -/
theorem invoke_of_invocation {outcome : Answer × σ} (h : Invocation p args s outcome) :
    p.invoke args s = outcome := by
  cases h with
  | miscounted count =>
      unfold invoke
      rw [if_pos count]
  | mismatched count first fit unfit =>
      rw [invoke_of_count made count, pass_of_mismatch first fit unfit]
      simp only [Answer.fail, List.take_append_drop]
  | failed count boxes run error =>
      rw [invoke_of_count made count, pass_of_failed (convertAll_eq_ok_iff.mpr boxes) run error]
      simp only [Answer.fail, List.take_append_drop]
  | unwritten count boxes run ok written place reference left unfit =>
      have hslots := length_drop_leading count
      have hboxes := convertAll_eq_ok_iff.mpr boxes
      have hkept := length_answer_args keeps hslots hboxes run
      have hwrite := writeBack_of_stopped hkept hslots written place reference left unfit
      rw [invoke_of_count made count, pass_of_unwritten hboxes run ok hkept hwrite]
      rfl
  | returned count boxes run ok written =>
      have hslots := length_drop_leading count
      have hboxes := convertAll_eq_ok_iff.mpr boxes
      have hkept := length_answer_args keeps hslots hboxes run
      have hwrite := writeBack_of_writtenBack hkept hslots written
      rw [invoke_of_count made count, pass_of_written hboxes run ok hkept hwrite]

variable (args s) in
include keeps in
/-- Every call ends in one of the ways. -/
theorem exists_invocation : ∃ outcome, Invocation p args s outcome := by
  by_cases count : args.length = p.signature.params.length
  · rcases exists_answers_or_first_error (fun x : Value × ParamType => x.1.convert x.2.element)
      ((args.drop p.binding.leading).zip p.declared) with
      ⟨boxed, boxes⟩ | ⟨front, ⟨arg, param⟩, back, e, first, fit, herror⟩
    · obtain ⟨⟨result, left⟩, s', run⟩ : ∃ answer s', p.handler (p.receiver? args) boxed s =
          (answer, s') := ⟨_, _, rfl⟩
      cases result with
      | error e => exact ⟨_, .failed count boxes run rfl⟩
      | ok result =>
          have hslots := length_drop_leading count
          have hkept := length_answer_args keeps hslots (convertAll_eq_ok_iff.mpr boxes) run
          rcases writeBack_cases hkept hslots with ⟨slots, -, written⟩ |
            ⟨slots, stop, param, value, -, written, place, reference, left, unfit⟩
          · exact ⟨_, .returned count boxes run rfl written⟩
          · exact ⟨_, .unwritten count boxes run rfl written place reference left unfit⟩
    · refine ⟨_, .mismatched count first fit ?_⟩
      rintro ⟨w, hw⟩
      rw [hw] at herror
      cases herror
  · exact ⟨_, .miscounted count⟩

/-- A call through a proxy whose handler keeps the count of the arguments ends in one
of the ways, and what it leaves tells which. A proxy of return type void gives nothing. -/
theorem invoke_eq_iff (p : Proxy σ) (made : p.toProxyForm.Made)
    (keeps : ∀ receiver args s, (p.handler receiver args s).1.args.length = args.length)
    (args : List Value) (s : σ) :
    (∀ outcome, p.invoke args s = outcome ↔ Invocation p args s outcome) ∧
      (p.signature.ret.element = .void →
        ∀ v, (p.invoke args s).1.result = .ok v → v = .null) := by
  have hends : ∀ outcome, p.invoke args s = outcome ↔ Invocation p args s outcome := by
    intro outcome
    constructor
    · obtain ⟨other, hother⟩ := exists_invocation args s keeps
      rintro rfl
      rw [invoke_of_invocation made keeps hother]
      exact hother
    · exact invoke_of_invocation made keeps
  refine ⟨hends, fun hvoid v hv => ?_⟩
  obtain ⟨outcome, houtcome⟩ : ∃ outcome, p.invoke args s = outcome := ⟨_, rfl⟩
  have hended := (hends outcome).mp houtcome
  rw [houtcome] at hv
  cases hended with
  | miscounted | mismatched | failed | unwritten => cases hv
  | returned count boxes run ok written =>
      rw [hvoid, Value.convert_void] at hv
      exact (Except.ok.inj hv).symm

/-- A handler that counts its runs, turns the arguments around and returns its
receiver. -/
def turning : Handler Nat := fun receiver args n =>
  (⟨.ok (receiver.getD .null), args.reverse⟩, n + 1)

/-- A proxy of it with a receiver, a reference to a number and a number. -/
def turner : Proxy Nat where
  signature := .plain [⟨.object, false⟩, ⟨.u1, true⟩, ⟨.i4, false⟩] ⟨.object, false⟩
  binding := .thisCall
  handler := turning

/-- The number that the handler leaves in the reference is cut to a byte there. -/
theorem invoke_turner :
    turner.invoke [.ref 7, .i4 1, .i4 0x102] 0 =
      (⟨.ok (.ref 7), [.ref 7, .u1 2, .i4 0x102]⟩, 1) := by
  have hform : ProxyForm.thisCall turner.signature = .ok turner.toProxyForm := rfl
  rw [(invoke_eq_iff turner (.thisCall hform) (fun _ _ _ => List.length_reverse) _ _).1]
  have hwritten : WrittenBack turner.declared [.i4 0x102, .u1 1] [.i4 1, .i4 0x102]
      [.u1 2, .i4 0x102] 2 :=
    writtenBack_cons_iff.mpr ⟨rfl, writtenBack_cons_iff.mpr ⟨rfl, writtenBack_zero⟩⟩
  have hended : Invocation turner [.ref 7, .i4 1, .i4 0x102] 0
      (⟨(Value.ref 7).convert .object, [.ref 7] ++ [.u1 2, .i4 0x102]⟩, 1) :=
    .returned rfl (.cons rfl (.cons rfl .nil)) rfl rfl hwritten
  exact hended

end ends

end Proxy

end Reroute
