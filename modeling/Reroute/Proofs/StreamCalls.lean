import Reroute.Proofs.Robustness
import Reroute.Proofs.StreamItems
/-!
# Streams in use

A stream may be asked for instructions, reset and cloned in any order, and
each clone can be used in the same ways. What a stream has to say next only
depends on how often it was asked since it started over: it goes through the
`Listing` of its bytes, which are the instructions that lie at their start and the
error of what lies behind these. That is also what decoding everything at once
comes to, so the two never disagree (`calls_agree`).

The invariant is `Hands`: what a stream has left is a list of items, none if
it has failed. Being asked takes the head off that list (`Hands.next`), whatever
else is done with other streams.
-/

namespace Reroute

/-! ## What is done with streams -/

/-- A use of one of several streams, which are known by number. -/
inductive StreamCall where
  | next (which : Nat)
  | reset (which : Nat)
  /-- A copy of a stream gets the first number that is free. -/
  | clone (which : Nat)

namespace StreamCall

/-- The stream that a call changes. A clone changes none. -/
def changed? : StreamCall → Option Nat
  | next which | reset which => some which
  | clone _ => none

/-- The streams behind a call. -/
def make (streams : List InstructionStream) : StreamCall → List InstructionStream
  | next which => streams.modify which fun s => s.next.2
  | reset which => streams.modify which InstructionStream.reset
  | clone which => streams ++ streams[which]?.toList

def makeAll (calls : List StreamCall) (streams : List InstructionStream) :
    List InstructionStream :=
  calls.foldl make streams

/-- How often each stream has been asked since it started over, behind a call.
A clone goes on where the stream is that it was made of. -/
def count (asked : List Nat) : StreamCall → List Nat
  | next which => asked.modify which (· + 1)
  | reset which => asked.modify which fun _ => 0
  | clone which => asked ++ asked[which]?.toList

def countAll (calls : List StreamCall) (asked : List Nat) : List Nat := calls.foldl count asked

end StreamCall

/-- All items of a stream up to the first error, or this error. -/
def InstructionStream.collect (s : InstructionStream) : Except Error (List Instruction) :=
  s.rest.1.mapM id

namespace Instruction

/-! ## What there is to hand out -/

/-- Instructions that lie one behind the other from a cursor on. -/
structure Leads (c : Cursor) (instructions : List Instruction) : Prop where
  placed : PlacedFrom c.position instructions
  front : ∃ bytes, encodeAll instructions = .ok bytes ∧ bytes <+: c.ahead

end Instruction

/-- Instructions, and the error of what is behind them. -/
structure Listing where
  instructions : List Instruction
  failure? : Option Error

namespace Listing

/-- The instructions, then the error, then nothing. -/
def items (l : Listing) : List (Except Error Instruction) :=
  l.instructions.map .ok ++ (l.failure?.map Except.error).toList

/-- The instructions, unless there is an error. -/
def outcome (l : Listing) : Except Error (List Instruction) :=
  match l.failure? with
  | none => .ok l.instructions
  | some e => .error e

/-- The listing of some bytes: as many instructions as lie at their start, and
the error of decoding the bytes, if there is one. -/
structure Of (l : Listing) (code : Bytes) : Prop where
  leads : Instruction.Leads (.start code) l.instructions
  longest : ∀ others, Instruction.Leads (.start code) others → others <+: l.instructions
  outcome : Instruction.decode code = l.outcome

theorem mapM_items (l : Listing) : l.items.mapM id = l.outcome := by
  obtain ⟨instructions, failure?⟩ := l
  induction instructions with
  | nil => cases failure? <;> rfl
  | cons i rest ih =>
      simp only [items, outcome, List.map_cons, List.cons_append, List.mapM_cons, id] at ih ⊢
      rw [ih]
      cases failure? <;> rfl

end Listing

namespace Instruction

variable {c : Cursor} {items : List (Except Error Instruction)} {instructions : List Instruction}

theorem leads_nil (c : Cursor) : Leads c [] :=
  ⟨trivial, [], rfl, List.nil_prefix⟩

/-- The first of several instructions is the one that is read. -/
theorem leads_cons_iff {i : Instruction} {rest : List Instruction} :
    Leads c (i :: rest) ↔ ∃ c', read c = (.ok i, c') ∧ Leads c' rest := by
  constructor
  · rintro ⟨⟨hplaced, hrest⟩, bytes, hencode, behind, happend⟩
    obtain ⟨front, back, hfront, hback, rfl⟩ := encodeAll_cons_eq_ok_iff.mp hencode
    rw [List.append_assoc] at happend
    obtain ⟨c', hpass, hahead⟩ := Cursor.exists_passes happend.symm
    rw [encodedSize_of_encode hfront, ← hpass.position] at hrest
    refine ⟨c', read_eq_ok_iff.mpr ⟨front, hfront, hpass, hplaced⟩, hrest, back, hback, behind, ?_⟩
    exact hahead.symm
  · rintro ⟨c', hread, hrest, back, hback, behind, happend⟩
    obtain ⟨front, hfront, hpass, hplaced⟩ := read_eq_ok_iff.mp hread
    rw [hpass.position, ← encodedSize_of_encode hfront] at hrest
    have hencode := encodeAll_cons_eq_ok_iff.mpr ⟨front, back, hfront, hback, rfl⟩
    refine ⟨⟨hplaced, hrest⟩, front ++ back, hencode, behind, ?_⟩
    rw [List.append_assoc, happend]
    exact hpass.ahead.symm

/-- The items from a cursor on are a listing, of which all instructions that
lie there are a part. -/
theorem Items.exists_listing (h : Items c items) : ∃ l : Listing, l.items = items ∧
    Leads c l.instructions ∧ ∀ others, Leads c others → others <+: l.instructions := by
  induction h with
  | @done c done =>
      refine ⟨⟨[], none⟩, rfl, leads_nil c, fun others hothers => ?_⟩
      cases others with
      | nil => exact List.prefix_rfl
      | cons i rest =>
          obtain ⟨c', hread, -⟩ := leads_cons_iff.mp hothers
          exact absurd done (ahead_ne_nil_of_read hread)
  | @failed c c' e more fails =>
      refine ⟨⟨[], some e⟩, rfl, leads_nil c, fun others hothers => ?_⟩
      cases others with
      | nil => exact List.prefix_rfl
      | cons i rest =>
          obtain ⟨c', hread, -⟩ := leads_cons_iff.mp hothers
          rw [fails] at hread
          cases hread
  | @next c c' i rest reads behind ih =>
      obtain ⟨l, hitems, hleads, hlongest⟩ := ih
      have hcons : (Listing.mk (i :: l.instructions) l.failure?).items = .ok i :: l.items := rfl
      refine ⟨⟨i :: l.instructions, l.failure?⟩, by rw [hcons, hitems],
        leads_cons_iff.mpr ⟨c', reads, hleads⟩, fun others hothers => ?_⟩
      cases others with
      | nil => exact List.nil_prefix
      | cons j others =>
          obtain ⟨c'', hread, hothers⟩ := leads_cons_iff.mp hothers
          obtain ⟨rfl, rfl⟩ := ok_unique reads hread
          exact List.cons_prefix_cons.mpr ⟨rfl, hlongest others hothers⟩

/-- Reading to the end collects the items. The induction is on these; every
instruction takes a byte, so the tries last. -/
theorem Items.readMany_eq (h : Items c items) {count : Nat} (hcount : c.remaining ≤ count) :
    (readMany count c).1 = items.mapM id := by
  induction h generalizing count with
  | done done =>
      cases count with
      | zero => rfl
      | succ count =>
          rw [readMany_of_done done]
          rfl
  | @failed c c' e more fails =>
      have hpos := List.length_pos_iff.mpr more
      rw [Cursor.length_ahead] at hpos
      obtain ⟨tries, rfl⟩ := Nat.exists_eq_add_of_lt (Nat.lt_of_lt_of_le hpos hcount)
      have hmore : Reader.hasMore c = (.ok true, c) :=
        Reader.hasMore_eq_ok_iff.mpr ⟨Cursor.hasMore_eq_true_iff.mpr more, rfl⟩
      rw [readMany, bind_of_ok hmore, if_pos rfl, bind_of_error fails]
      rfl
  | @next c c' i rest reads behind ih =>
      have hlt := remaining_lt_of_read reads
      obtain ⟨tries, rfl⟩ := Nat.exists_eq_add_of_lt (Nat.lt_of_lt_of_le hlt hcount)
      have hmore : Reader.hasMore c = (.ok true, c) :=
        Reader.hasMore_eq_ok_iff.mpr
          ⟨Cursor.hasMore_eq_true_iff.mpr (ahead_ne_nil_of_read reads), rfl⟩
      have hrest := ih (Nat.le_add_right c'.remaining tries)
      rw [readMany, bind_of_ok hmore, if_pos rfl, bind_of_ok reads, List.mapM_cons]
      rcases hmany : readMany (c'.remaining + tries) c' with ⟨answer, c''⟩
      rw [hmany] at hrest
      rw [← hrest]
      cases answer with
      | ok others =>
          rw [bind_of_ok hmany]
          rfl
      | error e =>
          rw [bind_of_error hmany]
          rfl

theorem Items.decode_eq {code : Bytes} (h : Items (.start code) items) :
    decode code = items.mapM id :=
  h.readMany_eq (Nat.le_refl _)

/-- Every byte string has a listing, and its items are those of a stream. -/
theorem exists_listing (code : Bytes) : ∃ l : Listing, l.Of code ∧ Items (.start code) l.items := by
  have hitems := items_of_code code
  obtain ⟨l, heq, hleads, hlongest⟩ := hitems.exists_listing
  rw [← heq] at hitems
  exact ⟨l, ⟨hleads, hlongest, hitems.decode_eq.trans l.mapM_items⟩, hitems⟩

end Instruction

namespace InstructionStream

open Instruction

theorem collect_ofCode (code : Bytes) : (ofCode code).collect = decode code :=
  (items_of_code code).decode_eq.symm

/-! ## One stream -/

/-- What a stream on some bytes has left. -/
structure Hands (code : Bytes) (items : List (Except Error Instruction)) (s : InstructionStream) :
    Prop where
  code : s.code = code
  failed : s.failed = true → items = []
  going : s.failed = false → Items s.cursor items

variable {code : Bytes} {items : List (Except Error Instruction)} {s : InstructionStream}

theorem hands_ofCode (h : Items (.start code) items) : Hands code items (ofCode code) :=
  ⟨rfl, nofun, fun _ => h⟩

/-- A stream without items stays where it is. -/
theorem Hands.next_nil (h : Hands code [] s) : s.next = (none, s) := by
  cases hfailed : s.failed with
  | true => simp [InstructionStream.next, hfailed]
  | false =>
      cases h.going hfailed with
      | done done =>
          have hmore : s.cursor.hasMore = false := Cursor.hasMore_eq_false_iff.mpr done
          simp [InstructionStream.next, hmore]

theorem next_of_read {answer : Except Error Instruction} {c : Cursor} (hgoing : s.failed = false)
    (hmore : s.cursor.ahead ≠ []) (hread : read s.cursor = (answer, c)) :
    s.next = (some answer, ⟨c, !answer.isOk⟩) := by
  have htrue : s.cursor.hasMore = true := Cursor.hasMore_eq_true_iff.mpr hmore
  simp only [InstructionStream.next, hgoing, htrue, hread]
  cases answer <;> rfl

/-- A stream that is asked hands out the first of its items and is left with the
others. -/
theorem Hands.next (h : Hands code items s) :
    s.next.1 = items.head? ∧ Hands code items.tail s.next.2 ∧
      ∀ i, s.next.1 = some (.ok i) → s.next.2.position = i.next := by
  cases hfailed : s.failed with
  | true =>
      obtain rfl := h.failed hfailed
      rw [h.next_nil]
      exact ⟨rfl, h, fun i hi => absurd hi (Option.some_ne_none _).symm⟩
  | false =>
      have hdata := (staysFrom_read s.cursor (Nat.zero_le s.cursor.position)).1
      cases h.going hfailed with
      | done =>
          rw [h.next_nil]
          exact ⟨rfl, h, fun i hi => absurd hi (Option.some_ne_none _).symm⟩
      | failed more fails =>
          rw [next_of_read hfailed more fails]
          rw [fails] at hdata
          refine ⟨rfl, ⟨hdata.trans h.code, fun _ => rfl, fun hstill => ?_⟩, fun i hi => ?_⟩
          · cases hstill
          · cases hi
      | next reads behind =>
          rw [next_of_read hfailed (ahead_ne_nil_of_read reads) reads]
          rw [reads] at hdata
          refine ⟨rfl, ⟨hdata.trans h.code, nofun, fun _ => behind⟩, ?_⟩
          rintro _ ⟨⟩
          exact (position_of_read reads).2.2

/-! ## Several streams -/

theorem forall₂_modify {α β : Type} {R : α → β → Prop} {f : α → α} {g : β → β} {as : List α}
    {bs : List β} (h : List.Forall₂ R as bs) (hstep : ∀ a b, R a b → R (f a) (g b)) (index : Nat) :
    List.Forall₂ R (as.modify index f) (bs.modify index g) := by
  induction h generalizing index with
  | nil => simp
  | cons hfirst hrest ih =>
      cases index with
      | zero => exact .cons (hstep _ _ hfirst) hrest
      | succ index => exact .cons hfirst (ih index)

/-- Streams by how often each has been asked since it started over. -/
abbrev AllHand (code : Bytes) (items : List (Except Error Instruction)) :
    List Nat → List InstructionStream → Prop :=
  List.Forall₂ fun asked s => Hands code (items.drop asked) s

variable {asked : List Nat} {streams : List InstructionStream}

theorem AllHand.make (hitems : Items (.start code) items) (h : AllHand code items asked streams)
    (call : StreamCall) : AllHand code items (call.count asked) (call.make streams) := by
  cases call with
  | next which =>
      refine forall₂_modify h (fun count s hands => ?_) which
      rw [← List.tail_drop]
      exact hands.next.2.1
  | reset which =>
      refine forall₂_modify h (fun count s hands => ?_) which
      rw [InstructionStream.reset, hands.code]
      exact hands_ofCode hitems
  | clone which =>
      refine List.rel_append h ?_
      by_cases hwhich : which < streams.length
      · have hasked : which < asked.length := h.length_eq ▸ hwhich
        rw [List.getElem?_eq_getElem hwhich, List.getElem?_eq_getElem hasked]
        exact .cons (h.get hasked hwhich) .nil
      · have hasked : ¬which < asked.length := h.length_eq ▸ hwhich
        rw [List.getElem?_eq_none (Nat.le_of_not_lt hwhich),
          List.getElem?_eq_none (Nat.le_of_not_lt hasked)]
        exact .nil

theorem AllHand.makeAll (hitems : Items (.start code) items) (h : AllHand code items asked streams)
    (calls : List StreamCall) :
    AllHand code items (StreamCall.countAll calls asked) (StreamCall.makeAll calls streams) := by
  induction calls generalizing asked streams with
  | nil => exact h
  | cons call rest ih => exact ih (h.make hitems call)

/-- A call leaves alone every stream that it does not name. -/
theorem getElem?_make {call : StreamCall} {which : Nat} (hwhich : streams[which]? = some s)
    (hother : call.changed? ≠ some which) : (call.make streams)[which]? = some s := by
  cases call with
  | next other | reset other =>
      have hne : other ≠ which := fun heq => hother (congrArg some heq)
      simp [StreamCall.make, hne, hwhich]
  | clone other =>
      have hlt := (List.getElem?_eq_some_iff.mp hwhich).1
      rw [StreamCall.make, List.getElem?_append_left hlt, hwhich]

theorem getElem?_makeAll {calls : List StreamCall} {which : Nat}
    (hwhich : streams[which]? = some s) (hothers : ∀ call ∈ calls, call.changed? ≠ some which) :
    (StreamCall.makeAll calls streams)[which]? = some s := by
  induction calls generalizing streams with
  | nil => exact hwhich
  | cons call rest ih =>
      obtain ⟨hcall, hrest⟩ := List.forall_mem_cons.mp hothers
      exact ih (getElem?_make hwhich hcall) hrest

/-- What a stream among others says next, given how often it was asked. -/
structure Agrees (l : Listing) (code : Bytes) (asked : Nat) (s : InstructionStream) : Prop where
  item : s.next.1 = l.items[asked]?
  position : ∀ i, s.next.1 = some (.ok i) → s.next.2.position = i.next
  collected : s.reset.collect = decode code

theorem Hands.agrees {l : Listing} {count : Nat} (h : Hands code (l.items.drop count) s) :
    Agrees l code count s := by
  obtain ⟨hitem, -, hposition⟩ := h.next
  refine ⟨?_, hposition, ?_⟩
  · rw [hitem, List.head?_drop]
  · rw [InstructionStream.reset, h.code]
    exact collect_ofCode code

/-- **Streams agree with decoding, however they are used.** The item that a stream
hands out is the one whose turn it is, and only calls that name the stream move it on. -/
theorem calls_agree (code : Bytes) :
    ∃ l : Listing, l.Of code ∧ (ofCode code).collect = decode code ∧
      ∀ calls : List StreamCall,
        List.Forall₂ (Agrees l code) (StreamCall.countAll calls [0])
          (StreamCall.makeAll calls [ofCode code]) ∧
        ∀ which s, (StreamCall.makeAll calls [ofCode code])[which]? = some s →
          ∀ more : List StreamCall, (∀ call ∈ more, call.changed? ≠ some which) →
            (StreamCall.makeAll (calls ++ more) [ofCode code])[which]? = some s := by
  obtain ⟨l, hl, hitems⟩ := exists_listing code
  refine ⟨l, hl, collect_ofCode code, fun calls => ⟨?_, fun which s hwhich more hothers => ?_⟩⟩
  · have hstart : AllHand code l.items [0] [ofCode code] := .cons (hands_ofCode hitems) .nil
    exact (hstart.makeAll hitems calls).imp fun _ _ hands => hands.agrees
  · rw [StreamCall.makeAll, List.foldl_append]
    exact getElem?_makeAll hwhich hothers

end InstructionStream

end Reroute
