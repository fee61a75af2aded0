import Reroute.Proofs.SectionPlace
import Reroute.Proofs.StreamForm
/-!
# Bytes that nobody has checked

The readers of bytecode, sections and bodies are given bytes of any origin.
Whatever these are, a reader comes back with a value or says that its input
is malformed, and its cursor is still on the same bytes and has not gone
back (`Reader.Robust`). Two properties that go along with sequencing carry
this: what a reader can complain of (`FailsOnly`), and the floor that it does
not go below (`Reader.StaysFrom`).

The two loops, over instructions and over sections, are written with a number
of tries. `Reader.Loop` is a loop without one, and ends only if its rounds do.
Rounds that are followed by another take bytes, four of them for a section,
so both loops end at every cursor, and the number of tries never shows.
-/

namespace Reroute

namespace Reader

variable {α β : Type} {floor : Nat}

/-! ## Staying on the bytes -/

/-- However a reader ends that starts at a floor or behind it, it is on the
same bytes and there still. -/
def StaysFrom (floor : Nat) (r : Reader α) : Prop :=
  ∀ c, floor ≤ c.position → (r c).2.data = c.data ∧ floor ≤ (r c).2.position

namespace StaysFrom

variable {r : Reader α} {f : α → Reader β}

theorem of_still (h : ∀ c, (r c).2 = c) : StaysFrom floor r := by
  intro c hc
  rw [h c]
  exact ⟨rfl, hc⟩

theorem pure (v : α) : StaysFrom floor (Pure.pure v) := of_still fun _ => rfl

theorem fail (e : Error) : StaysFrom floor (Reader.fail e : Reader α) := of_still fun _ => rfl

theorem position : StaysFrom floor Reader.position := of_still fun _ => rfl

theorem remaining : StaysFrom floor Reader.remaining := of_still fun _ => rfl

theorem hasMore : StaysFrom floor Reader.hasMore := of_still fun _ => rfl

theorem bind (hr : StaysFrom floor r) (hf : ∀ v, StaysFrom floor (f v)) :
    StaysFrom floor (r >>= f) := by
  intro c hc
  obtain ⟨hdata, hfloor⟩ := hr c hc
  rcases hrun : r c with ⟨answer, c'⟩
  rw [hrun] at hdata hfloor
  cases answer with
  | error e =>
      rw [bind_of_error hrun]
      exact ⟨hdata, hfloor⟩
  | ok v =>
      rw [bind_of_ok hrun]
      obtain ⟨hdata', hfloor'⟩ := hf v c' hfloor
      exact ⟨hdata'.trans hdata, hfloor'⟩

theorem ite {p : Prop} [Decidable p] {q : Reader α} (hr : StaysFrom floor r)
    (hq : StaysFrom floor q) : StaysFrom floor (if p then r else q) := by
  split
  · exact hr
  · exact hq

theorem ofStep {step : Cursor → Option (α × Cursor)}
    (h : ∀ c v c', step c = some (v, c') → floor ≤ c.position →
      c'.data = c.data ∧ floor ≤ c'.position) : StaysFrom floor (Reader.ofStep step) := by
  intro c hc
  unfold Reader.ofStep
  split
  · rename_i v c' hstep
    exact h c v c' hstep hc
  · exact ⟨rfl, hc⟩

theorem of_passes {step : Cursor → Option (α × Cursor)}
    (h : ∀ c v c', Reader.ofStep step c = (.ok v, c') → ∃ taken, c.Passes taken c') :
    StaysFrom floor (Reader.ofStep step) := by
  refine ofStep fun c v c' hstep hc => ?_
  obtain ⟨taken, hpass⟩ := h c v c' (ofStep_eq_ok_iff.mpr hstep)
  exact ⟨hpass.data, hpass.position ▸ Nat.le_add_right_of_le hc⟩

theorem value (α : Type) [LittleEndian α] : StaysFrom floor (Reader.value α) :=
  of_passes fun _ _ _ h => ⟨_, value_eq_ok_iff.mp h⟩

theorem bytes (count : Nat) : StaysFrom floor (Reader.bytes count) :=
  of_passes fun _ _ _ h => ⟨_, (bytes_eq_ok_iff.mp h).2⟩

theorem advance (count : Nat) : StaysFrom floor (Reader.advance count) :=
  of_passes fun _ _ _ h => (advance_eq_ok_iff.mp h).imp fun _ hskip => hskip.2

theorem align (alignment : Nat) : StaysFrom floor (Reader.align alignment) :=
  fun c hc => advance (c.padding alignment) c hc

theorem u24 : StaysFrom floor Reader.u24 :=
  of_passes fun _ _ _ h => (u24_eq_ok_iff.mp h).imp fun _ htaken => htaken.2.2

theorem peek : StaysFrom floor Reader.peek :=
  of_passes fun _ _ _ h => ⟨[], Cursor.passes_nil_iff.mpr (peek_eq_ok_iff.mp h).2.symm⟩

theorem seek {place : Nat} (h : floor ≤ place) : StaysFrom floor (Reader.seek place) := by
  refine ofStep fun c v c' hstep _ => ?_
  obtain ⟨hdata, rfl⟩ := seek_eq_ok_iff.mp (ofStep_eq_ok_iff.mpr hstep)
  exact ⟨hdata, h⟩

theorem namingDefect (defect : Cursor → Defect) (hr : StaysFrom floor r) :
    StaysFrom floor (r.namingDefect defect) := by
  intro c hc
  have hstays := hr c hc
  unfold Reader.namingDefect
  split
  · rename_i hrun
    rwa [hrun] at hstays
  · exact hstays

end StaysFrom

/-! ## What is owed to unchecked bytes -/

/-- A reader that can complain of nothing but its input: it runs out of bytes,
or finds them malformed. -/
abbrev OnlyInput (r : Reader α) : Prop :=
  FailsOnly (fun e => e = Error.outOfBounds ∨ e.isMalformed) r

theorem onlyInput_ofStep (step : Cursor → Option (α × Cursor)) : OnlyInput (ofStep step) :=
  ofStep_failsOnly.mono fun _ h => .inl h

theorem onlyInput_fail (defect : Defect) : OnlyInput (fail (.ofDefect defect) : Reader α) :=
  fail_failsOnly (.inr rfl)

theorem onlyInput_align (alignment : Nat) : OnlyInput (align alignment) :=
  fun c e c' h => onlyInput_ofStep (fun c => (c.advance? (c.padding alignment)).map fun moved =>
    ((), moved)) c e c' h

/-- What is owed to the bytes at a cursor, whatever these are, by what a
reader answers and where it leaves its cursor. -/
structure Robust (c : Cursor) (answer : Except Error α) (c' : Cursor) : Prop where
  answered : (∃ v, answer = .ok v) ∨ ∃ e, answer = .error e ∧ e.isMalformed
  data : c'.data = c.data
  onward : c.position ≤ c'.position
  inside : c'.position ≤ c.data.length

theorem robust {r : Reader α} {c : Cursor} (herror : FailsOnly (fun e => e.isMalformed) r)
    (hstays : StaysFrom c.position r) : Robust c (r c).1 (r c).2 := by
  obtain ⟨hdata, honward⟩ := hstays c (Nat.le_refl _)
  refine ⟨?_, hdata, honward, hdata ▸ (r c).2.inside⟩
  rcases hrun : r c with ⟨answer, c'⟩
  cases answer with
  | ok v => exact .inl ⟨v, rfl⟩
  | error e => exact .inr ⟨e, rfl, herror c e c' hrun⟩

theorem namingDefect_snd (defect : Cursor → Defect) (r : Reader α) (c : Cursor) :
    (r.namingDefect defect c).2 = (r c).2 := by
  unfold namingDefect
  split
  · rename_i hrun
    rw [hrun]
  · rfl

/-! ## Loops -/

/-- A loop of rounds, each of which hands out some items and says whether
another round follows: what the loop comes to, and where its cursor is then. -/
inductive Loop (round : Reader (List β × Bool)) :
    Cursor → Except Error (List β) → Cursor → Prop where
  | failed {c c' : Cursor} {e : Error} (fails : round c = (.error e, c')) :
      Loop round c (.error e) c'
  | last {c c' : Cursor} {items : List β} (ends : round c = (.ok (items, false), c')) :
      Loop round c (.ok items) c'
  | more {c c₁ c' : Cursor} {items : List β} {answer : Except Error (List β)}
      (goesOn : round c = (.ok (items, true), c₁)) (behind : Loop round c₁ answer c') :
      Loop round c (answer.map (items ++ ·)) c'

end Reader

open Reader

/-! ## Instructions -/

namespace Instruction

variable {floor : Nat}

theorem staysFrom_readValue (α : Type) [LittleEndian α] (offset : Nat) :
    StaysFrom floor (readValue α offset) :=
  (StaysFrom.value α).namingDefect _

theorem staysFrom_readDeltas (offset count : Nat) : StaysFrom floor (readDeltas offset count) := by
  induction count with
  | zero => exact .pure _
  | succ count ih =>
      exact (staysFrom_readValue Int32 offset).bind fun first => ih.bind fun rest => .pure _

theorem staysFrom_readOperand (kind : OperandKind) (offset : Nat) :
    StaysFrom floor (readOperand kind offset) := by
  cases kind with
  | none => exact .pure _
  | switch =>
      refine (staysFrom_readValue UInt32 offset).bind fun count => ?_
      refine StaysFrom.remaining.bind fun remaining => ?_
      split
      · exact .fail _
      · exact (staysFrom_readDeltas offset _).bind fun deltas => .pure _
  | _ => exact (staysFrom_readValue _ offset).bind fun value => .pure _

theorem staysFrom_readOpcode (offset : Nat) : StaysFrom floor (readOpcode offset) := by
  refine (staysFrom_readValue UInt8 offset).bind fun first => ?_
  split
  · refine (staysFrom_readValue UInt8 offset).bind fun second => ?_
    split
    · exact .fail _
    · split
      · exact .pure _
      · exact .fail _
  · split
    · exact .pure _
    · exact .fail _

theorem staysFrom_read : StaysFrom floor read := by
  refine StaysFrom.position.bind fun offset => ?_
  refine (staysFrom_readOpcode offset).bind fun found => ?_
  obtain ⟨lead, opcode, row⟩ := found
  dsimp only
  split
  · exact .fail _
  · refine (staysFrom_readOperand row.kind offset).bind fun operand => ?_
    refine StaysFrom.position.bind fun next => ?_
    split
    · exact .fail _
    · exact .pure _

theorem staysFrom_readMany (count : Nat) : StaysFrom floor (readMany count) := by
  induction count with
  | zero => exact .pure _
  | succ count ih =>
      refine StaysFrom.hasMore.bind fun more => ?_
      split
      · exact staysFrom_read.bind fun first => ih.bind fun rest => .pure _
      · exact .pure _

/-- An instruction takes a byte at least, and ends where it says that it does. -/
theorem position_of_read {i : Instruction} {c c' : Cursor} (h : read c = (.ok i, c')) :
    i.offset = c.position ∧ c.position + 1 ≤ c'.position ∧ c'.position = i.offset + i.size := by
  obtain ⟨bytes, hencode, hpass, hplaced⟩ := read_eq_ok_iff.mp h
  have hpos := length_pos_of_encode hencode
  have hsize := hplaced.size.trans (encodedSize_of_encode hencode)
  have hoffset := hplaced.offset
  have hposition := hpass.position
  omega

def round : Reader (List Instruction × Bool) := do
  if ← Reader.hasMore then return ([← read], true) else return ([], false)

theorem round_of_done {c : Cursor} (h : c.ahead = []) : round c = (.ok ([], false), c) := by
  have hmore : Reader.hasMore c = (.ok false, c) :=
    Reader.hasMore_eq_ok_iff.mpr ⟨Cursor.hasMore_eq_false_iff.mpr h, rfl⟩
  rw [round, bind_of_ok hmore]
  rfl

theorem round_of_more {c : Cursor} (h : c.ahead ≠ []) :
    round c = (read >>= fun i => pure ([i], true)) c := by
  have hmore : Reader.hasMore c = (.ok true, c) :=
    Reader.hasMore_eq_ok_iff.mpr ⟨Cursor.hasMore_eq_true_iff.mpr h, rfl⟩
  rw [round, bind_of_ok hmore, if_pos rfl]

theorem loop_readMany {count : Nat} {c : Cursor} (hcount : c.remaining ≤ count) :
    Loop round c (readMany count c).1 (readMany count c).2 := by
  induction count generalizing c with
  | zero => exact .last (round_of_done (Cursor.ahead_eq_nil_iff.mpr (Nat.le_zero.mp hcount)))
  | succ count ih =>
      by_cases hahead : c.ahead = []
      · rw [readMany_of_done hahead]
        exact .last (round_of_done hahead)
      · have hround := round_of_more hahead
        have hmore : Reader.hasMore c = (.ok true, c) :=
          Reader.hasMore_eq_ok_iff.mpr ⟨Cursor.hasMore_eq_true_iff.mpr hahead, rfl⟩
        rw [readMany, bind_of_ok hmore, if_pos rfl]
        rcases hread : read c with ⟨answer, c₁⟩
        cases answer with
        | error e =>
            rw [bind_of_error hread] at hround ⊢
            exact .failed hround
        | ok i =>
            rw [bind_of_ok hread] at hround ⊢
            -- An instruction takes a byte, so one try less is enough for the rest.
            have hless := (position_of_read hread).2.1
            have hdata := (staysFrom_read c (Nat.zero_le _)).1
            rw [hread] at hdata
            have hleft : c₁.remaining ≤ count := by
              rw [Cursor.remaining] at hcount ⊢
              rw [hdata]
              omega
            have hrest := Loop.more hround (ih hleft)
            rcases hmany : readMany count c₁ with ⟨rest, c₂⟩
            rw [hmany] at hrest
            cases rest with
            | error e => rwa [bind_of_error hmany]
            | ok rest => rwa [bind_of_ok hmany]

theorem staysFrom_readAll : StaysFrom floor readAll :=
  StaysFrom.remaining.bind fun remaining => staysFrom_readMany remaining

theorem onlyMalformed_readAll : FailsOnly (fun e => e.isMalformed) readAll :=
  remaining_failsOnly.bind fun remaining => onlyMalformed_readMany remaining

end Instruction

/-! ## Sections -/

namespace Section

variable {floor : Nat}

theorem staysFrom_readClause (layout : Layout) : StaysFrom floor (Clause.read layout) := by
  cases layout <;>
    exact (StaysFrom.value _).bind fun _ => (StaysFrom.value _).bind fun _ =>
      (StaysFrom.value _).bind fun _ => (StaysFrom.value _).bind fun _ =>
      (StaysFrom.value _).bind fun _ => (StaysFrom.value _).bind fun _ => .pure _

theorem onlyInput_readClause (layout : Layout) : OnlyInput (Clause.read layout) := by
  cases layout <;>
    exact (onlyInput_ofStep _).bind fun _ => (onlyInput_ofStep _).bind fun _ =>
      (onlyInput_ofStep _).bind fun _ => (onlyInput_ofStep _).bind fun _ =>
      (onlyInput_ofStep _).bind fun _ => (onlyInput_ofStep _).bind fun _ => .pure _

theorem staysFrom_readClauses (layout : Layout) (count : Nat) :
    StaysFrom floor (readClauses layout count) := by
  induction count with
  | zero => exact .pure _
  | succ count ih =>
      exact (staysFrom_readClause layout).bind fun first => ih.bind fun rest => .pure _

theorem onlyInput_readClauses (layout : Layout) (count : Nat) :
    OnlyInput (readClauses layout count) := by
  induction count with
  | zero => exact .pure _
  | succ count ih =>
      exact (onlyInput_readClause layout).bind fun first => ih.bind fun rest => .pure _

theorem staysFrom_readSize (layout : Layout) : StaysFrom floor (readSize layout) := by
  cases layout with
  | thin =>
      exact (StaysFrom.value UInt8).bind fun size => (StaysFrom.advance 2).bind fun _ => .pure _
  | fat => exact StaysFrom.u24.bind fun size => .pure _

theorem onlyInput_readSize (layout : Layout) : OnlyInput (readSize layout) := by
  cases layout with
  | thin =>
      exact (onlyInput_ofStep _).bind fun size => (onlyInput_ofStep _).bind fun _ => .pure _
  | fat => exact (onlyInput_ofStep _).bind fun size => .pure _

theorem staysFrom_readBehind (start : Nat) (flags : UInt8) :
    StaysFrom floor (readBehind start flags) := by
  refine .ite (.pure none) ((staysFrom_readSize _).bind fun size => .ite (.fail _) ?_)
  refine StaysFrom.remaining.bind fun remaining => .ite (.fail _) ?_
  exact (staysFrom_readClauses _ _).bind fun regions => .pure _

theorem onlyInput_readBehind (start : Nat) (flags : UInt8) :
    OnlyInput (readBehind start flags) := by
  refine .ite (.pure none) ((onlyInput_readSize _).bind fun size => .ite (onlyInput_fail _) ?_)
  refine remaining_failsOnly.bind fun remaining => .ite (onlyInput_fail _) ?_
  exact (onlyInput_readClauses _ _).bind fun regions => .pure _

theorem staysFrom_readOne (start : Nat) : StaysFrom floor (readOne start) :=
  (StaysFrom.value UInt8).bind fun flags => staysFrom_readBehind start flags

theorem onlyInput_readOne (start : Nat) : OnlyInput (readOne start) :=
  (onlyInput_ofStep _).bind fun flags => onlyInput_readBehind start flags

/-- One round of the loop over sections. What is no section of regions ends it. -/
def round : Reader (List Region × Bool) := do
  Reader.align 4
  return (← readOne (← Reader.position)).getD ([], false)

theorem readMany_succ (count : Nat) :
    readMany (count + 1) = round >>= fun found =>
      if found.2 then do return found.1 ++ (← readMany count) else pure found.1 := by
  rw [readMany, round]
  simp only [bind_assoc, pure_bind]
  refine bind_congr fun _ => bind_congr fun _ => bind_congr fun found => ?_
  rcases found with _ | ⟨regions, more⟩
  · rfl
  · cases more <;> rfl

theorem staysFrom_round : StaysFrom floor round :=
  (StaysFrom.align 4).bind fun _ => StaysFrom.position.bind fun start =>
    (staysFrom_readOne start).bind fun _ => .pure _

theorem onlyInput_round : OnlyInput round :=
  (onlyInput_align 4).bind fun _ => position_failsOnly.bind fun start =>
    (onlyInput_readOne start).bind fun _ => .pure _

theorem staysFrom_readMany (count : Nat) : StaysFrom floor (readMany count) := by
  induction count with
  | zero => exact .pure _
  | succ count ih =>
      rw [readMany_succ]
      exact staysFrom_round.bind fun found => .ite (ih.bind fun rest => .pure _) (.pure _)

theorem onlyInput_readMany (count : Nat) : OnlyInput (readMany count) := by
  induction count with
  | zero => exact .pure _
  | succ count ih =>
      rw [readMany_succ]
      exact onlyInput_round.bind fun found => .ite (ih.bind fun rest => .pure _) (.pure _)

/-- A section that another follows has taken its header at least, also if it
is empty. -/
theorem position_of_round {regions : List Region} {c c' : Cursor}
    (h : round c = (.ok (regions, true), c')) : c.position + 4 ≤ c'.position := by
  simp only [round, bind_eq_ok_iff, Reader.position_eq_ok_iff, pure_eq_ok_iff] at h
  obtain ⟨_, c₁, halign, _, _, ⟨rfl, rfl⟩, found, _, hone, hfound, rfl⟩ := h
  obtain ⟨skipped, -, hskip⟩ := Reader.align_eq_ok_iff.mp halign
  rcases readOne_eq_ok_iff.mp hone with ⟨flags, -, rfl, -⟩ | ⟨sec, rfl, hpass⟩
  · cases hfound
  · have hposition := hskip.position
    have hsection := hpass.position
    have hleast : 4 ≤ sec.size := Nat.le_add_right ..
    rw [sec.length_bytes] at hsection
    omega

theorem loop_readMany {count : Nat} {c : Cursor} (hcount : c.remaining < count) :
    Loop round c (readMany count c).1 (readMany count c).2 := by
  induction count generalizing c with
  | zero => exact absurd hcount (Nat.not_lt_zero _)
  | succ count ih =>
      rw [readMany_succ]
      rcases hround : round c with ⟨answer, c₁⟩
      rcases answer with e | ⟨regions, more⟩
      · rw [bind_of_error hround]
        exact .failed hround
      · rw [bind_of_ok hround]
        cases more with
        | false => exact .last hround
        | true =>
            -- A section that another follows takes bytes too, so one try less is enough.
            have hless := position_of_round hround
            have hdata := (staysFrom_round c (Nat.zero_le _)).1
            rw [hround] at hdata
            have hleft : c₁.remaining < count := by
              rw [Cursor.remaining] at hcount ⊢
              have hinside := c₁.inside
              rw [hdata] at hinside ⊢
              omega
            have hrest := Loop.more hround (ih hleft)
            rcases hmany : readMany count c₁ with ⟨rest, c₂⟩
            rw [hmany] at hrest
            dsimp only
            rw [if_pos rfl]
            cases rest with
            | error e => rwa [bind_of_error hmany]
            | ok rest => rwa [bind_of_ok hmany]

theorem staysFrom_readChain : StaysFrom floor readChain :=
  StaysFrom.position.bind fun _ => StaysFrom.remaining.bind fun remaining =>
    (staysFrom_readMany (remaining + 1)).namingDefect _

theorem onlyMalformed_readChain : FailsOnly (fun e => e.isMalformed) readChain :=
  position_failsOnly.bind fun _ => remaining_failsOnly.bind fun remaining =>
    namingDefect_failsOnly (onlyInput_readMany (remaining + 1))

end Section

/-! ## Bodies -/

namespace Body

theorem staysFrom_readTiny (first : UInt8) : StaysFrom 0 (readTiny first) :=
  (StaysFrom.advance 1).bind fun _ => (StaysFrom.bytes _).bind fun _ => .pure _

theorem onlyInput_readTiny (first : UInt8) : OnlyInput (readTiny first) :=
  (onlyInput_ofStep _).bind fun _ => (onlyInput_ofStep _).bind fun _ => .pure _

theorem staysFrom_readFat : StaysFrom 0 readFat := by
  -- The floor is 0, so that the jump to the declared end of the header may lead anywhere.
  refine (StaysFrom.value UInt16).bind fun word => .ite (.fail _) ?_
  refine (StaysFrom.value UInt16).bind fun maxStack => ?_
  refine (StaysFrom.value UInt32).bind fun codeSize => ?_
  refine (StaysFrom.value UInt32).bind fun localSignature => ?_
  refine (StaysFrom.seek (Nat.zero_le _)).bind fun _ => ?_
  refine (StaysFrom.bytes _).bind fun code => ?_
  exact .ite (.pure _) (Section.staysFrom_readChain.bind fun regions => .pure _)

theorem onlyInput_readFat : OnlyInput readFat := by
  refine (onlyInput_ofStep _).bind fun word => .ite (onlyInput_fail _) ?_
  refine (onlyInput_ofStep _).bind fun maxStack => ?_
  refine (onlyInput_ofStep _).bind fun codeSize => ?_
  refine (onlyInput_ofStep _).bind fun localSignature => ?_
  refine (onlyInput_ofStep _).bind fun _ => ?_
  refine (onlyInput_ofStep _).bind fun code => ?_
  exact .ite (.pure _)
    ((Section.onlyMalformed_readChain.mono fun _ h => .inr h).bind fun regions => .pure _)

theorem staysFrom_read : StaysFrom 0 read := by
  refine StaysFrom.hasMore.bind fun more => .ite (.fail _) ?_
  refine StaysFrom.peek.bind fun first => ?_
  exact .ite (staysFrom_readTiny first) (.ite staysFrom_readFat (.fail _))

theorem onlyInput_read : OnlyInput read := by
  refine hasMore_failsOnly.bind fun more => .ite (onlyInput_fail _) ?_
  refine (onlyInput_ofStep _).bind fun first => ?_
  exact .ite (onlyInput_readTiny first) (.ite onlyInput_readFat (onlyInput_fail _))

theorem robust_decode (data : Bytes) :
    Robust (.start data) (decode data) (read.runOn data).2 := by
  have hfails : FailsOnly (fun e => e.isMalformed)
      (read.namingDefect fun c => .truncatedBody data.length c.position) :=
    namingDefect_failsOnly onlyInput_read
  have hrobust := robust (c := .start data) hfails (staysFrom_read.namingDefect _)
  rwa [namingDefect_snd] at hrobust

end Body

/-! ## Whatever the bytes are -/

/-- What the readers owe to the bytes at a cursor. The loop over sections
gives the place of a chain to the error that it ends with. -/
structure Withstood (c : Cursor) : Prop where
  stream : Robust c (Instruction.readAll c).1 (Instruction.readAll c).2
  instruction : Robust c (Instruction.read c).1 (Instruction.read c).2
  sections : Robust c (Section.readChain c).1 (Section.readChain c).2
  body : Robust (.start c.data) (Body.decode c.data) (Body.read.runOn c.data).2
  instructionMoves : ∀ i c', Instruction.read c = (.ok i, c') →
    i.offset = c.position ∧ c.position + 1 ≤ c'.position ∧ c'.position = i.offset + i.size
  sectionMoves : ∀ regions c', Section.round c = (.ok (regions, true), c') →
    c.position + 4 ≤ c'.position
  streamEnds : Loop Instruction.round c (Instruction.readAll c).1 (Instruction.readAll c).2
  sectionsEnd : ∃ answer c', Loop Section.round c answer c' ∧
    Section.readChain c =
      Reader.namingDefect (fun _ => .truncatedSections c.position) (fun _ => (answer, c')) c

/-- No bytes upset the readers, and none keep them going for ever. -/
theorem readers_withstand (c : Cursor) : Withstood c where
  stream := robust Instruction.onlyMalformed_readAll Instruction.staysFrom_readAll
  instruction := robust Instruction.onlyMalformed_read Instruction.staysFrom_read
  sections := robust Section.onlyMalformed_readChain Section.staysFrom_readChain
  body := Body.robust_decode c.data
  instructionMoves := fun _ _ h => Instruction.position_of_read h
  sectionMoves := fun _ _ h => Section.position_of_round h
  streamEnds := Instruction.loop_readMany (Nat.le_refl _)
  sectionsEnd := ⟨_, _, Section.loop_readMany (Nat.lt_succ_self _), rfl⟩

end Reroute
