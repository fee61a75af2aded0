import Reroute.Entity.Shared
import Reroute.Proofs.Interning
/-!
# The steps of calls that share a scope

`Moves` lists what a step of a call can do, what it needs for it and what it
leaves. Two invariants rest on nothing else. A lock belongs to the one call
that is between taking it and giving it back (`InternCalls.Locking`). And an
entry without a token on record is about to get one from the call that
appended it (`InternCalls.Listing`), so a call that has looked again under its
lock and found nothing appends what is not there.
-/

namespace Reroute

/-! ## What a step can do -/

namespace InternPhase

def holds : InternPhase → Bool
  | .check | .append | .record _ => true
  | .lookup | .acquire | .done _ => false

/-- Whether a call in this phase has taken effect. -/
def effective : InternPhase → Bool
  | .record _ | .done _ => true
  | .lookup | .acquire | .check | .append => false

end InternPhase

namespace InternCall

/-- The steps of a call for an entry, each with what it needs and what it leaves. -/
inductive Moves (entry : Entry) (s : SharedInterner) :
    InternPhase → InternPhase → SharedInterner → Prop where
  | found {token : Token} (h : s.scope.lookup? entry = some token) :
      Moves entry s .lookup (.done (.ok token)) s
  | missed : Moves entry s .lookup .acquire s
  | acquired (free : entry ∉ s.locked) : Moves entry s .acquire .check (s.lock entry)
  | foundLocked {token : Token} (h : s.scope.lookup? entry = some token) :
      Moves entry s .check (.done (.ok token)) (s.release entry)
  | absent (h : s.scope.lookup? entry = none) : Moves entry s .check .append s
  | appended : Moves entry s .append (.record s.scope.size)
      { s with scope := (s.scope.append entry).2 }
  | recorded {index : Nat} (room : index < Token.maxRow) :
      Moves entry s (.record index) (.done (.ok (Interner.rowToken entry index)))
        ({ s with scope := s.scope.record entry (Interner.rowToken entry index) }.release entry)
  | refused {index : Nat} {e : Error} (full : ¬index < Token.maxRow) :
      Moves entry s (.record index) (.done (.error e)) (s.release entry)

variable {c : InternCall} {entry : Entry} {s s' : SharedInterner} {phase phase' : InternPhase}

theorem moves_of_step (h : c.step s = some (phase', s')) : Moves c.entry s c.phase phase' s' := by
  obtain ⟨entry, phase⟩ := c
  unfold step at h
  cases phase with
  | lookup =>
      cases hlookup : s.scope.lookup? entry with
      | none =>
          simp only [hlookup, found] at h
          cases h
          exact .missed
      | some token =>
          simp only [hlookup, found] at h
          cases h
          exact .found hlookup
  | acquire =>
      dsimp only at h
      split at h
      · cases h
      · rename_i hfree
        cases h
        exact .acquired hfree
  | check =>
      cases hlookup : s.scope.lookup? entry with
      | none =>
          simp only [hlookup] at h
          cases h
          exact .absent hlookup
      | some token =>
          simp only [hlookup] at h
          cases h
          exact .foundLocked hlookup
  | append =>
      cases h
      exact .appended
  | record index =>
      by_cases hroom : index + 1 ≤ Token.maxRow
      · have htoken : Interner.tokenAt entry index = .ok (Interner.rowToken entry index) :=
          if_pos hroom
        simp only [htoken] at h
        cases h
        exact .recorded hroom
      · obtain ⟨e, hfull⟩ : ∃ e, Interner.tokenAt entry index = .error e := ⟨_, if_neg hroom⟩
        simp only [hfull] at h
        cases h
        exact .refused hroom
  | done result => cases h

theorem isSome_step_of_holds (h : c.phase.holds = true) : (c.step s).isSome := by
  obtain ⟨entry, phase⟩ := c
  unfold step
  cases phase with
  | check =>
      dsimp only
      split <;> rfl
  | append => rfl
  | record index =>
      dsimp only
      split <;> rfl
  | lookup | acquire | done => cases h

theorem lock_of_moves (h : Moves entry s phase phase' s') :
    (phase'.holds = phase.holds ∧ s'.locked = s.locked) ∨
    (phase.holds = false ∧ phase'.holds = true ∧ entry ∉ s.locked ∧
      s'.locked = entry :: s.locked) ∨
    (phase.holds = true ∧ phase'.holds = false ∧ s'.locked = s.locked.erase entry) := by
  cases h with
  | found | missed | absent | appended => exact .inl ⟨rfl, rfl⟩
  | acquired free => exact .inr (.inl ⟨rfl, rfl, free, rfl⟩)
  | foundLocked | recorded | refused => exact .inr (.inr ⟨rfl, rfl, rfl⟩)

theorem entries_prefix_of_moves (h : Moves entry s phase phase' s') :
    s.scope.entries <+: s'.scope.entries := by
  cases h with
  | appended => exact List.prefix_append _ _
  | _ => exact List.prefix_refl _

end InternCall

namespace InternCalls

variable {calls : InternCalls} {s s' : SharedInterner} {index : Nat} {c : InternCall}
  {phase' : InternPhase}

theorem map_entry_set (hat : calls[index]? = some c) :
    (calls.set index ⟨c.entry, phase'⟩).map InternCall.entry = calls.map InternCall.entry := by
  refine List.ext_getElem? fun i => ?_
  rw [List.getElem?_map, List.getElem?_map]
  by_cases heq : index = i
  · subst heq
    rw [hat, getElem?_set_self_of_getElem? hat]
    rfl
  · rw [List.getElem?_set_ne heq]

/-! ## Locks -/

/-- Which call has the lock of an entry. -/
structure Locking (holder : Entry → Option Nat) (calls : InternCalls) (s : SharedInterner) :
    Prop where
  nodup : s.locked.Nodup
  mem_iff : ∀ entry, entry ∈ s.locked ↔ (holder entry).isSome
  holds_iff : ∀ i c, calls[i]? = some c → (c.phase.holds = true ↔ holder c.entry = some i)
  held : ∀ entry (i : Nat), holder entry = some i →
    (calls.map InternCall.entry)[i]? = some entry

namespace Locking

variable {holder : Entry → Option Nat}

theorem acquired (h : Locking holder calls s) (hat : calls[index]? = some c)
    (hfree : c.entry ∉ s.locked) (hholds : phase'.holds = true)
    (hlocked : s'.locked = c.entry :: s.locked) :
    Locking (fun entry => if entry = c.entry then some index else holder entry)
      (calls.set index ⟨c.entry, phase'⟩) s' := by
  have hnone : holder c.entry = none := by
    cases hholder : holder c.entry with
    | none => rfl
    | some i => exact absurd ((h.mem_iff c.entry).mpr (by rw [hholder]; rfl)) hfree
  constructor
  case nodup =>
    rw [hlocked]
    exact List.nodup_cons.mpr ⟨hfree, h.nodup⟩
  case mem_iff =>
    intro entry
    rw [hlocked, List.mem_cons]
    split
    · rename_i heq
      simp [heq]
    · rename_i hne
      rw [← h.mem_iff entry]
      exact ⟨fun hmem => hmem.resolve_left hne, .inr⟩
  case holds_iff =>
    intro i d hi
    rcases getElem?_set_cases hi with ⟨rfl, rfl⟩ | ⟨hne, hi⟩
    · simp [hholds]
    · rw [h.holds_iff i d hi]
      split
      · rename_i heq
        rw [heq, hnone]
        simp [Ne.symm hne]
      · exact Iff.rfl
  case held =>
    intro entry i hholder
    rw [map_entry_set hat]
    split at hholder
    · rename_i heq
      cases hholder
      rw [heq, List.getElem?_map, hat]
      rfl
    · exact h.held entry i hholder

theorem released (h : Locking holder calls s) (hat : calls[index]? = some c)
    (hheld : c.phase.holds = true) (hholds : phase'.holds = false)
    (hlocked : s'.locked = s.locked.erase c.entry) :
    Locking (fun entry => if entry = c.entry then none else holder entry)
      (calls.set index ⟨c.entry, phase'⟩) s' := by
  have hholder := (h.holds_iff index c hat).mp hheld
  constructor
  case nodup =>
    rw [hlocked]
    exact h.nodup.erase _
  case mem_iff =>
    intro entry
    rw [hlocked, h.nodup.mem_erase_iff, h.mem_iff entry]
    split
    · rename_i heq
      simp [heq]
    · rename_i hne
      exact ⟨And.right, fun hmem => ⟨hne, hmem⟩⟩
  case holds_iff =>
    intro i d hi
    rcases getElem?_set_cases hi with ⟨rfl, rfl⟩ | ⟨hne, hi⟩
    · simp [hholds]
    · rw [h.holds_iff i d hi]
      split
      · rename_i heq
        rw [heq, hholder]
        simp [Ne.symm hne]
      · exact Iff.rfl
  case held =>
    intro entry i hother
    rw [map_entry_set hat]
    split at hother
    · cases hother
    · exact h.held entry i hother

theorem moves (h : Locking holder calls s) (hat : calls[index]? = some c)
    (hmoves : InternCall.Moves c.entry s c.phase phase' s') :
    ∃ holder', Locking holder' (calls.set index ⟨c.entry, phase'⟩) s' := by
  rcases InternCall.lock_of_moves hmoves with ⟨hholds, hlocked⟩ | ⟨-, hholds, hfree, hlocked⟩ |
    ⟨hheld, hholds, hlocked⟩
  · refine ⟨holder, hlocked ▸ h.nodup, fun entry => hlocked ▸ h.mem_iff entry, ?_,
      (map_entry_set hat).symm ▸ h.held⟩
    intro i d hi
    rcases getElem?_set_cases hi with ⟨rfl, rfl⟩ | ⟨-, hi⟩
    · rw [hholds]
      exact h.holds_iff i c hat
    · exact h.holds_iff i d hi
  · exact ⟨_, h.acquired hat hfree hholds hlocked⟩
  · exact ⟨_, h.released hat hheld hholds hlocked⟩

theorem eq_of_holds (h : Locking holder calls s) {i j : Nat} {d : InternCall}
    (hi : calls[i]? = some c) (hj : calls[j]? = some d) (hholds : c.phase.holds = true)
    (hholds' : d.phase.holds = true) (hentry : c.entry = d.entry) : i = j := by
  have hholder := (h.holds_iff i c hi).mp hholds
  rw [hentry, (h.holds_iff j d hj).mp hholds'] at hholder
  exact (Option.some.inj hholder).symm

end Locking

/-! ## Entries and their tokens -/

/-- What a call in some phase knows of the scope. -/
inductive Sound (scope : Interner) (entry : Entry) : InternPhase → Prop where
  | lookup : Sound scope entry .lookup
  | acquire : Sound scope entry .acquire
  | check : Sound scope entry .check
  | append (h : entry ∉ scope.entries) : Sound scope entry .append
  | record {index : Nat} (h : scope.entries[index]? = some entry) :
      Sound scope entry (.record index)
  | done {index : Nat} (h : scope.entries[index]? = some entry) :
      Sound scope entry (.done (.ok (Interner.rowToken entry index)))

/-- The entries of a scope. An entry without a token on record is about to be
given one by the call that appended it. -/
structure Listing (calls : InternCalls) (scope : Interner) : Prop where
  nodup : scope.entries.Nodup
  placed : ∀ {entry token}, scope.lookup? entry = some token →
    ∃ index, scope.entries[index]? = some entry ∧ Interner.rowToken entry index = token
  pending : ∀ {entry}, entry ∈ scope.entries → scope.lookup? entry = none →
    ∃ i row : Nat, calls[i]? = some (⟨entry, .record row⟩ : InternCall)
  sound : ∀ (i : Nat) (c : InternCall), calls[i]? = some c → Sound scope c.entry c.phase

theorem Sound.not_mem {scope : Interner} {entry : Entry} (h : Sound scope entry .append) :
    entry ∉ scope.entries := by
  cases h
  assumption

theorem Sound.getElem? {scope : Interner} {entry : Entry} {index : Nat}
    (h : Sound scope entry (.record index)) : scope.entries[index]? = some entry := by
  cases h
  assumption

theorem Sound.exists_of_done {scope : Interner} {entry : Entry} {result : Except Error Token}
    (h : Sound scope entry (.done result)) : ∃ index, scope.entries[index]? = some entry ∧
      result = .ok (Interner.rowToken entry index) := by
  cases h with
  | done hat => exact ⟨_, hat, rfl⟩

/-- What a call knows stays true where no equal entry is appended. -/
theorem Sound.later {scope scope' : Interner} {entry : Entry} {phase : InternPhase}
    (h : Sound scope entry phase) (hgrown : scope.entries <+: scope'.entries)
    (hnot : phase = .append → entry ∉ scope'.entries) : Sound scope' entry phase := by
  have hkept : ∀ {index : Nat}, scope.entries[index]? = some entry →
      scope'.entries[index]? = some entry := by
    intro index hat
    obtain ⟨behind, hbehind⟩ := hgrown
    rw [← hbehind, List.getElem?_append_left (List.getElem?_eq_some_iff.mp hat).1]
    exact hat
  cases h with
  | lookup => exact .lookup
  | acquire => exact .acquire
  | check => exact .check
  | append => exact .append (hnot rfl)
  | record hat => exact .record (hkept hat)
  | done hat => exact .done (hkept hat)

namespace Listing

variable {scope : Interner}

theorem of_same (h : Listing calls scope) (hat : calls[index]? = some c)
    (hnot : ∀ row, c.phase ≠ .record row) (hsound : Sound scope c.entry phase') :
    Listing (calls.set index ⟨c.entry, phase'⟩) scope := by
  refine ⟨h.nodup, h.placed, fun hmem hnone => ?_, fun i d hi => ?_⟩
  · obtain ⟨i, row, hi⟩ := h.pending hmem hnone
    refine ⟨i, row, getElem?_set_of_ne hat hi ?_⟩
    rintro rfl
    exact hnot row rfl
  · rcases getElem?_set_cases hi with ⟨-, rfl⟩ | ⟨-, hi⟩
    · exact hsound
    · exact h.sound i d hi

/-- Whoever has the lock of an entry and has not appended it finds that it is
on record or not there at all. -/
theorem not_mem_of_check {holder : Entry → Option Nat} (h : Listing calls s.scope)
    (hlocking : Locking holder calls s) (hat : calls[index]? = some c)
    (hcheck : c.phase = .check) (hnone : s.scope.lookup? c.entry = none) :
    c.entry ∉ s.scope.entries := by
  intro hmem
  obtain ⟨i, row, hi⟩ := h.pending hmem hnone
  -- Whoever is about to record the entry has its lock, and so has this call, which only checks.
  have heq := hlocking.eq_of_holds hat hi (by rw [hcheck]; rfl) rfl rfl
  subst heq
  have hphase := congrArg InternCall.phase (Option.some.inj (hat.symm.trans hi))
  rw [hcheck] at hphase
  cases hphase

theorem appended {holder : Entry → Option Nat} (h : Listing calls s.scope)
    (hlocking : Locking holder calls s) (hat : calls[index]? = some c)
    (happend : c.phase = .append) :
    Listing (calls.set index ⟨c.entry, .record s.scope.size⟩) (s.scope.append c.entry).2 := by
  have hsound := h.sound index c hat
  rw [happend] at hsound
  constructor
  case nodup =>
    refine List.nodup_append.mpr ⟨h.nodup, by simp, ?_⟩
    rintro entry hmem _ hlast rfl
    cases List.mem_singleton.mp hlast
    exact hsound.not_mem hmem
  case placed =>
    intro entry token hlookup
    obtain ⟨row, hrow, htoken⟩ := h.placed hlookup
    exact ⟨row, Interner.getElem?_concat_eq_some_iff.mpr (.inl hrow), htoken⟩
  case pending =>
    intro entry hmem hnone
    rcases List.mem_append.mp hmem with hmem | hlast
    · obtain ⟨i, row, hi⟩ := h.pending hmem hnone
      refine ⟨i, row, getElem?_set_of_ne hat hi ?_⟩
      rintro rfl
      cases happend
    · cases List.mem_singleton.mp hlast
      exact ⟨index, _, getElem?_set_self_of_getElem? hat⟩
  case sound =>
    intro i d hi
    rcases getElem?_set_cases hi with ⟨-, rfl⟩ | ⟨hne, hi⟩
    · exact .record (List.getElem?_concat_length ..)
    · refine (h.sound i d hi).later (List.prefix_append _ _) fun hphase hmem => ?_
      have hother := h.sound i d hi
      rw [hphase] at hother
      rcases List.mem_append.mp hmem with hmem | hlast
      · exact hother.not_mem hmem
      · -- Another call about to append the same entry would have the same lock.
        refine hne (hlocking.eq_of_holds hi hat ?_ ?_ (List.mem_singleton.mp hlast))
        · rw [hphase]
          rfl
        · rw [happend]
          rfl

theorem recorded (h : Listing calls scope) {row : Nat}
    (hat : calls[index]? = some c) (hrecord : c.phase = .record row) :
    Listing (calls.set index ⟨c.entry, .done (.ok (Interner.rowToken c.entry row))⟩)
      (scope.record c.entry (Interner.rowToken c.entry row)) := by
  have hsound := h.sound index c hat
  rw [hrecord] at hsound
  have hlookup : ∀ entry, (scope.record c.entry (Interner.rowToken c.entry row)).lookup? entry =
      if entry = c.entry then some (Interner.rowToken c.entry row) else scope.lookup? entry :=
    fun entry => Interner.lookup?_cons
  constructor
  case nodup => exact h.nodup
  case placed =>
    intro entry token hfound
    rw [hlookup] at hfound
    split at hfound
    · rename_i heq
      cases hfound
      exact ⟨row, heq ▸ hsound.getElem?, heq ▸ rfl⟩
    · exact h.placed hfound
  case pending =>
    intro entry hmem hnone
    rw [hlookup] at hnone
    split at hnone
    · cases hnone
    · rename_i hne
      obtain ⟨i, other, hi⟩ := h.pending hmem hnone
      refine ⟨i, other, getElem?_set_of_ne hat hi ?_⟩
      rintro rfl
      exact hne rfl
  case sound =>
    intro i d hi
    rcases getElem?_set_cases hi with ⟨-, rfl⟩ | ⟨-, hi⟩
    · exact .done hsound.getElem?
    · exact (h.sound i d hi).later (List.prefix_refl _) fun hphase => by
        have hother := h.sound i d hi
        rw [hphase] at hother
        exact hother.not_mem

theorem moves {holder : Entry → Option Nat} (h : Listing calls s.scope)
    (hlocking : Locking holder calls s) (hat : calls[index]? = some c)
    (hmoves : InternCall.Moves c.entry s c.phase phase' s')
    (room : s.scope.size ≤ Token.maxRow) :
    Listing (calls.set index ⟨c.entry, phase'⟩) s'.scope := by
  generalize hphase : c.phase = phase at hmoves
  cases hmoves with
  | found hfound | foundLocked hfound =>
      obtain ⟨row, hrow, rfl⟩ := h.placed hfound
      exact h.of_same hat (by simp [hphase]) (.done hrow)
  | missed => exact h.of_same hat (by simp [hphase]) .acquire
  | acquired => exact h.of_same hat (by simp [hphase]) .check
  | absent hnone =>
      have hnot := h.not_mem_of_check hlocking hat hphase hnone
      exact h.of_same hat (by simp [hphase]) (.append hnot)
  | appended => exact h.appended hlocking hat hphase
  | recorded => exact h.recorded hat hphase
  | refused full =>
      have hsound := h.sound index c hat
      rw [hphase] at hsound
      have hlt := (List.getElem?_eq_some_iff.mp hsound.getElem?).1
      exact absurd (Nat.lt_of_lt_of_le hlt room) full

end Listing

end InternCalls

end Reroute
