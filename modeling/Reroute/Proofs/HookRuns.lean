import Mathlib.Data.List.Nodup
import Reroute.Hook.Arrays
/-!
# Runs of changes to the hooks of a detour

Each list goes by rules of its own (`HookEdit.Step`): a hook is put behind all
others, unless the list takes it only once and has it; its last occurrence is
taken out and the others stay in order; what is not there cannot be taken out. The
changes of a phase alone decide what becomes of its list (`ListRun`), and they decide
it fully (`ListRun.unique`).

`HookLists` and the arrays that keep them go by these rules alike
(`HookArrays.edit_refines`). Arrays are only ever added, so a list that was taken
out of a detour stays as it is whatever comes later (`HookArrays.read_run`).
-/

namespace Reroute

/-! ## Lists and phases -/

namespace HookLists

variable {h : HookLists} {phase other : HookPhase} {list : List HookId} {hook : HookId}

@[simp] theorem get_set_self : (h.set phase list).get phase = list := by
  cases phase <;> rfl

theorem get_set_of_ne (hne : other ≠ phase) : (h.set phase list).get other = h.get other := by
  cases phase <;> cases other <;> first | rfl | exact absurd rfl hne

@[simp] theorem set_get : h.set phase (h.get phase) = h := by
  cases phase <;> rfl

@[simp] theorem set_set {list' : List HookId} :
    (h.set phase list).set phase list' = h.set phase list' := by
  cases phase <;> rfl

theorem eq_of_get {h' : HookLists} (heq : ∀ phase, h.get phase = h'.get phase) : h = h' := by
  have hbefore := heq .before
  have hchain := heq .chain
  have hafter := heq .after
  cases h
  cases h'
  simp only [get] at hbefore hchain hafter
  rw [hbefore, hchain, hafter]

/-- The last occurrence goes, the others keep their order. -/
theorem removeLast_append_cons {front back : List HookId} (hlast : hook ∉ back) :
    removeLast hook (front ++ hook :: back) = front ++ back := by
  have hlast' : hook ∉ back.reverse := fun h => hlast (List.mem_reverse.mp h)
  simp only [removeLast, List.reverse_append, List.reverse_cons, List.append_assoc,
    List.singleton_append, List.erase_append_right _ hlast', List.erase_cons_head,
    List.reverse_reverse]

end HookLists

/-! ## The rules -/

/-- The phase whose list a change is about. -/
def HookEdit.phase : HookEdit → HookPhase
  | .add phase _ | .remove phase _ => phase

/-- What a change makes of the list of its phase. -/
inductive HookEdit.Step : List HookId → HookEdit → Bool → List HookId → Prop where
  | appended {phase : HookPhase} {hook : HookId} {list : List HookId}
      (fresh : phase = .chain → hook ∉ list) : Step list (.add phase hook) true (list ++ [hook])
  | refused {hook : HookId} {list : List HookId} (present : hook ∈ list) :
      Step list (.add .chain hook) false list
  | removed {phase : HookPhase} {hook : HookId} {front back : List HookId} (last : hook ∉ back) :
      Step (front ++ hook :: back) (.remove phase hook) true (front ++ back)
  | absent {phase : HookPhase} {hook : HookId} {list : List HookId} (absent : hook ∉ list) :
      Step list (.remove phase hook) false list

/-- What a run of changes with these answers makes of the list of a phase. -/
inductive ListRun (phase : HookPhase) :
    List HookId → List HookEdit → List Bool → List HookId → Prop where
  | done {list : List HookId} : ListRun phase list [] [] list
  | elsewhere {list list' : List HookId} {change : HookEdit} {rest : List HookEdit} {made : Bool}
      {answers : List Bool} (h : change.phase ≠ phase)
      (later : ListRun phase list rest answers list') :
      ListRun phase list (change :: rest) (made :: answers) list'
  | step {list middle list' : List HookId} {change : HookEdit} {rest : List HookEdit} {made : Bool}
      {answers : List Bool} (h : change.phase = phase) (now : change.Step list made middle)
      (later : ListRun phase middle rest answers list') :
      ListRun phase list (change :: rest) (made :: answers) list'

section rules

variable {phase : HookPhase} {list list' list₁ list₂ : List HookId} {change : HookEdit}
  {made made₁ made₂ : Bool} {changes : List HookEdit} {answers : List Bool}

theorem HookEdit.Step.unique (h₁ : change.Step list made₁ list₁)
    (h₂ : change.Step list made₂ list₂) : made₁ = made₂ ∧ list₁ = list₂ := by
  cases h₁ with
  | appended fresh =>
      cases h₂ with
      | appended => exact ⟨rfl, rfl⟩
      | refused present => exact absurd present (fresh rfl)
  | refused present =>
      cases h₂ with
      | appended fresh => exact absurd present (fresh rfl)
      | refused => exact ⟨rfl, rfl⟩
  | absent absent =>
      cases h₂ with
      | removed => exact absurd (List.mem_append_right _ List.mem_cons_self) absent
      | absent => exact ⟨rfl, rfl⟩
  | @removed _ hook front back last =>
      generalize hwhole : front ++ hook :: back = whole at h₂
      cases h₂ with
      | removed last' =>
          rw [← HookLists.removeLast_append_cons last, hwhole,
            HookLists.removeLast_append_cons last']
          exact ⟨rfl, rfl⟩
      | absent absent =>
          rw [← hwhole] at absent
          exact absurd (List.mem_append_right _ List.mem_cons_self) absent

theorem ListRun.unique (h₁ : ListRun phase list changes answers list₁)
    (h₂ : ListRun phase list changes answers list₂) : list₁ = list₂ := by
  induction h₁ with
  | done =>
      cases h₂ with
      | done => rfl
  | elsewhere hne _ ih =>
      cases h₂ with
      | elsewhere _ later => exact ih later
      | step heq => exact absurd heq hne
  | step heq now _ ih =>
      cases h₂ with
      | elsewhere hne => exact absurd heq hne
      | step _ now' later =>
          obtain ⟨-, rfl⟩ := now.unique now'
          exact ih later

/-- A list that takes a hook only once has it only once. -/
theorem HookEdit.Step.nodup (h : change.Step list made list') (hphase : change.phase = .chain)
    (hlist : list.Nodup) : list'.Nodup := by
  cases h with
  | appended fresh =>
      exact List.nodup_append.mpr ⟨hlist, List.nodup_singleton _, fun a ha b hb => by
        rw [List.mem_singleton.mp hb]
        rintro rfl
        exact fresh hphase ha⟩
  | refused | absent => exact hlist
  | removed last => exact (List.nodup_middle.mp hlist).of_cons

theorem ListRun.nodup (h : ListRun .chain list changes answers list')
    (hlist : list.Nodup) : list'.Nodup := by
  induction h with
  | done => exact hlist
  | elsewhere _ _ ih => exact ih hlist
  | step hphase now _ ih => exact ih (now.nodup hphase hlist)

end rules

/-! ## Changes of hook lists -/

namespace HookArrays

/-- A hook is either not in a list, or the position of its last occurrence is found. -/
theorem lastIndex?_cases (hook : HookId) (list : List HookId) :
    (lastIndex? hook list = none ∧ hook ∉ list) ∨
    ∃ front back, list = front ++ hook :: back ∧ hook ∉ back ∧
      lastIndex? hook list = some front.length := by
  induction list with
  | nil => exact .inl ⟨rfl, List.not_mem_nil⟩
  | cons other rest ih =>
      rw [lastIndex?]
      rcases ih with ⟨hnone, hmem⟩ | ⟨front, back, rfl, hlast, hsome⟩
      · rw [hnone]
        by_cases heq : other = hook
        · subst heq
          exact .inr ⟨[], rest, rfl, hmem, if_pos rfl⟩
        · refine .inl ⟨if_neg heq, fun h => ?_⟩
          rcases List.mem_cons.mp h with rfl | h
          · exact heq rfl
          · exact hmem h
      · rw [hsome]
        exact .inr ⟨other :: front, back, rfl, hlast, rfl⟩

end HookArrays

namespace HookEdit

/-- Changes one after the other, with the answer to each. -/
def applyAll : List HookEdit → HookLists → List Bool × HookLists
  | [], h => ([], h)
  | change :: rest, h =>
    ((change.apply h).1 :: (applyAll rest (change.apply h).2).1,
      (applyAll rest (change.apply h).2).2)

/-- A change goes by the rules of its own list. -/
theorem exists_step (h : HookLists) (change : HookEdit) :
    ∃ made list, change.Step (h.get change.phase) made list ∧
      change.apply h = (made, h.set change.phase list) := by
  cases change with
  | add phase hook =>
      by_cases hpresent : phase = .chain ∧ hook ∈ h.chain
      · obtain ⟨rfl, hmem⟩ := hpresent
        refine ⟨false, h.chain, .refused hmem, ?_⟩
        rw [apply, HookLists.add, if_pos ⟨rfl, hmem⟩]
        rfl
      · refine ⟨true, h.get phase ++ [hook], .appended fun hphase hmem => ?_, ?_⟩
        · subst hphase
          exact hpresent ⟨rfl, hmem⟩
        · rw [apply, HookLists.add, if_neg hpresent]
          rfl
  | remove phase hook =>
      rw [apply, HookLists.remove, HookEdit.phase]
      rcases HookArrays.lastIndex?_cases hook (h.get phase) with
        ⟨-, hmem⟩ | ⟨front, back, hlist, hlast, -⟩
      · refine ⟨false, h.get phase, .absent hmem, ?_⟩
        rw [if_neg hmem, HookLists.set_get]
      · refine ⟨true, front ++ back, ?_, ?_⟩
        · rw [hlist]
          exact .removed hlast
        · have hmem : hook ∈ h.get phase := by
            rw [hlist]
            exact List.mem_append_right _ List.mem_cons_self
          rw [if_pos hmem, hlist, HookLists.removeLast_append_cons hlast]

/-- What is taken back at once leaves no trace. -/
theorem apply_remove_of_added {h h' : HookLists} {phase : HookPhase} {hook : HookId}
    (hadd : (HookEdit.add phase hook).apply h = (true, h')) :
    (HookEdit.remove phase hook).apply h' = (true, h) := by
  rw [apply, HookLists.add] at hadd
  split at hadd
  · cases hadd
  · cases hadd
    have hmem : hook ∈ h.get phase ++ [hook] := List.mem_append_right _ List.mem_cons_self
    have hlast : HookLists.removeLast hook (h.get phase ++ [hook]) = h.get phase ++ [] :=
      HookLists.removeLast_append_cons List.not_mem_nil
    rw [apply, HookLists.remove, HookLists.get_set_self, if_pos hmem, hlast, List.append_nil,
      HookLists.set_set, HookLists.set_get]

/-- Each list of a run comes from its own changes alone. -/
theorem listRun_applyAll (changes : List HookEdit) (h : HookLists) (phase : HookPhase) :
    ListRun phase (h.get phase) changes (applyAll changes h).1
      ((applyAll changes h).2.get phase) := by
  induction changes generalizing h with
  | nil => exact .done
  | cons change rest ih =>
      obtain ⟨made, list, hstep, happly⟩ := exists_step h change
      have hlater := ih (change.apply h).2
      rw [applyAll, happly] at *
      by_cases hphase : change.phase = phase
      · subst hphase
        rw [HookLists.get_set_self] at hlater
        exact .step rfl hstep hlater
      · rw [HookLists.get_set_of_ne (Ne.symm hphase)] at hlater
        exact .elsewhere hphase hlater

end HookEdit

/-! ## Arrays -/

namespace HookArrays

variable {s : HookArrays} {phase : HookPhase} {list : List HookId} {change : HookEdit}
  {pointer : Nat}

/-- Every pointer in use leads to an array. -/
def Valid (s : HookArrays) : Prop := ∀ phase, s.current phase < s.arrays.length

theorem valid_empty : empty.Valid := fun _ => Nat.zero_lt_one

theorem get_lists : s.lists.get phase = s.read (s.current phase) := by
  cases phase <;> rfl

theorem read_replace_of_lt (h : pointer < s.arrays.length) :
    (s.replace phase list).read pointer = s.read pointer := by
  simp only [replace, read, List.getD_eq_getElem?_getD, List.getElem?_append_left h]

theorem valid_replace (valid : s.Valid) : (s.replace phase list).Valid := by
  intro other
  have hvalid := valid other
  simp only [replace, List.length_append, List.length_singleton]
  split <;> omega

theorem lists_replace (valid : s.Valid) :
    (s.replace phase list).lists = s.lists.set phase list := by
  refine HookLists.eq_of_get fun other => ?_
  rw [get_lists]
  by_cases hother : other = phase
  · subst hother
    rw [HookLists.get_set_self]
    simp only [replace, if_pos, read, List.getD_eq_getElem?_getD, List.getElem?_concat_length,
      Option.getD_some]
  · have hcurrent : (s.replace phase list).current other = s.current other := if_neg hother
    rw [HookLists.get_set_of_ne hother, get_lists, hcurrent, read_replace_of_lt (valid other)]

/-- An edit keeps all arrays, or adds one. -/
theorem edit_cases (s : HookArrays) (change : HookEdit) :
    (s.edit change).2 = s ∨ ∃ list, (s.edit change).2 = s.replace change.phase list := by
  cases change with
  | add phase hook =>
      unfold edit append
      dsimp only
      split
      · exact .inl rfl
      · exact .inr ⟨_, rfl⟩
  | remove phase hook =>
      unfold edit remove
      dsimp only
      split
      · exact .inl rfl
      · exact .inr ⟨_, rfl⟩

theorem valid_edit (valid : s.Valid) (change : HookEdit) : (s.edit change).2.Valid := by
  rcases edit_cases s change with hsame | ⟨list, hnew⟩
  · rw [hsame]
    exact valid
  · rw [hnew]
    exact valid_replace valid

/-- An edit of arrays is the edit of the lists behind them. -/
theorem edit_refines (valid : s.Valid) (change : HookEdit) :
    change.apply s.lists = ((s.edit change).1, (s.edit change).2.lists) := by
  cases change with
  | add phase hook =>
      have hiff : (decide (phase = .chain) && (s.read (s.current phase)).contains hook) = true ↔
          phase = .chain ∧ hook ∈ s.lists.chain := by
        rw [Bool.and_eq_true, decide_eq_true_eq, List.contains_iff_mem]
        refine and_congr_right fun hphase => ?_
        rw [hphase]
        rfl
      unfold edit append
      dsimp only
      rw [HookEdit.apply, HookLists.add]
      by_cases hpresent : phase = .chain ∧ hook ∈ s.lists.chain
      · rw [if_pos hpresent, if_pos (hiff.mpr hpresent)]
      · rw [if_neg hpresent, if_neg (mt hiff.mp hpresent), lists_replace valid, get_lists]
  | remove phase hook =>
      unfold edit remove
      dsimp only
      rw [HookEdit.apply, HookLists.remove, get_lists]
      rcases lastIndex?_cases hook (s.read (s.current phase)) with
        ⟨hnone, hmem⟩ | ⟨front, back, hlist, hlast, hsome⟩
      · rw [if_neg hmem, hnone]
      · have hmem : hook ∈ s.read (s.current phase) := by
          rw [hlist]
          exact List.mem_append_right _ List.mem_cons_self
        have herase : (front ++ hook :: back).eraseIdx front.length = front ++ back := by
          rw [List.eraseIdx_append_of_length_le (Nat.le_refl _), Nat.sub_self,
            List.eraseIdx_cons_zero]
        rw [if_pos hmem, hsome]
        dsimp only
        rw [lists_replace valid, hlist, herase, HookLists.removeLast_append_cons hlast]

theorem length_arrays_edit (s : HookArrays) (change : HookEdit) :
    s.arrays.length ≤ (s.edit change).2.arrays.length := by
  rcases edit_cases s change with hsame | ⟨list, hnew⟩
  · exact Nat.le_of_eq (congrArg (fun s => s.arrays.length) hsame.symm)
  · rw [hnew, replace, List.length_append]
    exact Nat.le_add_right ..

theorem read_edit_of_lt (h : pointer < s.arrays.length) (change : HookEdit) :
    (s.edit change).2.read pointer = s.read pointer := by
  rcases edit_cases s change with hsame | ⟨list, hnew⟩
  · rw [hsame]
  · rw [hnew, read_replace_of_lt h]

/-- What a pointer leads to once, it leads to for good. -/
theorem read_run (h : pointer < s.arrays.length) (changes : List HookEdit) :
    (run changes s).2.read pointer = s.read pointer := by
  induction changes generalizing s with
  | nil => rfl
  | cons change rest ih =>
      have hlater := ih (Nat.lt_of_lt_of_le h (length_arrays_edit s change))
      exact hlater.trans (read_edit_of_lt h change)

/-- A run over arrays is the run over the lists behind them. -/
theorem run_refines (valid : s.Valid) (changes : List HookEdit) :
    (run changes s).2.Valid ∧
      HookEdit.applyAll changes s.lists = ((run changes s).1, (run changes s).2.lists) := by
  induction changes generalizing s with
  | nil => exact ⟨valid, rfl⟩
  | cons change rest ih =>
      obtain ⟨hvalid, hrest⟩ := ih (valid_edit valid change)
      refine ⟨hvalid, ?_⟩
      rw [HookEdit.applyAll, edit_refines valid, hrest]
      rfl

/-- What is said of the lists of a detour behind a run of changes with these answers:
they are what the rules make of them, and a list that is taken now stays what it is. -/
structure Lawful (changes : List HookEdit) (answers : List Bool) (s : HookArrays) : Prop where
  rules : ∀ phase list, ListRun phase [] changes answers list ↔ list = s.lists.get phase
  unique : s.lists.chain.Nodup
  undone : ∀ phase hook s', s.edit (.add phase hook) = (true, s') →
    ∃ s'', s'.edit (.remove phase hook) = (true, s'') ∧ s''.lists = s.lists
  frozen : ∀ phase more, (run more s).2.read (s.current phase) = s.lists.get phase

/-- **Hook lists obey their rules over any run of changes**, the lists that calls go
by as well as the arrays that keep them. -/
theorem run_lawful (changes : List HookEdit) :
    Lawful changes (run changes empty).1 (run changes empty).2 ∧
      HookEdit.applyAll changes .empty = ((run changes empty).1, (run changes empty).2.lists) := by
  obtain ⟨valid, hrefines⟩ := run_refines valid_empty changes
  have hrun : ∀ phase, ListRun phase [] changes (run changes empty).1
      ((run changes empty).2.lists.get phase) := by
    intro phase
    have hrules := HookEdit.listRun_applyAll changes empty.lists phase
    rw [hrefines] at hrules
    cases phase <;> exact hrules
  refine ⟨⟨fun phase list => ⟨fun h => h.unique (hrun phase), ?_⟩, ?_, ?_, ?_⟩, hrefines⟩
  · rintro rfl
    exact hrun phase
  · exact (hrun .chain).nodup List.nodup_nil
  · intro phase hook s' hadd
    have hadded := edit_refines valid (.add phase hook)
    rw [hadd] at hadded
    have hvalid : s'.Valid := by
      have h := valid_edit valid (.add phase hook)
      rwa [hadd] at h
    have hremoved := HookEdit.apply_remove_of_added hadded
    rw [edit_refines hvalid] at hremoved
    exact ⟨_, Prod.ext (Prod.ext_iff.mp hremoved).1 rfl, (Prod.ext_iff.mp hremoved).2⟩
  · intro phase more
    rw [read_run (valid phase), get_lists]

/-- Of two registrations of a hook the first stays, and it stays where it was. -/
example :
    let changes := [.add .before "a", .add .before "b", .add .before "a", .remove .before "a"]
    (run changes empty).2.lists = ⟨["a", "b"], [], []⟩ := by
  decide

end HookArrays

end Reroute
