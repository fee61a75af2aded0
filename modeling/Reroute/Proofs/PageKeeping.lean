import Reroute.Patch
import Reroute.Proofs.PageMapping
/-!
# Protection that goes back

A guard opens every page of its range and no other (`Pages.Protected`). What it
puts back is one protection, that of the page of the first byte, so a page has
its old protection again if that is the one it had (`PageGuard.Restores`). Of the
ranges that are not empty, those with one protection on all their pages are therefore
the ones that are left as they were (`putsBack_iff_uniform`), and so are the pages
under any list of patches whose sites lie in such ranges: behind each patch the pages
are the ones before it, which carries the induction on the list. All this is in
`protection_goes_back`.
-/

namespace Reroute

namespace Pages

variable {p p' : Pages} {address : UInt64} {length : Nat} {protection : Protection}

theorem ext_protection? (h : ∀ page, p.protection? page = p'.protection? page) : p = p' :=
  congrArg Pages.mk (funext h)

theorem overlaps_first (hpos : 0 < length) : Overlaps address length (pageOf address) :=
  ⟨0, hpos, by simp⟩

/-! ## What a change of protection does -/

/-- The pages of a range have got a protection, and no other page has changed. -/
structure Protected (p : Pages) (address : UInt64) (length : Nat) (protection : Protection)
    (p' : Pages) : Prop where
  inside : ∀ page, Overlaps address length page → p'.protection? page = some protection
  outside : ∀ page, ¬ Overlaps address length page → p'.protection? page = p.protection? page

theorem Protected.mapped (h : p.Protected address length protection p')
    (hmapped : p.Mapped address length) : p'.Mapped address length := by
  refine mapped_iff_overlaps.mpr ⟨hmapped.fits, fun page hpage => ?_⟩
  rw [h.inside page hpage]
  rfl

theorem protection?_of_change (first count : Nat)
    (h : change protection first count p = (.ok (), p')) (page : Nat) :
    p'.protection? page =
      if first ≤ page ∧ page < first + count then some protection else p.protection? page := by
  induction count generalizing p first with
  | zero =>
      cases h
      rw [if_neg (by omega)]
  | succ count ih =>
      simp only [change] at h
      split at h
      · rw [ih _ h, protection?_set]
        by_cases hpage : page = first
        · rw [if_neg (by omega), if_pos hpage, if_pos (by omega)]
        · have hiff : (first + 1 ≤ page ∧ page < first + 1 + count) ↔
              (first ≤ page ∧ page < first + (count + 1)) := by omega
          simp only [hiff, if_neg hpage]
      · cases h

theorem protected_of_protect (h : p.protect address length protection = (.ok (), p')) :
    p.Protected address (max length 1) protection p' := by
  unfold protect at h
  split at h
  · rename_i first behind hrange
    obtain ⟨hfits, hpages⟩ := range_eq_ok_iff.mp hrange
    cases hpages
    have hchange := protection?_of_change _ _ h
    rw [Nat.add_sub_cancel' (pageOf_le_behind ..)] at hchange
    refine ⟨fun page hpage => ?_, fun page hpage => ?_⟩
    · rw [hchange, if_pos ((overlaps_iff (by omega) hfits).mp hpage)]
    · rw [hchange, if_neg (mt (overlaps_iff (by omega) hfits).mpr hpage)]
  · cases h

/-- A range without a page range is refused before any page is touched. -/
theorem protect_of_not_fits
    (h : ¬ address.toNat + max length 1 + (pageSize - 1) < UInt64.size) :
    (p.protect address length protection).2 = p := by
  unfold protect
  split
  · rename_i hrange
    exact absurd (range_eq_ok_iff.mp hrange).1 h
  · rfl

/-- All pages of a range are mapped, with one protection. -/
def Uniform (p : Pages) (address : UInt64) (length : Nat) : Prop :=
  ∃ protection, ∀ page, Overlaps address length page → p.protection? page = some protection

theorem uniform_iff_bytes : p.Uniform address length ↔
    ∃ protection, ∀ i, i < length →
      p.protection? (pageOf (address + UInt64.ofNat i)) = some protection := by
  simp only [Uniform, forall_overlaps_iff]

theorem Uniform.mapped (h : p.Uniform address length)
    (hfits : address.toNat + length + (pageSize - 1) < UInt64.size) : p.Mapped address length := by
  obtain ⟨protection, hpages⟩ := h
  refine mapped_iff_overlaps.mpr ⟨hfits, fun page hpage => ?_⟩
  rw [hpages page hpage]
  rfl

end Pages

namespace PageGuard

open Pages

variable {p p' : Pages} {address : UInt64} {length : Nat} {pageGuard : PageGuard}

theorem unprotect_eq_ok_iff {restore : Bool} :
    unprotect address length restore p = (.ok pageGuard, p') ↔
      p.protect address length .all = (.ok (), p') ∧
        pageGuard = ⟨address, length, if restore then some (p.current address) else none⟩ := by
  unfold unprotect
  rcases p.protect address length .all with ⟨answer, changed⟩
  cases answer with
  | ok _ =>
      constructor
      · intro hok
        cases hok
        exact ⟨rfl, rfl⟩
      · rintro ⟨hok, rfl⟩
        cases hok
        rfl
  | error error =>
      constructor
      · intro hok
        cases hok
      · rintro ⟨hok, -⟩
        cases hok

theorem unprotect_snd {restore : Bool} :
    (unprotect address length restore p).2 = (p.protect address length .all).2 := by
  unfold unprotect
  rcases p.protect address length .all with ⟨_ | _, changed⟩ <;> rfl

/-- What a guard that restores promises about any range. -/
structure Restores (p : Pages) (address : UInt64) (length : Nat) : Prop where
  succeeds_iff : (∃ pageGuard p', unprotect address length true p = (.ok pageGuard, p')) ↔
    p.Mapped address (max length 1)
  /-- An empty range counts as the byte at its address. -/
  opened : ∀ pageGuard p', unprotect address length true p = (.ok pageGuard, p') →
    p.Protected address (max length 1) .all p'
  restored : ∀ pageGuard p', unprotect address length true p = (.ok pageGuard, p') →
    ∀ page, (Overlaps address (max length 1) page →
        p.protection? page = p.protection? (pageOf address)) →
      (pageGuard.release p').protection? page = p.protection? page

theorem protected_release (h : unprotect address length true p = (.ok pageGuard, p')) :
    p'.Protected address (max length 1) (p.current address) (pageGuard.release p') := by
  have hmapped := (unprotect_ok_iff p address length true).mp ⟨_, _, h⟩
  obtain ⟨hprotect, rfl⟩ := unprotect_eq_ok_iff.mp h
  have hopen := protected_of_protect hprotect
  obtain ⟨p'', hback⟩ := (p'.protect_ok_iff address length (p.current address)).mpr
    (hopen.mapped hmapped)
  have hrelease : release ⟨address, length, some (p.current address)⟩ p' = p'' :=
    congrArg Prod.snd hback
  exact hrelease ▸ protected_of_protect hback

theorem current_of_unprotect {restore : Bool}
    (h : unprotect address length restore p = (.ok pageGuard, p')) :
    some (p.current address) = p.protection? (pageOf address) := by
  have hmapped := (unprotect_ok_iff p address length restore).mp ⟨_, _, h⟩
  have hfirst := (mapped_iff_overlaps.mp hmapped).2 _ (overlaps_first (by omega))
  obtain ⟨protection, hprotection⟩ := Option.isSome_iff_exists.mp hfirst
  rw [current, hprotection]
  rfl

theorem restores (p : Pages) (address : UInt64) (length : Nat) : Restores p address length := by
  constructor
  case succeeds_iff => exact unprotect_ok_iff p address length true
  case opened =>
    intro pageGuard p' h
    exact protected_of_protect (unprotect_eq_ok_iff.mp h).1
  case restored =>
    intro pageGuard p' h page hsame
    have hopen := protected_of_protect (unprotect_eq_ok_iff.mp h).1
    have hback := protected_release h
    by_cases hpage : Overlaps address (max length 1) page
    · rw [hback.inside page hpage, hsame hpage]
      exact current_of_unprotect h
    · rw [hback.outside page hpage, hopen.outside page hpage]

theorem release_eq_of_uniform (hpos : 0 < length) (huniform : p.Uniform address length)
    (h : unprotect address length true p = (.ok pageGuard, p')) : pageGuard.release p' = p := by
  obtain ⟨protection, hpages⟩ := huniform
  have hlength : max length 1 = length := by omega
  refine ext_protection? fun page => (restores p address length).restored _ _ h page ?_
  intro hpage
  rw [hlength] at hpage
  rw [hpages page hpage, hpages _ (overlaps_first hpos)]

/-- A guard opens the pages of its range and no others, and every page gets the
protection back that it had. -/
def PutsBack (p : Pages) (address : UInt64) (length : Nat) : Prop :=
  p.Mapped address length → ∀ pageGuard p', unprotect address length true p = (.ok pageGuard, p') →
    p.Protected address length .all p' ∧
      ∀ page, (pageGuard.release p').protection? page = p.protection? page

/-- A range that is not empty gets back what it had exactly if that was one protection. -/
theorem putsBack_iff_uniform (hpos : 0 < length) (hmapped : p.Mapped address length) :
    PutsBack p address length ↔ p.Uniform address length := by
  have hlength : max length 1 = length := by omega
  have hrestores := restores p address length
  rw [PutsBack, forall_prop_of_true hmapped]
  constructor
  · intro hputs
    obtain ⟨pageGuard, p', h⟩ := hrestores.succeeds_iff.mpr (hlength.symm ▸ hmapped)
    have hback := protected_release h
    rw [hlength] at hback
    refine ⟨p.current address, fun page hpage => ?_⟩
    rw [← (hputs _ _ h).2 page, hback.inside page hpage]
  · intro huniform pageGuard p' h
    have hopen := hrestores.opened _ _ h
    rw [hlength] at hopen
    refine ⟨hopen, fun page => ?_⟩
    rw [release_eq_of_uniform hpos huniform h]

theorem eq_of_unprotect_error {restore : Bool} {error : Error} (hpos : 0 < length)
    (huniform : p.Uniform address length)
    (h : unprotect address length restore p = (.error error, p')) : p' = p := by
  have hlength : max length 1 = length := by omega
  -- all pages are mapped, so only the end of the range can be what is refused
  by_cases hfits : address.toNat + length + (pageSize - 1) < UInt64.size
  · obtain ⟨pageGuard, after, hok⟩ := (unprotect_ok_iff p address length restore).mpr
      (hlength.symm ▸ huniform.mapped hfits)
    rw [h] at hok
    cases hok
  · rw [← hlength] at hfits
    have hsame : (unprotect address length restore p).2 = p :=
      unprotect_snd.trans (protect_of_not_fits hfits)
    rwa [h] at hsame

end PageGuard

/-! ## One patch after the other -/

/-- A patch with everything it is given. -/
structure Redirection where
  redirector : Redirector
  target : UInt64
  replacement : UInt64
  options : PatchOptions

namespace Redirection

def run (d : Redirection) (s : AddressSpace) : AddressSpace :=
  (Patch.run d.redirector d.target d.replacement d.options s).2

/-- The address and the length of the range that a patch opens. There is none if
there is no jump of at least two bytes. -/
def range? (d : Redirection) (s : AddressSpace) : Option (UInt64 × Nat) :=
  let site := Patch.site d.redirector d.options s.memory d.target
  match d.redirector.jump site d.replacement with
  | .error _ => none
  | .ok jump => if jump.length < 2 then none else some (site, jump.length)

def runAll : List Redirection → AddressSpace → AddressSpace
  | [], s => s
  | d :: ds, s => runAll ds (d.run s)

/-- The ranges that the patches of a list open, each behind the ones before it. -/
def ranges : List Redirection → AddressSpace → List (UInt64 × Nat)
  | [], _ => []
  | d :: ds, s => (d.range? s).toList ++ ranges ds (d.run s)

theorem pages_run {d : Redirection} {s : AddressSpace}
    (hrestore : d.options.restoreProtection = true)
    (huniform : ∀ range ∈ (d.range? s).toList, s.pages.Uniform range.1 range.2) :
    (d.run s).pages = s.pages := by
  unfold range? at huniform
  unfold run Patch.run Patch.course
  simp only [hrestore] at huniform ⊢
  split
  · rfl
  · rename_i jump hjump
    split
    · rfl
    · rename_i hlong
      simp only [hjump, if_neg hlong] at huniform
      have hrange := huniform _ (List.mem_singleton_self _)
      split
      · rename_i h
        exact PageGuard.eq_of_unprotect_error (by omega) hrange h
      · rename_i h
        exact PageGuard.release_eq_of_uniform (by omega) hrange h

theorem pages_runAll {ds : List Redirection} {s : AddressSpace}
    (hrestore : ∀ d ∈ ds, d.options.restoreProtection = true)
    (huniform : ∀ range ∈ ranges ds s, s.pages.Uniform range.1 range.2) :
    (runAll ds s).pages = s.pages := by
  induction ds generalizing s with
  | nil => rfl
  | cons d ds ih =>
      have hrun : (d.run s).pages = s.pages :=
        pages_run (hrestore d List.mem_cons_self) fun range h =>
          huniform range (List.mem_append_left _ h)
      rw [runAll, ih (fun d h => hrestore d (List.mem_cons_of_mem _ h)), hrun]
      intro range h
      rw [hrun]
      exact huniform range (List.mem_append_right _ h)

end Redirection

namespace PageGuard

/-- A guard opens the pages of its range and gives back the protection of the
first of them, so that all is put back exactly if they have one protection; patches
whose ranges have one protection each leave all pages as they were. -/
theorem protection_goes_back (p : Pages) (address : UInt64) (length : Nat)
    (ds : List Redirection) (s : AddressSpace) :
    Restores p address length ∧
    (0 < length → p.Mapped address length →
      (PutsBack p address length ↔ p.Uniform address length)) ∧
    ((∀ d ∈ ds, d.options.restoreProtection = true) →
      (∀ range ∈ Redirection.ranges ds s, s.pages.Uniform range.1 range.2) →
      (Redirection.runAll ds s).pages = s.pages) :=
  ⟨restores p address length, putsBack_iff_uniform, Redirection.pages_runAll⟩

/-- Two pages of code, one behind the other. -/
def codePages : Pages := Pages.none.setMany 16 .code 2

/-- Two patches, the first of them of an entry point in both pages. -/
def acrossAndBehind : List Redirection :=
  [⟨.x64, 0x10FFC, 0x2000, .literal⟩, ⟨.x64, 0x10004, 0x3000, .literal⟩]

theorem protection_goes_back_codePages :
    (∃ pageGuard p', unprotect 0x10FFC 12 true codePages = (.ok pageGuard, p') ∧
      p'.protection? 17 = some .all ∧ p'.protection? 18 = none ∧
      (pageGuard.release p').protection? 17 = some .code) ∧
    PutsBack codePages 0x10FFC 12 ∧
    (Redirection.runAll acrossAndBehind ⟨.zero, codePages, 0⟩).pages = codePages := by
  obtain ⟨hrestores, hputs, hpatches⟩ :=
    protection_goes_back codePages 0x10FFC 12 acrossAndBehind ⟨.zero, codePages, 0⟩
  have hcode : codePages.protection? 17 = some .code := by decide
  have hoverlaps : Pages.Overlaps 0x10FFC (max 12 1) 17 := ⟨4, by decide, by decide⟩
  have hbehind : ¬ Pages.Overlaps 0x10FFC (max 12 1) 18 := by
    rintro ⟨i, hi, h⟩
    revert i
    decide
  have hmapped : codePages.Mapped 0x10FFC 12 := ⟨by decide, by decide⟩
  have hcross : codePages.Uniform 0x10FFC 12 := Pages.uniform_iff_bytes.mpr ⟨.code, by decide⟩
  have hfirst : codePages.Uniform 0x10004 12 := Pages.uniform_iff_bytes.mpr ⟨.code, by decide⟩
  refine ⟨?_, (hputs (by decide) hmapped).mpr hcross, hpatches (by decide) ?_⟩
  · obtain ⟨pageGuard, p', h⟩ := hrestores.succeeds_iff.mpr hmapped
    have hopen := hrestores.opened _ _ h
    have hback := hrestores.restored _ _ h 17 (fun _ => by decide)
    exact ⟨pageGuard, p', h, hopen.inside 17 hoverlaps, hopen.outside 18 hbehind,
      hback.trans hcode⟩
  · have hranges : Redirection.ranges acrossAndBehind ⟨.zero, codePages, 0⟩ =
        [(0x10FFC, 12), (0x10004, 12)] := rfl
    rw [hranges]
    simp [hcross, hfirst]

/-- A page of code, and a page of data behind it that must not be executed. -/
def codeBesideData : Pages := (Pages.none.set 16 .code).set 17 ⟨true, true, false⟩

/-- An empty range has no page, but one is opened. A range over two protections,
and a patch of an entry point there, leave the first of them on both pages. -/
theorem not_putsBack :
    ¬ PutsBack codeBesideData 0x10000 0 ∧ ¬ PutsBack codeBesideData 0x10FFC 12 ∧
      (Redirection.runAll [⟨.x64, 0x10FFC, 0x2000, .literal⟩]
          ⟨.zero, codeBesideData, 0⟩).pages.protection? 17 ≠ codeBesideData.protection? 17 := by
  refine ⟨fun h => ?_, fun h => ?_, by decide⟩
  · obtain ⟨pageGuard, p', hok⟩ :=
      (restores codeBesideData 0x10000 0).succeeds_iff.mpr ⟨by decide, by decide⟩
    have hopen := (restores codeBesideData 0x10000 0).opened _ _ hok
    have hempty : ¬ Pages.Overlaps 0x10000 0 16 := by
      rintro ⟨i, hi, -⟩
      exact Nat.not_lt_zero i hi
    have hsame := (h ⟨by decide, by decide⟩ _ _ hok).1.outside 16 hempty
    rw [hopen.inside 16 ⟨0, by decide, by decide⟩] at hsame
    exact absurd hsame (by decide)
  · obtain ⟨pageGuard, p', hok⟩ :=
      (restores codeBesideData 0x10FFC 12).succeeds_iff.mpr ⟨by decide, by decide⟩
    have hsame := (h ⟨by decide, by decide⟩ _ _ hok).2 17
    rw [(protected_release hok).inside 17 ⟨4, by decide, by decide⟩] at hsame
    exact absurd hsame (by decide)

end PageGuard

end Reroute
