import Tablature.Proofs.Highlight.Positions

/-!
# Changes in any order

A list of changes makes a change set when each change fits into the text and any
two are apart, in whatever order they are given: if any order of the list will
do, the sorted one does.
-/

namespace Tablature

namespace TextChange

def InText (c : TextChange) (oldLength : Int) : Prop :=
  0 ≤ c.start ∧ c.start ≤ c.stop ∧ c.stop ≤ oldLength ∧ 0 ≤ c.inserted

/-- One of the two ends before the other one starts. -/
def Apart (c d : TextChange) : Prop := c.stop ≤ d.start ∨ d.stop ≤ c.start

theorem Apart.symm {c d : TextChange} (h : c.Apart d) : d.Apart c := Or.symm h

theorem before_iff {c d : TextChange} :
    c.before d = true ↔ c.start < d.start ∨ c.start = d.start ∧ c.stop ≤ d.stop := by
  simp [before]

theorem before_trans (c d e : TextChange) (h : c.before d = true) (h' : d.before e = true) :
    c.before e = true := by
  rw [before_iff] at h h' ⊢
  omega

theorem before_total (c d : TextChange) : (c.before d || d.before c) = true := by
  rw [Bool.or_eq_true, before_iff, before_iff]
  omega

/-- Of two changes that are apart, the one that may stand first ends first: where they meet in one
point, the other way round is open only to two insertions. -/
theorem Apart.stop_le {c d : TextChange} (h : c.Apart d) (hd : d.start ≤ d.stop)
    (hcd : c.before d = true) : c.stop ≤ d.start := by
  rw [before_iff] at hcd
  rcases h with h | h <;> omega

end TextChange

structure Compatible (oldLength : Int) (changes : List TextChange) : Prop where
  inText : ∀ c ∈ changes, c.InText oldLength
  apart : changes.Pairwise TextChange.Apart

section
variable {oldLength : Int} {changes ordering : List TextChange}

theorem Compatible.perm (h : Compatible oldLength changes) (hperm : changes.Perm ordering) :
    Compatible oldLength ordering where
  inText c hc := h.inText c (hperm.mem_iff.mpr hc)
  apart := (hperm.pairwise_iff TextChange.Apart.symm).mp h.apart

/-! ## Compatible changes in order -/

theorem Fits.pairwise {behind : Int} (h : Fits oldLength behind changes) :
    changes.Pairwise fun c d => c.stop ≤ d.start := by
  induction changes generalizing behind with
  | nil => exact .nil
  | cons c cs ih =>
    obtain ⟨-, -, -, -, hrest⟩ := h
    exact .cons (fun d hd => (hrest.of_mem hd).1) (ih hrest)

theorem Fits.compatible (h : Fits oldLength 0 changes) : Compatible oldLength changes where
  inText _ hc := h.of_mem hc
  apart := h.pairwise.imp Or.inl

theorem fits_of_pairwise {behind : Int} (hbehind : ∀ c ∈ changes, behind ≤ c.start)
    (hin : ∀ c ∈ changes, c.InText oldLength)
    (h : changes.Pairwise fun c d => c.stop ≤ d.start) : Fits oldLength behind changes := by
  induction changes generalizing behind with
  | nil => trivial
  | cons c cs ih =>
    obtain ⟨hfirst, hrest⟩ := List.pairwise_cons.mp h
    obtain ⟨-, hrun, hstop, hinserted⟩ := hin c (List.mem_cons_self ..)
    have hcs := ih hfirst (fun d hd => hin d (List.mem_cons_of_mem _ hd)) hrest
    exact ⟨hbehind c (List.mem_cons_self ..), hrun, hstop, hinserted, hcs⟩

theorem Compatible.fits_mergeSort (h : Compatible oldLength changes) :
    Fits oldLength 0 (changes.mergeSort TextChange.before) := by
  have hsorted := List.pairwise_mergeSort TextChange.before_trans TextChange.before_total changes
  have h' := h.perm (List.mergeSort_perm changes TextChange.before).symm
  refine fits_of_pairwise (fun c hc => (h'.inText c hc).1) h'.inText ?_
  refine (h'.apart.and hsorted).imp_of_mem fun {c d} _ hd hcd => ?_
  exact hcd.1.stop_le (h'.inText d hd).2.1 hcd.2

end

/-! ## What is accepted -/

def ChangeSetError.change : ChangeSetError → TextChange
  | .misplaced c => c
  | .unfit c _ => c

theorem change_mem_of_firstFault? {oldLength behind : Int} {changes : List TextChange}
    {e : ChangeSetError} (h : firstFault? oldLength behind changes = some e) :
    e.change ∈ changes := by
  induction changes generalizing behind with
  | nil => cases h
  | cons c cs ih =>
    unfold firstFault? at h
    split at h
    · cases h
      exact List.mem_cons_self ..
    · split at h
      · cases h
        exact List.mem_cons_self ..
      · exact List.mem_cons_of_mem _ (ih h)

namespace ChangeSet

variable (oldLength : Int) (changes : List TextChange)

theorem ofOrdered_cases :
    (∃ cs, ofOrdered oldLength changes = .ok cs) ∧ Fits oldLength 0 changes ∨
      ∃ e, ofOrdered oldLength changes = .error e ∧ e.change ∈ changes ∧
        ¬ Fits oldLength 0 changes := by
  unfold ofOrdered
  split
  · rename_i h
    exact .inl ⟨⟨_, rfl⟩, firstFault?_eq_none_iff.mp h⟩
  · rename_i e h
    refine .inr ⟨e, rfl, change_mem_of_firstFault? h, fun hfits => ?_⟩
    rw [firstFault?_eq_none_iff.mpr hfits] at h
    cases h

theorem ofOrdered_isOk_iff :
    (∃ cs, ofOrdered oldLength changes = .ok cs) ↔ Fits oldLength 0 changes := by
  rcases ofOrdered_cases oldLength changes with ⟨hok, hfits⟩ | ⟨e, he, -, hfits⟩
  · exact iff_of_true hok hfits
  · exact iff_of_false (fun ⟨cs, hcs⟩ => by rw [he] at hcs; cases hcs) hfits

theorem fits_mergeSort_iff :
    Fits oldLength 0 (changes.mergeSort TextChange.before) ↔ Compatible oldLength changes :=
  ⟨fun h => h.compatible.perm (List.mergeSort_perm ..), fun h => h.fits_mergeSort⟩

/-- Changes given in any order are accepted when they can be made together, which is when some order
of them is accepted as it stands. The error names one of the changes otherwise. -/
theorem ofList_accepts_iff :
    ((∃ cs, ofList oldLength changes = .ok cs) ↔ Compatible oldLength changes) ∧
    ((∃ cs, ofList oldLength changes = .ok cs) ↔
      ∃ ordering : List TextChange, ordering.Perm changes ∧
        ∃ cs, ofOrdered oldLength ordering = .ok cs) ∧
    ((∃ e, ofList oldLength changes = .error e ∧ e.change ∈ changes) ↔
      ¬ Compatible oldLength changes) := by
  have haccepts : (∃ cs, ofList oldLength changes = .ok cs) ↔ Compatible oldLength changes :=
    (ofOrdered_isOk_iff oldLength _).trans (fits_mergeSort_iff oldLength changes)
  refine ⟨haccepts, ?_, ?_⟩
  · constructor
    · exact fun h => ⟨_, List.mergeSort_perm .., h⟩
    · rintro ⟨ordering, hperm, h⟩
      have hfits := (ofOrdered_isOk_iff oldLength ordering).mp h
      exact haccepts.mpr (hfits.compatible.perm hperm)
  · rw [← haccepts]
    constructor
    · rintro ⟨e, he, -⟩ ⟨cs, hcs⟩
      rw [he] at hcs
      cases hcs
    · intro h
      rcases ofOrdered_cases oldLength (changes.mergeSort TextChange.before) with
        ⟨hok, -⟩ | ⟨e, he, hmem, -⟩
      · exact absurd hok h
      · exact ⟨e, he, List.mem_mergeSort.mp hmem⟩

end ChangeSet

end Tablature
