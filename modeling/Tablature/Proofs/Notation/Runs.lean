import Mathlib.Data.List.Chain
import Tablature.Proofs.Notation.Reading

/-!
# Runs of notation

A reading tells how each offset of a text is read. A run is a stretch that begins
and ends with notation and holds nothing that parts tokens; it ends where
something parts it from the next one. `Runs` lays the tokens and bar lines among
marks out as the runs and bar lines of a reading, in order and without a
remainder.
-/

namespace Tablature

/-! ## Kinds of characters -/

namespace Place

variable {p : Place}

theorem not_isNotation_of_isGap (h : p.isGap = true) : p.isNotation = false := by
  obtain ⟨c, role, chord, brace⟩ := p
  cases role with
  | quoted => simp [isGap] at h
  | comment => rfl
  | code =>
    simp only [isGap, Bool.and_eq_true, Bool.or_eq_true] at h
    simp [isNotation, isBarLine, h.1]
    intro hblank
    simpa [hblank] using h.2

theorem isGap_of_isBarLine (h : p.isBarLine = true) : p.isGap = true := by
  simp_all [isGap, isBarLine]

theorem isNotation_of_opensChord (h : p.opensChord = true) : p.isNotation = true := by
  simp only [opensChord, Bool.and_eq_true, beq_iff_eq] at h
  simp [isNotation, isBarLine, h.1.1, h.1.2, show isBlank '(' = false by decide]

end Place

/-! ## Stretches of a reading -/

section
variable (f : Nat → Option Place)

/-- A chord opens right behind the end of another, and no bracket is open between them. -/
def IsSeam (o : Nat) : Prop :=
  ∃ i, o = i + 1 ∧ (f i).any Place.closesChord = true ∧ (f o).any Place.opensChord = true

def Silent (lo hi : Nat) : Prop :=
  ∀ o, lo ≤ o → o < hi → (f o).any Place.isNotation = false ∧ (f o).any Place.isBarLine = false

def Padding (lo hi : Nat) : Prop :=
  ∀ o, lo ≤ o → o < hi → (f o).any Place.isNotation = false ∧ (f o).any Place.isGap = false

structure IsRun (start stop : Nat) : Prop where
  lt : start < stop
  first : (f start).any Place.isNotation = true
  last : (f (stop - 1)).any Place.isNotation = true
  whole : ∀ o, start ≤ o → o < stop → (f o).any Place.isGap = false
  seamless : ∀ o, start < o → o < stop → ¬ IsSeam f o

/-- A run cannot go on: something parts it from what follows, or no notation follows. -/
def Ended (stop : Nat) : Prop :=
  (f stop).any Place.isGap = true ∨ IsSeam f stop ∨ ∀ hi, Padding f stop hi

/-- Between two offsets the marks are the runs and the bar lines. -/
def Runs : (lo : Nat) → List Mark → (hi : Nat) → Prop
  | lo, [], hi => lo ≤ hi ∧ Silent f lo hi
  | lo, .bar :: ms, hi =>
    ∃ k, lo ≤ k ∧ Silent f lo k ∧ (f k).any Place.isBarLine = true ∧ Runs (k + 1) ms hi
  | lo, .token start stop :: ms, hi =>
    lo ≤ start ∧ Silent f lo start ∧ IsRun f start stop ∧ Ended f stop ∧ Runs stop ms hi

end

variable {f : Nat → Option Place}

theorem not_notation_of_gap {o : Nat} (h : (f o).any Place.isGap = true) :
    (f o).any Place.isNotation = false := by
  cases hp : f o with
  | none => rfl
  | some p => rw [hp] at h; exact Place.not_isNotation_of_isGap h

theorem gap_of_barLine {o : Nat} (h : (f o).any Place.isBarLine = true) :
    (f o).any Place.isGap = true := by
  cases hp : f o with
  | none => rw [hp] at h; cases h
  | some p => rw [hp] at h; exact Place.isGap_of_isBarLine h

theorem IsSeam.isNotation {o : Nat} (h : IsSeam f o) : (f o).any Place.isNotation = true := by
  obtain ⟨i, -, -, hopen⟩ := h
  cases hp : f o with
  | none => rw [hp] at hopen; cases hopen
  | some p => rw [hp] at hopen; exact Place.isNotation_of_opensChord hopen

theorem Silent.refl (o : Nat) : Silent f o o := by
  intro _ hlo hhi
  omega

theorem Silent.append {lo mid hi : Nat} (h : Silent f lo mid) (h' : Silent f mid hi) :
    Silent f lo hi := by
  intro o hlo hhi
  rcases Nat.lt_or_ge o mid with hmid | hmid
  · exact h o hlo hmid
  · exact h' o hmid hhi

theorem Padding.append {lo mid hi : Nat} (h : Padding f lo mid) (h' : Padding f mid hi) :
    Padding f lo hi := by
  intro o hlo hhi
  rcases Nat.lt_or_ge o mid with hmid | hmid
  · exact h o hlo hmid
  · exact h' o hmid hhi

theorem Padding.silent {lo hi : Nat} (h : Padding f lo hi) : Silent f lo hi := by
  intro o hlo hhi
  obtain ⟨hnone, hgap⟩ := h o hlo hhi
  refine ⟨hnone, Bool.eq_false_iff.mpr fun hbar => ?_⟩
  rw [gap_of_barLine hbar] at hgap
  cases hgap

/-- Two runs with padding between them are one, unless they meet at a seam. -/
theorem IsRun.append {start mid i stop : Nat} (h : IsRun f start mid) (hle : mid ≤ i)
    (hpad : Padding f mid i) (h' : IsRun f i stop) (hseam : ¬ IsSeam f i) :
    IsRun f start stop where
  lt := Nat.lt_of_lt_of_le h.lt (Nat.le_trans hle (Nat.le_of_lt h'.lt))
  first := h.first
  last := h'.last
  whole := by
    intro o hstart hstop
    rcases Nat.lt_or_ge o mid with hmid | hmid
    · exact h.whole o hstart hmid
    · rcases Nat.lt_or_ge o i with hi | hi
      · exact (hpad o hmid hi).2
      · exact h'.whole o hi hstop
  seamless := by
    intro o hstart hstop hs
    rcases Nat.lt_or_ge o mid with hmid | hmid
    · exact h.seamless o hstart hmid hs
    · rcases Nat.lt_trichotomy o i with hi | rfl | hi
      · have := (hpad o hmid hi).1
        simp [hs.isNotation] at this
      · exact hseam hs
      · exact h'.seamless o hi hstop hs

/-! ## Laying out marks -/

namespace Runs

variable {ms ms' : List Mark} {lo mid hi : Nat}

theorem le (h : Runs f lo ms hi) : lo ≤ hi := by
  induction ms generalizing lo with
  | nil => exact h.1
  | cons m ms ih =>
    cases m with
    | bar =>
      obtain ⟨k, hk, -, -, h⟩ := h
      have := ih h
      omega
    | token start stop =>
      obtain ⟨hstart, -, hrun, -, h⟩ := h
      have := hrun.lt
      have := ih h
      omega

theorem from_front (hlo : lo ≤ mid) (hs : Silent f lo mid) (h : Runs f mid ms hi) :
    Runs f lo ms hi := by
  cases ms with
  | nil => exact ⟨Nat.le_trans hlo h.1, hs.append h.2⟩
  | cons m ms =>
    cases m with
    | bar =>
      obtain ⟨k, hk, hsk, hbar, h⟩ := h
      exact ⟨k, Nat.le_trans hlo hk, hs.append hsk, hbar, h⟩
    | token start stop =>
      obtain ⟨hstart, hss, h⟩ := h
      exact ⟨Nat.le_trans hlo hstart, hs.append hss, h⟩

theorem append (h : Runs f lo ms mid) (h' : Runs f mid ms' hi) : Runs f lo (ms ++ ms') hi := by
  induction ms generalizing lo with
  | nil => exact h'.from_front h.1 h.2
  | cons m ms ih =>
    cases m with
    | bar =>
      obtain ⟨k, hk, hsk, hbar, h⟩ := h
      exact ⟨k, hk, hsk, hbar, ih h⟩
    | token start stop =>
      obtain ⟨hstart, hss, hrun, hend, h⟩ := h
      exact ⟨hstart, hss, hrun, hend, ih h⟩

end Runs

/-! ## Runs as spans -/

def tokenSpans (ms : List Mark) : List (Nat × Nat) :=
  ms.filterMap fun
    | .token start stop => some (start, stop)
    | .bar => none

@[simp] theorem tokenSpans_bar (ms : List Mark) : tokenSpans (.bar :: ms) = tokenSpans ms := rfl

@[simp] theorem tokenSpans_token (start stop : Nat) (ms : List Mark) :
    tokenSpans (.token start stop :: ms) = (start, stop) :: tokenSpans ms := rfl

def Parted (f : Nat → Option Place) (t u : Nat × Nat) : Prop :=
  t.2 ≤ u.1 ∧
    ((∃ o, t.2 ≤ o ∧ o < u.1 ∧ (f o).any Place.isGap = true) ∨ t.2 = u.1 ∧ IsSeam f u.1)

namespace Runs

variable {ms : List Mark} {lo hi : Nat}

theorem isRun (h : Runs f lo ms hi) {t : Nat × Nat} (ht : t ∈ tokenSpans ms) :
    lo ≤ t.1 ∧ IsRun f t.1 t.2 := by
  induction ms generalizing lo with
  | nil => cases ht
  | cons m ms ih =>
    cases m with
    | bar =>
      obtain ⟨k, hk, -, -, h⟩ := h
      obtain ⟨hle, hrun⟩ := ih h ht
      exact ⟨by omega, hrun⟩
    | token start stop =>
      obtain ⟨hstart, -, hrun, -, h⟩ := h
      rcases List.mem_cons.mp ht with rfl | ht
      · exact ⟨hstart, hrun⟩
      · obtain ⟨hle, hrun'⟩ := ih h ht
        have := hrun.lt
        exact ⟨by omega, hrun'⟩

theorem covered (h : Runs f lo ms hi) {o : Nat} (hlo : lo ≤ o) (hhi : o < hi)
    (ho : (f o).any Place.isNotation = true) :
    (tokenSpans ms).countP (fun t => t.1 ≤ o ∧ o < t.2) = 1 := by
  induction ms generalizing lo with
  | nil => simp [(h.2 o hlo hhi).1] at ho
  | cons m ms ih =>
    cases m with
    | bar =>
      obtain ⟨k, hk, hs, hbar, h⟩ := h
      have hko : k < o := by
        rcases Nat.lt_trichotomy o k with hlt | rfl | hgt
        · simp [(hs o hlo hlt).1] at ho
        · simp [not_notation_of_gap (gap_of_barLine hbar)] at ho
        · exact hgt
      exact ih h hko
    | token start stop =>
      obtain ⟨hstart, hs, hrun, -, h⟩ := h
      have hso : start ≤ o := by
        refine Nat.not_lt.mp fun hlt => ?_
        simp [(hs o hlo hlt).1] at ho
      rw [tokenSpans_token]
      rcases Nat.lt_or_ge o stop with hlt | hge
      · have hrest : (tokenSpans ms).countP (fun t => t.1 ≤ o ∧ o < t.2) = 0 := by
          rw [List.countP_eq_zero]
          intro t ht
          have := (h.isRun ht).1
          simp only [decide_eq_true_eq]
          omega
        rw [List.countP_cons_of_pos (by simp [hso, hlt]), hrest]
      · rw [List.countP_cons_of_neg (by simp; omega), ih h hge]

theorem front (h : Runs f lo ms hi) {u : Nat × Nat} (hu : (tokenSpans ms).head? = some u) :
    ∀ o, lo ≤ o → o < u.1 → (f o).any Place.isNotation = false := by
  induction ms generalizing lo with
  | nil => cases hu
  | cons m ms ih =>
    intro o hlo hou
    cases m with
    | bar =>
      obtain ⟨k, hk, hs, hbar, h⟩ := h
      rcases Nat.lt_trichotomy o k with hlt | rfl | hgt
      · exact (hs o hlo hlt).1
      · exact not_notation_of_gap (gap_of_barLine hbar)
      · exact ih h hu o hgt hou
    | token start stop =>
      obtain ⟨-, hs, -⟩ := h
      cases hu
      exact (hs o hlo hou).1

theorem parted (h : Runs f lo ms hi) : (tokenSpans ms).IsChain (Parted f) := by
  induction ms generalizing lo with
  | nil => exact .nil
  | cons m ms ih =>
    cases m with
    | bar =>
      obtain ⟨k, -, -, -, h⟩ := h
      exact ih h
    | token start stop =>
      obtain ⟨-, -, hrun, hend, h⟩ := h
      rw [tokenSpans_token, List.isChain_cons]
      refine ⟨fun u hu => ?_, ih h⟩
      obtain ⟨hle, hu'⟩ := h.isRun (List.mem_of_mem_head? hu)
      refine ⟨hle, ?_⟩
      rcases hend with hgap | hseam | hpad
      · have hne : stop ≠ u.1 := by
          rintro rfl
          have := hu'.first
          simp [not_notation_of_gap hgap] at this
        exact .inl ⟨stop, Nat.le_refl stop, by omega, hgap⟩
      · have heq : stop = u.1 := by
          refine Nat.le_antisymm hle (Nat.not_lt.mp fun hlt => ?_)
          have := h.front hu stop (Nat.le_refl stop) hlt
          simp [hseam.isNotation] at this
        exact .inr ⟨heq, heq ▸ hseam⟩
      · -- a second token would be notation behind the last run
        have := (hpad (u.1 + 1) u.1 hle (Nat.lt_succ_self _)).1
        simp [hu'.first] at this

end Runs

end Tablature
