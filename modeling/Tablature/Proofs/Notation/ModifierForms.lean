import Mathlib.Data.List.TakeWhile
import Tablature.Notation.Modifier

/-!
# How modifiers are written

An annotation is a pair of braces without braces between them. A duration is a
colon and a numeral, perhaps with a dot and an annotation; one that is glued to a
beat has a note value as its numeral. What is left of a token behind a glued
duration may again be a modifier, if the token is one modifier behind another.
-/

namespace Tablature

def isBrace (c : Char) : Bool := c == '{' || c == '}'

def Annotation (cs : List Char) : Prop :=
  ∃ inner, (∀ c ∈ inner, isBrace c = false) ∧ cs = '{' :: (inner ++ ['}'])

inductive DurationEnd : List Char → Prop
  | plain {cs : List Char} (h : cs = [] ∨ Annotation cs) : DurationEnd cs
  | dotted {cs : List Char} (h : cs = [] ∨ Annotation cs) : DurationEnd ('.' :: cs)

def PureDuration (cs : List Char) : Prop :=
  ∃ digits rest, digits ≠ [] ∧ (∀ c ∈ digits, isDecimalDigit c = true) ∧ DurationEnd rest ∧
    cs = ':' :: (digits ++ rest)

def PureModifier (cs : List Char) : Prop := PureDuration cs ∨ Annotation cs

def GluedDuration (cs : List Char) : Prop :=
  ∃ value ∈ noteValues, ∃ rest, DurationEnd rest ∧ cs = ':' :: (value ++ rest)

/-- A glued duration and another modifier behind it, which together are no modifier. -/
def Stacked (token : List Char) : Prop :=
  ¬ PureModifier token ∧
    ∃ front back, GluedDuration front ∧ PureModifier back ∧ token = front ++ back

/-! ## Annotations -/

theorem dropWhile_append_eq {p : Char → Bool} {front rest : List Char}
    (hfront : ∀ c ∈ front, p c = true) (hrest : ∀ c, rest.head? = some c → p c = false) :
    (front ++ rest).dropWhile p = rest := by
  rw [List.dropWhile_append_of_pos hfront]
  cases rest with
  | nil => rfl
  | cons c cs => simp [hrest c rfl]

theorem Annotation.head? {cs : List Char} (h : Annotation cs) : cs.head? = some '{' := by
  obtain ⟨inner, -, rfl⟩ := h
  rfl

theorem afterBraces?_eq_some_iff {cs rest : List Char} :
    afterBraces? cs = some rest ↔ ∃ front, Annotation front ∧ cs = front ++ rest := by
  constructor
  · intro h
    unfold afterBraces? at h
    split at h
    · rename_i cs
      split at h
      · rename_i rest' hdrop
        cases h
        have hsplit := List.takeWhile_append_dropWhile (p := fun c => c != '{' && c != '}') (l := cs)
        rw [hdrop] at hsplit
        refine ⟨_, ⟨_, fun c hc => ?_, rfl⟩, by simpa using hsplit.symm⟩
        have := List.mem_takeWhile_imp hc
        simpa [isBrace] using this
      · cases h
    · cases h
  · rintro ⟨front, ⟨inner, hinner, rfl⟩, rfl⟩
    have hdrop : (inner ++ '}' :: rest).dropWhile (fun c => c != '{' && c != '}') = '}' :: rest := by
      apply dropWhile_append_eq
      · intro c hc
        simpa [isBrace] using hinner c hc
      · simp
    simp [afterBraces?, hdrop]

theorem afterBraces?_eq_some_nil_iff {cs : List Char} : afterBraces? cs = some [] ↔ Annotation cs := by
  simp [afterBraces?_eq_some_iff]

theorem dropBraces_of_head? {cs : List Char} (h : cs.head? ≠ some '{') : dropBraces cs = cs := by
  cases hrest : afterBraces? cs with
  | none => rw [dropBraces, hrest, Option.getD_none]
  | some rest =>
    obtain ⟨front, hfront, rfl⟩ := afterBraces?_eq_some_iff.mp hrest
    rw [List.head?_append, hfront.head?] at h
    exact absurd rfl h

theorem dropBraces_append {front : List Char} (h : Annotation front) (rest : List Char) :
    dropBraces (front ++ rest) = rest := by
  rw [dropBraces, afterBraces?_eq_some_iff.mpr ⟨front, h, rfl⟩, Option.getD_some]

theorem exists_append_dropBraces (cs : List Char) :
    ∃ front, (front = [] ∨ Annotation front) ∧ cs = front ++ dropBraces cs := by
  cases h : afterBraces? cs with
  | none => exact ⟨[], .inl rfl, by simp [dropBraces, h]⟩
  | some rest =>
    obtain ⟨front, hfront, hcs⟩ := afterBraces?_eq_some_iff.mp h
    exact ⟨front, .inr hfront, by simpa [dropBraces, h] using hcs⟩

theorem dropBraces_eq_nil_iff {cs : List Char} : dropBraces cs = [] ↔ cs = [] ∨ Annotation cs := by
  constructor
  · intro h
    obtain ⟨front, hfront, hcs⟩ := exists_append_dropBraces cs
    rw [h, List.append_nil] at hcs
    rwa [hcs]
  · rintro (rfl | h)
    · rfl
    · simpa using dropBraces_append h []

/-! ## Durations -/

theorem DurationEnd.head? {cs : List Char} {c : Char} (h : DurationEnd cs)
    (hc : cs.head? = some c) : c = '.' ∨ c = '{' := by
  cases h with
  | plain h =>
    rcases h with rfl | h
    · cases hc
    · rw [h.head?] at hc
      exact .inr (Option.some.inj hc).symm
  | dotted h => exact .inl (Option.some.inj hc).symm

theorem durationEnd_iff {cs : List Char} : DurationEnd cs ↔ dropBraces (dropDot cs) = [] := by
  rw [dropBraces_eq_nil_iff]
  constructor
  · intro h
    cases h with
    | plain h =>
      rcases h with rfl | ⟨inner, hinner, rfl⟩
      · exact .inl rfl
      · exact .inr ⟨inner, hinner, rfl⟩
    | dotted h => exact h
  · intro h
    unfold dropDot at h
    split at h
    · exact .dotted h
    · exact .plain h

theorem isDuration_iff {token : List Char} : isDuration token = true ↔ PureDuration token := by
  constructor
  · intro h
    unfold isDuration at h
    split at h
    · rename_i cs
      rw [Bool.and_eq_true, List.isEmpty_iff, ← durationEnd_iff] at h
      refine ⟨cs.takeWhile isDecimalDigit, cs.dropWhile isDecimalDigit, ?_,
        fun c hc => List.mem_takeWhile_imp hc, h.2, by rw [List.takeWhile_append_dropWhile]⟩
      intro hnil
      cases cs with
      | nil => cases h.1
      | cons c cs =>
        have hdigit : isDecimalDigit c = true := h.1
        simp [hdigit] at hnil
    · cases h
  · rintro ⟨digits, rest, hne, hdigits, hrest, rfl⟩
    have hdrop : (digits ++ rest).dropWhile isDecimalDigit = rest := by
      apply dropWhile_append_eq hdigits
      intro c hc
      rcases hrest.head? hc with rfl | rfl
      · decide
      · decide
    have hhead : (digits ++ rest).head?.any isDecimalDigit = true := by
      cases digits with
      | nil => exact absurd rfl hne
      | cons d ds => exact hdigits d List.mem_cons_self
    rw [isDuration, hhead, hdrop, durationEnd_iff.mp hrest]
    rfl

theorem isModifier_iff {token : List Char} : isModifier token = true ↔ PureModifier token := by
  rw [isModifier, Bool.or_eq_true, isDuration_iff, isLoneEffect, beq_iff_eq,
    afterBraces?_eq_some_nil_iff, PureModifier]

theorem modifierLength?_eq_none_iff {token : List Char} :
    modifierLength? token = none ↔ PureModifier token := by
  rw [← isModifier_iff]
  unfold modifierLength?
  split
  · simp [*]
  · split <;> simp [*]

/-! ## Glued durations -/

theorem after?_eq_some_iff {front cs rest : List Char} :
    after? front cs = some rest ↔ cs = front ++ rest := by
  fun_induction after? front cs with
  | case1 cs => simp [eq_comm]
  | case2 => simp
  | case3 front c cs ih => simpa using ih
  | case4 a front c cs hne => simp [Ne.symm hne]

theorem noteValues_digits {value : List Char} (h : value ∈ noteValues) :
    value ≠ [] ∧ ∀ c ∈ value, isDecimalDigit c = true := by
  have hall : ∀ value ∈ noteValues, value ≠ [] ∧ value.all isDecimalDigit = true := by decide
  rw [← List.all_eq_true]
  exact hall value h

/-- No longer note value fits where no digit follows. -/
theorem noteValues_findSome? {value rest : List Char} (hvalue : value ∈ noteValues)
    (hrest : ∀ c, rest.head? = some c → isDecimalDigit c = false) :
    noteValues.findSome? (after? · (value ++ rest)) = some rest := by
  have hdigit : ∀ d, isDecimalDigit d = true → ∀ cs, rest ≠ d :: cs := by
    rintro d hd cs rfl
    rw [hrest d rfl] at hd
    cases hd
  simp only [noteValues, List.mem_cons, List.not_mem_nil, or_false] at hvalue
  rcases hvalue with rfl | rfl | rfl | rfl | rfl | rfl | rfl | rfl
  all_goals
    cases rest with
    | nil => rfl
    | cons c cs =>
      have h2 : '2' ≠ c := fun h => hdigit '2' (by decide) cs (by rw [h])
      have h6 : '6' ≠ c := fun h => hdigit '6' (by decide) cs (by rw [h])
      simp [noteValues, after?, h2, h6]

theorem dropLastDot_of_head? {cs : List Char} (h : cs.head? ≠ some '.') : dropLastDot cs = cs := by
  unfold dropLastDot
  split
  · exact absurd rfl h
  · rfl

theorem dropLastDot_dot {cs : List Char} (h : ∀ c, cs.head? = some c → isDecimalDigit c = false) :
    dropLastDot ('.' :: cs) = cs := by
  cases cs with
  | nil => rfl
  | cons c cs => simp [dropLastDot, h c rfl]

theorem exists_durationEnd (cs : List Char) :
    ∃ front, DurationEnd front ∧ cs = front ++ dropBraces (dropLastDot cs) := by
  unfold dropLastDot
  split
  · rename_i rest
    split
    · obtain ⟨front, hfront, hcs⟩ := exists_append_dropBraces ('.' :: rest)
      exact ⟨front, .plain hfront, hcs⟩
    · obtain ⟨front, hfront, hcs⟩ := exists_append_dropBraces rest
      exact ⟨'.' :: front, .dotted hfront, congrArg ('.' :: ·) hcs⟩
  · obtain ⟨front, hfront, hcs⟩ := exists_append_dropBraces cs
    exact ⟨front, .plain hfront, hcs⟩

theorem gluedDuration_of_afterDuration? {token rest : List Char}
    (h : afterDuration? token = some rest) : ∃ front, GluedDuration front ∧ token = front ++ rest := by
  unfold afterDuration? at h
  split at h
  · rename_i cs
    obtain ⟨tail, hfind, rfl⟩ := Option.map_eq_some_iff.mp h
    obtain ⟨value, hvalue, hafter⟩ := List.exists_of_findSome?_eq_some hfind
    obtain ⟨front, hfront, htail⟩ := exists_durationEnd tail
    refine ⟨':' :: (value ++ front), ⟨value, hvalue, front, hfront, rfl⟩, ?_⟩
    rw [after?_eq_some_iff.mp hafter, List.cons_append, List.append_assoc, ← htail]
  · cases h

theorem modifierLength?_of_afterDuration? {token rest : List Char} (htoken : ¬ PureModifier token)
    (h : afterDuration? token = some rest) (hne : rest ≠ []) :
    modifierLength? token = some (token.length - rest.length) := by
  rw [← isModifier_iff] at htoken
  unfold modifierLength?
  rw [if_neg htoken, h]
  cases rest with
  | nil => exact absurd rfl hne
  | cons c cs => rfl

theorem modifierLength?_cut {token : List Char} {n : Nat} (h : modifierLength? token = some n) :
    n = 0 ∨ ∃ front back, GluedDuration front ∧ token = front ++ back ∧ n = front.length := by
  unfold modifierLength? at h
  split at h
  · cases h
  · split at h
    · exact .inl (Option.some.inj h).symm
    · rename_i rest _ hrest
      obtain ⟨front, hfront, rfl⟩ := gluedDuration_of_afterDuration? hrest
      refine .inr ⟨front, rest, hfront, rfl, ?_⟩
      rw [← Option.some.inj h, List.length_append, Nat.add_sub_cancel]
    · exact .inl (Option.some.inj h).symm

/-! ## Modifiers behind glued durations -/

theorem PureModifier.head? {cs : List Char} (h : PureModifier cs) :
    cs.head? = some ':' ∨ cs.head? = some '{' := by
  rcases h with ⟨digits, rest, -, -, -, rfl⟩ | h
  · exact .inl rfl
  · exact .inr h.head?

section
variable {front back : List Char} (hback : PureModifier back)
include hback

theorem PureModifier.notDigit (hfront : DurationEnd front) :
    ∀ c, (front ++ back).head? = some c → isDecimalDigit c = false := by
  intro c hc
  have hmark : c = '.' ∨ c = '{' ∨ c = ':' := by
    cases front with
    | nil =>
      rw [List.nil_append] at hc
      rcases hback.head? with h | h
      · rw [h] at hc
        exact .inr (.inr (Option.some.inj hc).symm)
      · rw [h] at hc
        exact .inr (.inl (Option.some.inj hc).symm)
    | cons d ds =>
      rcases hfront.head? hc with h | h
      · exact .inl h
      · exact .inr (.inl h)
  rcases hmark with rfl | rfl | rfl
  all_goals decide

/-- An annotation that follows the duration belongs to it, unless the duration has one already. -/
theorem PureModifier.dropBraces (hfront : front = [] ∨ Annotation front)
    (hjoined : ¬ Annotation (front ++ back)) : dropBraces (front ++ back) = back := by
  rcases hfront with rfl | hfront
  · rcases hback with ⟨digits, rest, -, -, -, rfl⟩ | hback
    · exact dropBraces_of_head? (by simp)
    · exact absurd hback hjoined
  · exact dropBraces_append hfront back

theorem PureModifier.dropEnd (hfront : DurationEnd front) (hjoined : ¬ DurationEnd (front ++ back)) :
    Tablature.dropBraces (dropLastDot (front ++ back)) = back := by
  cases hfront with
  | plain h =>
    have hdot : (front ++ back).head? ≠ some '.' := by
      rcases h with rfl | h
      · rcases hback.head? with hhead | hhead <;> simp [hhead]
      · simp [h.head?]
    rw [dropLastDot_of_head? hdot]
    exact hback.dropBraces h fun ha => hjoined (.plain (.inr ha))
  | @dotted annotation h =>
    rw [List.cons_append, dropLastDot_dot (hback.notDigit (.plain h))]
    exact hback.dropBraces h fun ha => hjoined (.dotted (.inr ha))

theorem PureModifier.afterDuration? (hfront : GluedDuration front)
    (hjoined : ¬ PureModifier (front ++ back)) : afterDuration? (front ++ back) = some back := by
  obtain ⟨value, hvalue, rest, hrest, rfl⟩ := hfront
  obtain ⟨hne, hdigits⟩ := noteValues_digits hvalue
  have hend : ¬ DurationEnd (rest ++ back) := by
    intro hend
    refine hjoined (.inl ⟨value, rest ++ back, hne, hdigits, hend, ?_⟩)
    rw [List.cons_append, List.append_assoc]
  rw [List.cons_append, List.append_assoc, Tablature.afterDuration?,
    noteValues_findSome? hvalue (hback.notDigit hrest)]
  exact congrArg some (hback.dropEnd hrest hend)

end

/-- What is left of a token behind its glued duration is a modifier exactly for a stack. -/
theorem modifierLength?_drop_iff {token : List Char} {n : Nat} (h : modifierLength? token = some n) :
    PureModifier (token.drop n) ↔ Stacked token := by
  have htoken : ¬ PureModifier token := by
    intro hpure
    rw [modifierLength?_eq_none_iff.mpr hpure] at h
    cases h
  constructor
  · intro hback
    refine ⟨htoken, ?_⟩
    rcases modifierLength?_cut h with rfl | ⟨front, back, hfront, rfl, rfl⟩
    · exact absurd hback htoken
    · rw [List.drop_left] at hback
      exact ⟨front, back, hfront, hback, rfl⟩
  · rintro ⟨-, front, back, hfront, hback, rfl⟩
    have hne : back ≠ [] := by
      rintro rfl
      rcases hback.head? with hnil | hnil <;> cases hnil
    have hcut := modifierLength?_of_afterDuration? htoken (hback.afterDuration? hfront htoken) hne
    rw [h, List.length_append, Nat.add_sub_cancel] at hcut
    rwa [Option.some.inj hcut, List.drop_left]

end Tablature
