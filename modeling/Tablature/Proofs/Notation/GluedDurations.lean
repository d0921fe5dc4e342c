import Mathlib.Algebra.Group.Nat.Defs
import Tablature.Proofs.Notation.ModifierForms

/-!
# What a glued duration takes

The note values are the powers of two up to 128. A duration at the front of a
token takes the longest note value that fits, then a dot that no digit follows,
then an annotation. It takes a whole token only when the token is a modifier, so
something is left of each token that is kept.
-/

namespace Tablature

def IsNoteValue (cs : List Char) : Prop := ∃ e, e ≤ 7 ∧ cs = Nat.toDigits 10 (2 ^ e)

def BeginsDuration (token : List Char) : Prop := ∃ value, IsNoteValue value ∧ ':' :: value <+: token

structure LongestValue (cs value : List Char) : Prop where
  isNoteValue : IsNoteValue value
  fits : value <+: cs
  longest : ∀ v, IsNoteValue v → v <+: cs → v.length ≤ value.length

inductive TakesDot : (cs dot rest : List Char) → Prop
  | dot {rest : List Char} (h : ∀ c, rest.head? = some c → isDecimalDigit c = false) :
      TakesDot ('.' :: rest) ['.'] rest
  | nothing {cs : List Char}
      (h : ∀ rest, cs = '.' :: rest → ∃ c, rest.head? = some c ∧ isDecimalDigit c = true) :
      TakesDot cs [] cs

inductive TakesBraces : (cs braces rest : List Char) → Prop
  | braces {braces rest : List Char} (h : Annotation braces) :
      TakesBraces (braces ++ rest) braces rest
  | nothing {cs : List Char} (h : ∀ braces, Annotation braces → ¬ braces <+: cs) :
      TakesBraces cs [] cs

/-- A token, the duration that is taken from its front, and what is left. -/
inductive TakesDuration : (token front rest : List Char) → Prop
  | glued {value tail dot tail' braces rest : List Char}
      (hvalue : LongestValue (value ++ tail) value) (hdot : TakesDot tail dot tail')
      (hbraces : TakesBraces tail' braces rest) :
      TakesDuration (':' :: (value ++ tail)) (':' :: (value ++ (dot ++ braces))) rest

/-! ## Note values -/

theorem noteValues_eq : noteValues = (List.range 8).reverse.map fun e => Nat.toDigits 10 (2 ^ e) := by
  decide

theorem mem_noteValues_iff {value : List Char} : value ∈ noteValues ↔ IsNoteValue value := by
  simp only [noteValues_eq, List.mem_map, List.mem_reverse, List.mem_range, IsNoteValue,
    Nat.lt_succ_iff, eq_comm]

/-- Longer numerals come first, so the first that fits is the longest. -/
theorem longestValue_of_findSome? {cs rest : List Char}
    (h : noteValues.findSome? (after? · cs) = some rest) :
    ∃ value, LongestValue cs value ∧ cs = value ++ rest := by
  obtain ⟨front, value, back, hvalues, hafter, hfront⟩ := List.findSome?_eq_some_iff.mp h
  have hcs : cs = value ++ rest := after?_eq_some_iff.mp hafter
  refine ⟨value, ⟨mem_noteValues_iff.mp (by simp [hvalues]), ⟨rest, hcs.symm⟩, ?_⟩, hcs⟩
  rintro v hv ⟨tail, htail⟩
  have hshorter : noteValues.Pairwise fun a b => b.length ≤ a.length := by decide
  have hmem := mem_noteValues_iff.mpr hv
  rw [hvalues] at hmem hshorter
  rcases List.mem_append.mp hmem with hmem | hmem
  · have hnone := hfront v hmem
    rw [after?_eq_some_iff.mpr htail.symm] at hnone
    cases hnone
  · rcases List.mem_cons.mp hmem with rfl | hmem
    · exact Nat.le_refl _
    · exact (List.pairwise_cons.mp (List.pairwise_append.mp hshorter).2.1).1 v hmem

/-! ## The parts of a duration -/

theorem takesDot_dropLastDot (cs : List Char) : ∃ dot, TakesDot cs dot (dropLastDot cs) := by
  unfold dropLastDot
  split
  · rename_i rest
    split
    · rename_i hdigit
      refine ⟨[], .nothing fun rest' hrest => ?_⟩
      cases hrest
      cases rest with
      | nil => cases hdigit
      | cons c cs => exact ⟨c, rfl, hdigit⟩
    · rename_i hdigit
      refine ⟨['.'], .dot fun c hc => ?_⟩
      simpa [hc] using hdigit
  · rename_i hdot
    exact ⟨[], .nothing fun rest hrest => absurd hrest (hdot rest)⟩

theorem takesBraces_dropBraces (cs : List Char) : ∃ braces, TakesBraces cs braces (dropBraces cs) := by
  cases h : afterBraces? cs with
  | none =>
    rw [dropBraces, h, Option.getD_none]
    refine ⟨[], .nothing ?_⟩
    rintro braces hbraces ⟨rest, rfl⟩
    rw [afterBraces?_eq_some_iff.mpr ⟨braces, hbraces, rfl⟩] at h
    cases h
  | some rest =>
    obtain ⟨braces, hbraces, rfl⟩ := afterBraces?_eq_some_iff.mp h
    rw [dropBraces, h, Option.getD_some]
    exact ⟨braces, .braces hbraces⟩

theorem TakesDot.append {cs dot rest : List Char} (h : TakesDot cs dot rest) : cs = dot ++ rest := by
  cases h with
  | dot => rfl
  | nothing => rfl

theorem TakesBraces.append {cs braces rest : List Char} (h : TakesBraces cs braces rest) :
    cs = braces ++ rest := by
  cases h with
  | braces => rfl
  | nothing => rfl

theorem TakesDuration.append {token front rest : List Char} (h : TakesDuration token front rest) :
    token = front ++ rest := by
  obtain ⟨-, hdot, hbraces⟩ := h
  rw [hdot.append, hbraces.append]
  simp

theorem takesDuration_of_afterDuration? {token rest : List Char}
    (h : afterDuration? token = some rest) : ∃ front, TakesDuration token front rest := by
  unfold afterDuration? at h
  split at h
  · obtain ⟨tail, hfind, rfl⟩ := Option.map_eq_some_iff.mp h
    obtain ⟨value, hvalue, rfl⟩ := longestValue_of_findSome? hfind
    obtain ⟨dot, hdot⟩ := takesDot_dropLastDot tail
    obtain ⟨braces, hbraces⟩ := takesBraces_dropBraces (dropLastDot tail)
    exact ⟨_, .glued hvalue hdot hbraces⟩
  · cases h

theorem TakesDuration.begins {token front rest : List Char} (h : TakesDuration token front rest) :
    BeginsDuration token := by
  cases h with
  | glued hvalue hdot hbraces =>
    exact ⟨_, hvalue.isNoteValue, List.cons_prefix_cons.mpr ⟨rfl, hvalue.fits⟩⟩

theorem TakesDuration.length_pos {token front rest : List Char}
    (h : TakesDuration token front rest) : 0 < front.length := by
  cases h with
  | glued hvalue hdot hbraces => exact Nat.succ_pos _

theorem afterDuration?_eq_none_iff {token : List Char} :
    afterDuration? token = none ↔ ¬ BeginsDuration token := by
  constructor
  · rintro h ⟨value, hvalue, rest, rfl⟩
    rw [List.cons_append, afterDuration?, Option.map_eq_none_iff, List.findSome?_eq_none_iff] at h
    have := h value (mem_noteValues_iff.mpr hvalue)
    rw [after?_eq_some_iff.mpr rfl] at this
    cases this
  · intro h
    cases hrest : afterDuration? token with
    | none => rfl
    | some rest =>
      obtain ⟨front, hfront⟩ := takesDuration_of_afterDuration? hrest
      exact absurd hfront.begins h

/-! ## Tokens that are kept -/

theorem GluedDuration.pureModifier {cs : List Char} (h : GluedDuration cs) : PureModifier cs := by
  obtain ⟨value, hvalue, rest, hrest, rfl⟩ := h
  obtain ⟨hne, hdigits⟩ := noteValues_digits hvalue
  exact .inl ⟨value, rest, hne, hdigits, hrest, rfl⟩

/-- A duration with nothing behind it is a modifier as a whole. -/
theorem ne_nil_of_afterDuration? {token rest : List Char} (htoken : ¬ PureModifier token)
    (h : afterDuration? token = some rest) : rest ≠ [] := by
  rintro rfl
  obtain ⟨front, hfront, rfl⟩ := gluedDuration_of_afterDuration? h
  rw [List.append_nil] at htoken
  exact htoken hfront.pureModifier

/-- A token that is kept loses the duration at its front, if it begins with one. -/
theorem modifierLength?_of_not_pureModifier {token : List Char} (h : ¬ PureModifier token) :
    (¬ BeginsDuration token ∧ modifierLength? token = some 0) ∨
      ∃ front rest, TakesDuration token front rest ∧
        modifierLength? token = some front.length := by
  cases hrest : afterDuration? token with
  | none =>
    refine .inl ⟨afterDuration?_eq_none_iff.mp hrest, ?_⟩
    rw [← isModifier_iff] at h
    simp [modifierLength?, h, hrest]
  | some rest =>
    obtain ⟨front, hfront⟩ := takesDuration_of_afterDuration? hrest
    have hne := ne_nil_of_afterDuration? h hrest
    have hlength : token.length - rest.length = front.length := by
      rw [hfront.append, List.length_append, Nat.add_sub_cancel]
    refine .inr ⟨front, rest, hfront, ?_⟩
    rw [modifierLength?_of_afterDuration? h hrest hne, hlength]

theorem modifierLength?_greedy {token : List Char} (hne : token ≠ []) :
    (modifierLength? token = none ↔ PureModifier token) ∧
      ∀ n, modifierLength? token = some n →
        n < token.length ∧ (0 < n ↔ BeginsDuration token) ∧
        (0 < n → TakesDuration token (token.take n) (token.drop n)) := by
  refine ⟨modifierLength?_eq_none_iff, fun n hn => ⟨modifierLength?_lt hn hne, ?_⟩⟩
  have hpure : ¬ PureModifier token := by
    intro hpure
    rw [modifierLength?_eq_none_iff.mpr hpure] at hn
    cases hn
  rcases modifierLength?_of_not_pureModifier hpure with ⟨hbare, hzero⟩ | ⟨front, rest, h, hcut⟩
  · cases hzero.symm.trans hn
    exact ⟨by simp [hbare], fun hpos => absurd hpos (Nat.lt_irrefl 0)⟩
  · cases hcut.symm.trans hn
    have htoken := h.append
    refine ⟨by simp [h.length_pos, h.begins], fun _ => ?_⟩
    rwa [htoken, List.take_left, List.drop_left, ← htoken]

/-- The numeral is not `1`, the dot is part of the duration, and one annotation of two is. -/
theorem modifierLength?_greedy_twoAnnotations :
    let token := ":128.\x7btu 3\x7d\x7bh\x7d3.2".toList
    token ≠ [] ∧ modifierLength? token = some 11 ∧ 11 < token.length ∧ BeginsDuration token ∧
      TakesDuration token ":128.\x7btu 3\x7d".toList "\x7bh\x7d3.2".toList := by
  intro token
  have hne : token ≠ [] := by decide
  have hn : modifierLength? token = some 11 := by decide +kernel
  obtain ⟨hlt, hpos, htakes⟩ := (modifierLength?_greedy hne).2 11 hn
  exact ⟨hne, hn, hlt, hpos.mp (by decide), htakes (by decide)⟩

end Tablature
