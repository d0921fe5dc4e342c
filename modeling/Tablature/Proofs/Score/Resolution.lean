import Tablature.Score.Lookup

/-!
# The beat that a place resolves to

A place in the score resolves to the beat there. A place without a beat resolves
to the first beat of its bar, and when the bar has no beats to the earliest of
the nearest ones. In a list with beats every place resolves to exactly one of
them, and this is the one that is looked up.
-/

namespace Tablature

def FirstAt {α : Type} (test : α → Prop) (as : List α) (i : Nat) : Prop :=
  ∃ a, as[i]? = some a ∧ test a ∧ ∀ k < i, ∀ b, as[k]? = some b → ¬ test b

/-- The beat at index `i` is the one for a place in the score. -/
inductive ResolvesTo (beats : List Beat) (p : ScorePosition) (i : Nat) : Prop
  | here (h : FirstAt (·.position = p) beats i)
  | inBar (hgone : ∀ b ∈ beats, b.position ≠ p) (h : FirstAt (·.position.bar = p.bar) beats i)
  | nearest (hgone : ∀ b ∈ beats, b.position.bar ≠ p.bar)
      (h : FirstAt (fun b => ∀ c ∈ beats,
        (b.position.bar - p.bar).natAbs * 100 + (b.position.beat - p.beat).natAbs ≤
          (c.position.bar - p.bar).natAbs * 100 + (c.position.beat - p.beat).natAbs) beats i)

/-! ## First elements -/

namespace FirstAt

variable {α : Type} {test test' : α → Prop} {as : List α} {a b : α} {i j : Nat}

theorem head (h : test a) : FirstAt test (a :: as) 0 :=
  ⟨a, rfl, h, fun _ hk => absurd hk (Nat.not_lt_zero _)⟩

theorem tail (ha : ¬ test a) (h : FirstAt test as i) : FirstAt test (a :: as) (i + 1) := by
  obtain ⟨b, hb, htest, hfirst⟩ := h
  refine ⟨b, hb, htest, fun k hk c hc => ?_⟩
  cases k with
  | zero =>
    cases hc
    exact ha
  | succ k => exact hfirst k (Nat.lt_of_succ_lt_succ hk) c hc

theorem exists_getElem? (h : FirstAt test as i) : ∃ a, as[i]? = some a := by
  obtain ⟨a, ha, -⟩ := h
  exact ⟨a, ha⟩

theorem test_of_getElem? (h : FirstAt test as i) (ha : as[i]? = some a) : test a := by
  obtain ⟨b, hb, htest, -⟩ := h
  cases ha.symm.trans hb
  exact htest

theorem exists_mem (h : FirstAt test as i) : ∃ a ∈ as, test a := by
  obtain ⟨a, ha⟩ := h.exists_getElem?
  exact ⟨a, List.mem_of_getElem? ha, h.test_of_getElem? ha⟩

theorem le_of_test (h : FirstAt test as i) (hb : as[j]? = some b) (htest : test b) : i ≤ j := by
  obtain ⟨-, -, -, hfirst⟩ := h
  exact Nat.not_lt.mp fun hlt => hfirst j hlt b hb htest

theorem unique (hi : FirstAt test as i) (hj : FirstAt test as j) : i = j := by
  obtain ⟨a, ha⟩ := hi.exists_getElem?
  obtain ⟨b, hb⟩ := hj.exists_getElem?
  exact Nat.le_antisymm (hi.le_of_test hb (hj.test_of_getElem? hb))
    (hj.le_of_test ha (hi.test_of_getElem? ha))

/-- A stricter test that the same element passes. -/
theorem of_stricter (h : FirstAt test as i) (ha : as[i]? = some a) (htest : test' a)
    (himp : ∀ b, test' b → test b) : FirstAt test' as i := by
  obtain ⟨-, -, -, hfirst⟩ := h
  exact ⟨a, ha, htest, fun k hk b hb hb' => hfirst k hk b hb (himp b hb')⟩

end FirstAt

section
variable {α : Type} {test : α → Bool} {as : List α}

theorem firstAt_of_find? {a : α} (h : as.find? test = some a) :
    ∃ i, as[i]? = some a ∧ FirstAt (test · = true) as i := by
  obtain ⟨htest, i, hi, rfl, hfirst⟩ := List.find?_eq_some_iff_getElem.mp h
  have hget : as[i]? = some as[i] := List.getElem?_eq_getElem hi
  refine ⟨i, hget, as[i], hget, htest, fun k hk b hb => ?_⟩
  obtain ⟨_, rfl⟩ := List.getElem?_eq_some_iff.mp hb
  simpa using hfirst k hk

theorem find?_of_firstAt {i : Nat} (h : FirstAt (test · = true) as i) : as.find? test = as[i]? := by
  cases hfound : as.find? test with
  | none =>
    obtain ⟨a, ha, htest⟩ := h.exists_mem
    exact absurd htest (List.find?_eq_none.mp hfound a ha)
  | some a =>
    obtain ⟨k, hk, hfirst⟩ := firstAt_of_find? hfound
    rw [h.unique hfirst, hk]

end

/-! ## The earliest element of least weight -/

section
variable {α : Type} {weight : α → Int} {as : List α}

theorem earliestMin?_eq_none_iff : earliestMin? weight as = none ↔ as = [] := by
  cases as with
  | nil => exact iff_of_true rfl rfl
  | cons a as =>
    refine iff_of_false (fun h => ?_) (List.cons_ne_nil a as)
    unfold earliestMin? at h
    split at h
    · cases h
    · split at h <;> cases h

theorem firstAt_of_earliestMin? {a : α} (h : earliestMin? weight as = some a) :
    ∃ i, as[i]? = some a ∧ FirstAt (fun b => ∀ c ∈ as, weight b ≤ weight c) as i := by
  induction as generalizing a with
  | nil => cases h
  | cons x xs ih =>
    unfold earliestMin? at h
    split at h
    · rename_i hnone
      cases h
      rw [earliestMin?_eq_none_iff] at hnone
      subst hnone
      exact ⟨0, rfl, .head (by simp)⟩
    · rename_i b hb
      obtain ⟨i, hi, hfirst⟩ := ih hb
      have hleast : ∀ c ∈ xs, weight b ≤ weight c := hfirst.test_of_getElem? hi
      split at h
      · -- the head is not of least weight, and in the rest the head changes nothing
        rename_i hlt
        cases h
        have hhead : ¬ ∀ c ∈ x :: xs, weight x ≤ weight c := fun hx =>
          Int.not_le.mpr hlt (hx a (List.mem_cons_of_mem _ (List.mem_of_getElem? hi)))
        have hall : ∀ c ∈ x :: xs, weight a ≤ weight c :=
          List.forall_mem_cons.mpr ⟨Int.le_of_lt hlt, hleast⟩
        refine ⟨i + 1, hi, .tail hhead (hfirst.of_stricter hi hall fun c hc => ?_)⟩
        exact (List.forall_mem_cons.mp hc).2
      · rename_i hle
        cases h
        refine ⟨0, rfl, .head (List.forall_mem_cons.mpr ⟨Int.le_refl _, fun c hc => ?_⟩)⟩
        exact Int.le_trans (Int.not_lt.mp hle) (hleast c hc)

theorem earliestMin?_congr {weight' : α → Int} (h : ∀ a ∈ as, weight a = weight' a) :
    earliestMin? weight as = earliestMin? weight' as := by
  induction as with
  | nil => rfl
  | cons a as ih =>
    obtain ⟨ha, has⟩ := List.forall_mem_cons.mp h
    unfold earliestMin?
    rw [ih has]
    cases hb : earliestMin? weight' as with
    | none => rfl
    | some b =>
      obtain ⟨k, hk, -⟩ := firstAt_of_earliestMin? hb
      dsimp only
      rw [ha, has b (List.mem_of_getElem? hk)]

end

/-! ## Resolution -/

theorem ScorePosition.distance_le_iff {p q r : ScorePosition} :
    p.distance r ≤ q.distance r ↔
      (p.bar - r.bar).natAbs * 100 + (p.beat - r.beat).natAbs ≤
        (q.bar - r.bar).natAbs * 100 + (q.beat - r.beat).natAbs := by
  unfold distance
  omega

theorem ResolvesTo.unique {beats : List Beat} {p : ScorePosition} {i j : Nat}
    (hi : ResolvesTo beats p i) (hj : ResolvesTo beats p j) : i = j := by
  have hbar {b : Beat} (h : b.position.bar ≠ p.bar) : b.position ≠ p := fun e => h (e ▸ rfl)
  cases hi with
  | here hi =>
    obtain ⟨b, hb, hhere⟩ := hi.exists_mem
    cases hj with
    | here hj => exact hi.unique hj
    | inBar hgone _ => exact absurd hhere (hgone b hb)
    | nearest hgone _ => exact absurd hhere (hbar (hgone b hb))
  | inBar hgone hi =>
    obtain ⟨b, hb, hinBar⟩ := hi.exists_mem
    cases hj with
    | here hj =>
      obtain ⟨c, hc, hhere⟩ := hj.exists_mem
      exact absurd hhere (hgone c hc)
    | inBar _ hj => exact hi.unique hj
    | nearest hgone' _ => exact absurd hinBar (hgone' b hb)
  | nearest hgone hi =>
    cases hj with
    | here hj =>
      obtain ⟨c, hc, hhere⟩ := hj.exists_mem
      exact absurd hhere (hbar (hgone c hc))
    | inBar _ hj =>
      obtain ⟨c, hc, hinBar⟩ := hj.exists_mem
      exact absurd hinBar (hgone c hc)
    | nearest _ hj => exact hi.unique hj

theorem ResolvesTo.exists_getElem? {beats : List Beat} {p : ScorePosition} {i : Nat}
    (h : ResolvesTo beats p i) : ∃ b, beats[i]? = some b := by
  cases h with
  | here h | inBar _ h | nearest _ h => exact h.exists_getElem?

/-- A place in a bar that has beats resolves to a beat of this bar. -/
theorem ResolvesTo.cases_of_bar {beats : List Beat} {p : ScorePosition} {i : Nat} {b : Beat}
    (h : ResolvesTo beats p i) (hb : beats[i]? = some b)
    (hbar : ∃ c ∈ beats, c.position.bar = p.bar) :
    b.position.bar = p.bar ∧ (b.position = p ∨
      (∀ c ∈ beats, c.position ≠ p) ∧ FirstAt (·.position.bar = p.bar) beats i) := by
  cases h with
  | here h =>
    have hhere : b.position = p := h.test_of_getElem? hb
    exact ⟨hhere ▸ rfl, .inl hhere⟩
  | inBar hgone h => exact ⟨h.test_of_getElem? hb, .inr ⟨hgone, h⟩⟩
  | nearest hgone =>
    obtain ⟨c, hc, hinBar⟩ := hbar
    exact absurd hinBar (hgone c hc)

namespace BeatMap

variable {m : BeatMap} {p : ScorePosition}

theorem find?_eq_none_iff : m.find? p = none ↔ ∀ b ∈ m.beats, b.position ≠ p := by
  simp [find?]

theorem firstInBar?_eq_none_iff {bar : Int} :
    m.firstInBar? bar = none ↔ ∀ b ∈ m.beats, b.position.bar ≠ bar := by
  simp [firstInBar?]

theorem findOrFirst?_eq_none_iff :
    m.findOrFirst? p = none ↔ ∀ b ∈ m.beats, b.position.bar ≠ p.bar := by
  rw [findOrFirst?, Option.or_eq_none_iff, firstInBar?_eq_none_iff]
  refine and_iff_right_of_imp fun h => find?_eq_none_iff.mpr fun b hb e => ?_
  exact h b hb (e ▸ rfl)

theorem resolve?_eq_none_iff : m.resolve? p = none ↔ m.beats = [] := by
  rw [resolve?, Option.or_eq_none_iff, earliestMin?_eq_none_iff, findOrFirst?_eq_none_iff]
  exact and_iff_right_of_imp fun h => by simp [h]

theorem resolvesTo_of_resolve? {b : Beat} (h : m.resolve? p = some b) :
    ∃ i, m.beats[i]? = some b ∧ ResolvesTo m.beats p i := by
  rcases Option.or_eq_some_iff.mp h with h | ⟨hnone, h⟩
  · rcases Option.or_eq_some_iff.mp h with h | ⟨hnone, h⟩
    · obtain ⟨i, hi, hfirst⟩ := firstAt_of_find? h
      exact ⟨i, hi, .here (by simpa using hfirst)⟩
    · obtain ⟨i, hi, hfirst⟩ := firstAt_of_find? h
      exact ⟨i, hi, .inBar (find?_eq_none_iff.mp hnone) (by simpa using hfirst)⟩
  · obtain ⟨i, hi, hfirst⟩ := firstAt_of_earliestMin? h
    simp only [ScorePosition.distance_le_iff] at hfirst
    exact ⟨i, hi, .nearest (findOrFirst?_eq_none_iff.mp hnone) hfirst⟩

/-- In a map with beats a place resolves to one index, that of the beat that is looked up. -/
theorem resolve?_of_ne_nil (hne : m.beats ≠ []) (p : ScorePosition) :
    ∃ i b, m.beats[i]? = some b ∧ m.resolve? p = some b ∧ ∀ k, ResolvesTo m.beats p k ↔ k = i := by
  cases hb : m.resolve? p with
  | none => exact absurd (resolve?_eq_none_iff.mp hb) hne
  | some b =>
    obtain ⟨i, hi, hresolves⟩ := resolvesTo_of_resolve? hb
    exact ⟨i, b, hi, rfl, fun k => ⟨fun hk => hk.unique hresolves, fun hk => hk ▸ hresolves⟩⟩

end BeatMap

end Tablature
