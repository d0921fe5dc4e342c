import Tablature.Proofs.Notation.Runs
import Tablature.Proofs.Notation.TokenOrder

/-!
# The tokens of a scan are the runs of notation

A lexeme is read as notation, as something that parts tokens, or as padding
inside brackets. The first grows the open token, the second closes it and the
third leaves it alone. So between two steps the open token is a run with padding
behind it, and the marks of a whole scan are the runs and bar lines of the text.
-/

namespace Tablature

/-! ## What a step does -/

theorem Depths.after_of_isBlank {c : Char} (h : isBlank c = true) (d : Depths) : d.after c = d := by
  have hne : ∀ b : Char, isBlank b = false → c ≠ b := by
    rintro b hb rfl
    rw [h] at hb
    cases hb
  rw [after, if_neg (hne '(' (by decide)), if_neg (hne ')' (by decide)),
    if_neg (hne '{' (by decide)), if_neg (hne '}' (by decide))]

@[simp] theorem Place.isGround_mk (c : Char) (role : Role) (d : Depths) :
    isGround ⟨c, role, d.chord, d.brace⟩ = d.isGround := rfl

def Lexeme.closesChord : Lexeme → Bool
  | .code c => c == ')'
  | _ => false

theorem Lexeme.mem_places {d : Depths} {x : Lexeme} {p : Place} (hp : p ∈ x.places d) :
    ∃ c ∈ x.chars, p = ⟨c, x.role, d.chord, d.brace⟩ := by
  obtain ⟨c, hc, rfl⟩ := List.mem_map.mp hp
  exact ⟨c, hc, rfl⟩

namespace Scan

def grow (s : Scan) (i : Nat) (x : Lexeme) : Scan :=
  { s with depths := x.depthsAfter s.depths }.extend i (i + x.length) x.closesChord

inductive Moves (s : Scan) (i : Nat) (x : Lexeme) : Scan × List Mark → Prop
  | pass (hground : s.depths.isGround = false)
      (hx : ∀ p ∈ x.places s.depths, p.isNotation = false ∧ p.isGap = false) : Moves s i x (s, [])
  | part (hground : s.depths.isGround = true)
      (hx : ∀ p ∈ x.places s.depths, p.isGap = true ∧ p.isBarLine = false) :
      Moves s i x (s.close, s.closed)
  | bar (hground : s.depths.isGround = true) (hx : x = .code '|') :
      Moves s i x (s.close, s.closed ++ [.bar])
  | grow (hx : ∀ p ∈ x.places s.depths, p.isNotation = true)
      (hopen : x = .code '(' → s.depths.isGround = true → s.token.any OpenToken.endsChord = false) :
      Moves s i x (s.grow i x, [])
  | renew (hground : s.depths.isGround = true) (hx : x = .code '(')
      (hclose : s.token.any OpenToken.endsChord = true) :
      Moves s i x (s.close.grow i x, s.closed)

variable (s : Scan) (i : Nat)

theorem comment_moves {x : Lexeme} (hx : x.role = .comment) :
    s.Moves i x (if s.depths.isGround then (s.close, s.closed) else (s, [])) := by
  by_cases hground : s.depths.isGround = true
  · rw [if_pos hground]
    refine .part hground fun p hp => ?_
    obtain ⟨c, -, rfl⟩ := Lexeme.mem_places hp
    rw [hx]
    exact ⟨by simpa [Place.isGap] using hground, rfl⟩
  · rw [if_neg hground]
    refine .pass (by simpa using hground) fun p hp => ?_
    obtain ⟨c, -, rfl⟩ := Lexeme.mem_places hp
    rw [hx]
    exact ⟨rfl, by simpa [Place.isGap] using hground⟩

theorem mem_places_code {c : Char} {d : Depths} {p : Place}
    (hp : p ∈ (Lexeme.code c).places d) : p = ⟨c, .code, d.chord, d.brace⟩ := by
  simpa [Lexeme.places, Lexeme.chars, Lexeme.role] using hp

theorem code_moves_grouped (c : Char) (hground : s.depths.isGround = false) :
    s.Moves i (.code c) (s.step i (.code c)) := by
  unfold step
  dsimp only
  rw [if_pos (by simp [hground])]
  by_cases hblank : isBlank c = true
  · rw [if_pos hblank, Depths.after_of_isBlank hblank]
    refine .pass hground fun p hp => ?_
    rw [mem_places_code hp]
    exact ⟨by simp [Place.isNotation, hblank], by simp [Place.isGap, hground]⟩
  · rw [if_neg hblank]
    apply Moves.grow
    · intro p hp
      rw [mem_places_code hp]
      simp [Place.isNotation, Place.isBarLine, hblank, hground]
    · intro _ h
      rw [hground] at h
      cases h

theorem code_moves_ground (c : Char) (hground : s.depths.isGround = true) :
    s.Moves i (.code c) (s.step i (.code c)) := by
  unfold step
  dsimp only
  rw [if_neg (by simp [hground])]
  by_cases hbar : c = '|'
  · rw [if_pos hbar]
    exact .bar hground (by rw [hbar])
  rw [if_neg hbar]
  by_cases hblank : isBlank c = true
  · rw [if_pos hblank]
    refine .part hground fun p hp => ?_
    rw [mem_places_code hp]
    exact ⟨by simpa [Place.isGap, hblank] using hground, by simp [Place.isBarLine, hbar]⟩
  rw [if_neg hblank]
  by_cases hopen : c = '(' ∧ s.token.any OpenToken.endsChord = true
  · rw [if_pos (by simp [hopen.1, hopen.2])]
    exact .renew hground (by rw [hopen.1]) hopen.2
  · rw [if_neg (by simpa using hopen)]
    apply Moves.grow
    · intro p hp
      rw [mem_places_code hp]
      simp [Place.isNotation, Place.isBarLine, hbar, hblank]
    · intro hx _
      cases hx
      simpa using hopen

theorem step_moves (x : Lexeme) : s.Moves i x (s.step i x) := by
  cases x with
  | quoted cs =>
    show s.Moves i (.quoted cs) (s.grow i (.quoted cs), [])
    refine .grow (fun p hp => ?_) fun hx => nomatch hx
    obtain ⟨c, -, rfl⟩ := Lexeme.mem_places hp
    rfl
  | lineComment cs => exact s.comment_moves i rfl
  | blockComment cs => exact s.comment_moves i rfl
  | code c =>
    by_cases hground : s.depths.isGround = true
    · exact s.code_moves_ground i c hground
    · exact s.code_moves_grouped i c (by simpa using hground)

theorem step_depths (x : Lexeme) : (s.step i x).1.depths = x.depthsAfter s.depths := by
  cases x with
  | quoted cs => rfl
  | lineComment cs => unfold step; dsimp only; split <;> rfl
  | blockComment cs => unfold step; dsimp only; split <;> rfl
  | code c =>
    unfold step
    dsimp only
    split
    · split <;> rfl
    · split
      · rename_i hbar
        rw [hbar]
        rfl
      · split
        · rename_i hblank
          exact (Depths.after_of_isBlank hblank s.depths).symm
        · split <;> rfl

end Scan

/-! ## The open token between two steps -/

/-- The open token at offset `i`, in front of a character at ground level or inside brackets. -/
structure OpenToken.Reads (f : Nat → Option Place) (t : OpenToken) (ground : Bool) (i : Nat) :
    Prop where
  run : IsRun f t.start t.stop
  le : t.stop ≤ i
  padded : Padding f t.stop i
  atGround : ground = true → t.stop = i
  endsChord : t.endsChord = (f (t.stop - 1)).any Place.closesChord

inductive Scan.Reads (f : Nat → Option Place) : Scan → (lo i : Nat) → Prop
  | between {d : Depths} {lo i : Nat} (hground : d.isGround = true) (hle : lo ≤ i)
      (hs : Silent f lo i) : Reads f ⟨d, none⟩ lo i
  | within {d : Depths} {t : OpenToken} {lo i : Nat} (hlo : lo ≤ t.start)
      (hs : Silent f lo t.start) (ht : t.Reads f d.isGround i) : Reads f ⟨d, some t⟩ lo i

section
variable {f : Nat → Option Place} {i : Nat} {x : Lexeme} {d : Depths}

theorem Lexeme.closesChord_of_mem {p : Place} (hp : p ∈ x.places d) :
    p.closesChord = x.closesChord := by
  obtain ⟨c, hc, rfl⟩ := mem_places hp
  cases x with
  | code b =>
    rw [List.mem_singleton.mp hc]
    rfl
  | _ => rfl

theorem Lexeme.eq_of_opensChord {p : Place} (hp : p ∈ x.places d) (hopen : p.opensChord = true) :
    x = .code '(' ∧ d.isGround = true := by
  obtain ⟨c, hc, rfl⟩ := mem_places hp
  cases x with
  | code b =>
    rw [List.mem_singleton.mp hc] at hopen
    simpa [Place.opensChord, role] using hopen
  | _ => cases hopen

/-- Each offset of the lexeme `x` at offset `i` is read as one of its places. -/
def ReadAt (f : Nat → Option Place) (i : Nat) (d : Depths) (x : Lexeme) : Prop :=
  ∀ o, i ≤ o → o < i + x.length → ∃ p ∈ x.places d, f o = some p

theorem readAt_of_places {xs : List Lexeme} (hf : ∀ j, f (i + j) = (placesOf d (x :: xs))[j]?) :
    ReadAt f i d x := by
  intro o hi ho
  have hlt : o - i < (x.places d).length := by rw [x.length_places]; omega
  refine ⟨(x.places d)[o - i], List.getElem_mem hlt, ?_⟩
  have := hf (o - i)
  rwa [Nat.add_sub_of_le hi, placesOf, List.getElem?_append_left hlt,
    List.getElem?_eq_getElem hlt] at this

theorem places_behind {xs : List Lexeme} (hf : ∀ j, f (i + j) = (placesOf d (x :: xs))[j]?)
    (j : Nat) : f (i + x.length + j) = (placesOf (x.depthsAfter d) xs)[j]? := by
  rw [Nat.add_assoc, hf, placesOf, ← x.length_places d,
    List.getElem?_append_right (Nat.le_add_right ..), Nat.add_sub_cancel_left]

namespace ReadAt

variable (h : ReadAt f i d x)
include h

theorem any_eq {test : Place → Bool} {b : Bool} (hx : ∀ p ∈ x.places d, test p = b) :
    ∀ o, i ≤ o → o < i + x.length → (f o).any test = b := by
  intro o hi ho
  obtain ⟨p, hp, hfo⟩ := h o hi ho
  rw [hfo]
  exact hx p hp

theorem eq_of_seam {o : Nat} (hi : i ≤ o) (ho : o < i + x.length) (hs : IsSeam f o) :
    o = i ∧ x = .code '(' ∧ d.isGround = true := by
  obtain ⟨-, -, -, hopen⟩ := hs
  obtain ⟨p, hp, hfo⟩ := h o hi ho
  rw [hfo] at hopen
  obtain ⟨rfl, hground⟩ := Lexeme.eq_of_opensChord hp hopen
  have : (Lexeme.code '(').length = 1 := rfl
  exact ⟨by omega, rfl, hground⟩

theorem isRun (hpos : 0 < x.length) (hx : ∀ p ∈ x.places d, p.isNotation = true) :
    IsRun f i (i + x.length) where
  lt := Nat.lt_add_of_pos_right hpos
  first := h.any_eq hx i (Nat.le_refl i) (Nat.lt_add_of_pos_right hpos)
  last := h.any_eq hx _ (by omega) (by omega)
  whole := by
    refine h.any_eq fun p hp => Bool.eq_false_iff.mpr fun hgap => ?_
    have := Place.not_isNotation_of_isGap hgap
    simp [hx p hp] at this
  seamless := by
    intro o hlt ho hs
    have := (h.eq_of_seam (Nat.le_of_lt hlt) ho hs).1
    omega

end ReadAt

end

namespace Scan.Reads

variable {f : Nat → Option Place} {s : Scan} {lo i : Nat} (h : s.Reads f lo i)
include h

theorem closed (hend : ∀ t, s.token = some t → Ended f t.stop) : Runs f lo s.closed i := by
  cases h with
  | between hground hle hs => exact ⟨hle, hs⟩
  | within hlo hs ht => exact ⟨hlo, hs, ht.run, hend _ rfl, ht.le, ht.padded.silent⟩

theorem closed_ground (hground : s.depths.isGround = true)
    (hi : (f i).any Place.isGap = true ∨ IsSeam f i) : Runs f lo s.closed i := by
  refine h.closed fun t ht => ?_
  have hstop : t.stop = i := by
    cases h with
    | between => cases ht
    | within hlo hs ht' =>
      cases ht
      exact ht'.atGround hground
  rw [hstop]
  exact hi.imp_right .inl

variable {x : Lexeme} (hread : ReadAt f i s.depths x)
include hread

theorem pass (hground : s.depths.isGround = false)
    (hx : ∀ p ∈ x.places s.depths, p.isNotation = false ∧ p.isGap = false) :
    s.Reads f lo (i + x.length) := by
  cases h with
  | between hground' => rw [hground'] at hground; cases hground
  | within hlo hs ht =>
    have hpad : Padding f i (i + x.length) := by
      intro o hi ho
      exact ⟨hread.any_eq (fun p hp => (hx p hp).1) o hi ho,
        hread.any_eq (fun p hp => (hx p hp).2) o hi ho⟩
    refine .within hlo hs ⟨ht.run, ?_, ht.padded.append hpad, ?_, ht.endsChord⟩
    · exact Nat.le_trans ht.le (Nat.le_add_right ..)
    · intro hground'
      rw [hground'] at hground
      cases hground

theorem grow (hpos : 0 < x.length) (hx : ∀ p ∈ x.places s.depths, p.isNotation = true)
    (hopen : x = .code '(' → s.depths.isGround = true →
      s.token.any OpenToken.endsChord = false) :
    (s.grow i x).Reads f lo (i + x.length) := by
  have hrun := hread.isRun hpos hx
  have hclose : x.closesChord = (f (i + x.length - 1)).any Place.closesChord :=
    (hread.any_eq (fun p hp => Lexeme.closesChord_of_mem hp) _ (by omega) (by omega)).symm
  have hnone : Padding f (i + x.length) (i + x.length) := fun o h₁ h₂ => by omega
  cases h with
  | between hground hle hs =>
    exact .within hle hs ⟨hrun, Nat.le_refl _, hnone, fun _ => rfl, hclose⟩
  | @within d t _ _ hlo hs ht =>
    have hseam : ¬ IsSeam f i := by
      intro hs
      obtain ⟨-, hx', hground⟩ := hread.eq_of_seam (Nat.le_refl i) (by omega) hs
      obtain ⟨k, hk, hclosed, -⟩ := hs
      have hstop := ht.atGround hground
      have hends := ht.endsChord
      rw [show t.stop - 1 = k by omega, hclosed] at hends
      have := hopen hx' hground
      rw [Option.any_some, hends] at this
      cases this
    exact .within hlo hs
      ⟨ht.run.append ht.le ht.padded hrun hseam, Nat.le_refl _, hnone, fun _ => rfl, hclose⟩

theorem part (hpos : 0 < x.length) (hground : s.depths.isGround = true)
    (hx : ∀ p ∈ x.places s.depths, p.isGap = true ∧ p.isBarLine = false) :
    Runs f lo s.closed i ∧ s.close.Reads f i (i + x.length) := by
  have hgap := hread.any_eq fun p hp => (hx p hp).1
  have hbar := hread.any_eq fun p hp => (hx p hp).2
  have hsilent : Silent f i (i + x.length) := by
    intro o hi ho
    exact ⟨not_notation_of_gap (hgap o hi ho), hbar o hi ho⟩
  have hclosed := h.closed_ground hground (.inl (hgap i (Nat.le_refl i) (by omega)))
  exact ⟨hclosed, .between hground (Nat.le_add_right ..) hsilent⟩

omit hread in
theorem bar (hread : ReadAt f i s.depths (.code '|')) (hground : s.depths.isGround = true) :
    Runs f lo (s.closed ++ [.bar]) (i + 1) ∧ s.close.Reads f (i + 1) (i + 1) := by
  have hbar : (f i).any Place.isBarLine = true := by
    refine hread.any_eq (fun p hp => ?_) i (Nat.le_refl i) (Nat.lt_succ_self i)
    rw [Scan.mem_places_code hp]
    simpa [Place.isBarLine] using hground
  have hclosed := h.closed_ground hground (.inl (gap_of_barLine hbar))
  have hline : Runs f i [.bar] (i + 1) :=
    ⟨i, Nat.le_refl i, Silent.refl i, hbar, Nat.le_refl _, Silent.refl _⟩
  exact ⟨hclosed.append hline, .between hground (Nat.le_refl _) (Silent.refl _)⟩

omit hread in
theorem renew (hread : ReadAt f i s.depths (.code '(')) (hground : s.depths.isGround = true)
    (hclose : s.token.any OpenToken.endsChord = true) :
    Runs f lo s.closed i ∧ (s.close.grow i (.code '(')).Reads f i (i + 1) := by
  have hkept : ∀ p ∈ (Lexeme.code '(').places s.depths, p.isNotation = true := by
    intro p hp
    rw [Scan.mem_places_code hp]
    rfl
  have hopen : (f i).any Place.opensChord = true := by
    refine hread.any_eq (fun p hp => ?_) i (Nat.le_refl i) (Nat.lt_succ_self i)
    rw [Scan.mem_places_code hp]
    simpa [Place.opensChord] using hground
  -- at ground level no padding stands between the chord that ended and this one
  have hseam : IsSeam f i := by
    cases h with
    | between => cases hclose
    | within hlo hs ht =>
      have hstop := ht.atGround hground
      have hlt := ht.run.lt
      rw [Option.any_some, ht.endsChord] at hclose
      exact ⟨_, by omega, hclose, hopen⟩
  have hbetween : s.close.Reads f i i := .between hground (Nat.le_refl i) (Silent.refl i)
  have hgrown := hbetween.grow hread Nat.one_pos hkept fun _ _ => rfl
  exact ⟨h.closed_ground hground (.inr hseam), hgrown⟩

end Scan.Reads

/-! ## Steps and runs -/

section
variable {f : Nat → Option Place} {s : Scan} {lo i : Nat}

theorem Scan.Reads.step (h : s.Reads f lo i) {x : Lexeme} (hpos : 0 < x.length)
    (hread : ReadAt f i s.depths x) :
    ∃ mid, Runs f lo (s.step i x).2 mid ∧ (s.step i x).1.Reads f mid (i + x.length) := by
  have hself : Runs f lo [] lo := ⟨Nat.le_refl lo, Silent.refl lo⟩
  have hmoves := s.step_moves i x
  generalize s.step i x = r at hmoves
  cases hmoves with
  | pass hground hx => exact ⟨lo, hself, h.pass hread hground hx⟩
  | part hground hx => exact ⟨i, h.part hread hpos hground hx⟩
  | bar hground hx =>
    subst hx
    exact ⟨i + 1, h.bar hread hground⟩
  | grow hx hopen => exact ⟨lo, hself, h.grow hread hpos hx hopen⟩
  | renew hground hx hclose =>
    subst hx
    exact ⟨i, h.renew hread hground hclose⟩

theorem Scan.Reads.marks (h : s.Reads f lo i) {xs : List Lexeme} (hxs : ∀ x ∈ xs, 0 < x.length)
    (hf : ∀ j, f (i + j) = (placesOf s.depths xs)[j]?) :
    Runs f lo (s.marks i xs) (i + (placesOf s.depths xs).length) := by
  induction xs generalizing s lo i with
  | nil =>
    refine h.closed fun t ht => .inr (.inr fun hi o hstop hlt => ?_)
    cases h with
    | between => cases ht
    | within hlo hs ht' =>
      cases ht
      -- behind the open token there is padding, then the end of the text
      rcases Nat.lt_or_ge o i with hoi | hoi
      · exact ht'.padded o hstop hoi
      · have hnone := hf (o - i)
        rw [Nat.add_sub_of_le hoi] at hnone
        rw [hnone]
        exact ⟨rfl, rfl⟩
  | cons x xs ih =>
    have hpos := hxs x (List.mem_cons_self ..)
    obtain ⟨mid, hms, hs⟩ := h.step hpos (readAt_of_places hf)
    have hrest : ∀ j, f (i + x.length + j) = (placesOf (s.step i x).1.depths xs)[j]? := by
      rw [step_depths]
      exact places_behind hf
    have := ih hs (fun y hy => hxs y (List.mem_cons_of_mem _ hy)) hrest
    rw [step_depths] at this
    rw [placesOf, List.length_append, x.length_places, ← Nat.add_assoc]
    exact hms.append this

end

theorem placeAt?_add (text : List Char) (start k : Nat) :
    placeAt? text start (start + k) = (placesOf .ground (lex (text.drop start)))[k]? := by
  rw [placeAt?, if_pos (Nat.le_add_right ..), Nat.add_sub_cancel_left]
  exact congrArg (·[k]?) (places_eq_placesOf .ground _)

theorem Scan.initial_reads (f : Nat → Option Place) (start : Nat) :
    initial.Reads f start start :=
  .between rfl (Nat.le_refl start) (Silent.refl start)

theorem marksFrom_runs (text : List Char) (start : Nat) :
    Runs (placeAt? text start) start (marksFrom text start)
      (start + (text.drop start).length) := by
  have hplaces : Reader.initial.places (text.drop start) =
      placesOf .ground (lex (text.drop start)) := places_eq_placesOf .ground _
  rw [← Reader.initial.length_places, hplaces]
  exact (Scan.initial_reads _ start).marks (fun x hx => length_pos_of_mem_lex hx)
    (placeAt?_add text start)

/-- The spans are the maximal runs of notation of a reading. -/
structure Tokenizes (f : Nat → Option Place) (spans : List (Nat × Nat)) : Prop where
  covered : ∀ o, (f o).any Place.isNotation = true →
    spans.countP (fun t => t.1 ≤ o ∧ o < t.2) = 1
  whole : ∀ t ∈ spans, ∀ o, t.1 ≤ o → o < t.2 → (f o).any Place.isGap = false
  parted : spans.IsChain (Parted f)
  tight : ∀ t ∈ spans, t.1 < t.2 ∧ (f t.1).any Place.isNotation = true ∧
    (f (t.2 - 1)).any Place.isNotation = true
  seamless : ∀ t ∈ spans, ∀ o, t.1 < o → o < t.2 → ¬ IsSeam f o

theorem marksFrom_tokenizes (text : List Char) :
    Tokenizes (placeAt? text (startOfContent text))
      (tokenSpans (marksFrom text (startOfContent text))) where
  covered := by
    intro o ho
    cases hp : placeAt? text (startOfContent text) o with
    | none => rw [hp] at ho; cases ho
    | some p =>
      obtain ⟨hstart, hstop⟩ := placeAt?_inside hp
      exact (marksFrom_runs text _).covered hstart hstop ho
  whole := by
    intro t ht
    exact ((marksFrom_runs text _).isRun ht).2.whole
  parted := (marksFrom_runs text _).parted
  tight := by
    intro t ht
    have hrun := ((marksFrom_runs text _).isRun ht).2
    exact ⟨hrun.lt, hrun.first, hrun.last⟩
  seamless := by
    intro t ht
    exact ((marksFrom_runs text _).isRun ht).2.seamless

example : tokenSpans (marksFrom "(1)(2) ( 3 ) | /* 4 */ \"5 |\"6".toList 0) =
    [(0, 3), (3, 6), (7, 12), (23, 29)] := by
  decide +kernel

end Tablature
