import Mathlib.Data.List.Nodup
import Tablature.Proofs.Notation.GroundStarts
import Tablature.Proofs.Score.TokenBeats

/-!
# Beats and brace groups

The scan counts the braces that are neither in a string nor in a comment, while a
modifier is an annotation by its characters alone. They differ on what has a
brace inside: such a group is a beat, and such an annotation is cut off with a
glued duration up to the first closing brace, whatever is open there.
-/

namespace Tablature

/-- A brace opens at the first character, and it is closed for the first time at the last one. -/
structure IsBraceGroup (f : Nat → Option Place) (start stop : Nat) : Prop where
  opens : (f start).any (fun p => p.role == .code && p.char == '{' && p.brace == 0) = true
  within : ∀ o < stop, start < o → (f o).any (fun p => p.brace != 0) = true
  closes : (f (stop - 1)).any (fun p => p.role == .code && p.char == '}' && p.brace == 1) = true

/-! ## Characters of a slice -/

theorem Reader.places_char {r : Reader} {cs : List Char} {n : Nat} {p : Place}
    (h : (r.places cs)[n]? = some p) : cs[n]? = some p.char := by
  induction cs generalizing r n with
  | nil => simp [places] at h
  | cons c cs ih =>
    cases n with
    | zero =>
      rw [places, List.getElem?_cons_zero, Option.some.injEq] at h
      rw [List.getElem?_cons_zero, ← h]
      rfl
    | succ n =>
      rw [places, List.getElem?_cons_succ] at h
      rw [List.getElem?_cons_succ]
      exact ih h

theorem placeAt?_char {text : List Char} {start o : Nat} {p : Place}
    (h : placeAt? text start o = some p) : text[o]? = some p.char := by
  unfold placeAt? at h
  split at h
  · rename_i hle
    have := Reader.places_char h
    rwa [List.getElem?_drop, Nat.add_sub_of_le hle] at this
  · cases h

theorem mem_slice_iff {text : List Char} {start stop : Nat} {c : Char} :
    c ∈ slice text start stop ↔ ∃ o, start ≤ o ∧ o < stop ∧ text[o]? = some c := by
  rw [slice, List.mem_iff_getElem?]
  constructor
  · rintro ⟨n, hn⟩
    rw [List.getElem?_take] at hn
    split at hn
    · rw [List.getElem?_drop] at hn
      exact ⟨start + n, by omega, by omega, hn⟩
    · cases hn
  · rintro ⟨o, hstart, hstop, ho⟩
    refine ⟨o - start, ?_⟩
    rw [List.getElem?_take, if_pos (by omega), List.getElem?_drop, Nat.add_sub_of_le hstart, ho]

theorem slice_append {start mid stop : Nat} (text : List Char) (h : start ≤ mid) (h' : mid ≤ stop) :
    slice text start stop = slice text start mid ++ slice text mid stop := by
  have hmid : mid = start + (mid - start) := by omega
  have hlength : stop - start = (mid - start) + (stop - mid) := by omega
  have hdrop : (text.drop start).drop (mid - start) = text.drop mid := by
    rw [List.drop_drop, ← hmid]
  rw [slice, slice, slice, hlength, List.take_add, hdrop]

theorem slice_singleton {text : List Char} {o : Nat} {c : Char} (h : text[o]? = some c) :
    slice text o (o + 1) = [c] := by
  obtain ⟨hlt, rfl⟩ := List.getElem?_eq_some_iff.mp h
  rw [slice, Nat.add_sub_cancel_left, List.drop_eq_getElem_cons hlt]
  rfl

/-! ## Groups as they are written -/

section
variable {text : List Char} {first start stop : Nat}
  (h : IsBraceGroup (placeAt? text first) start stop)
include h

theorem IsBraceGroup.ends : text[start]? = some '{' ∧ text[stop - 1]? = some '}' ∧ start ≠ stop - 1 := by
  obtain ⟨p, hp, hopens⟩ := (Option.any_eq_true _ _).mp h.opens
  obtain ⟨q, hq, hcloses⟩ := (Option.any_eq_true _ _).mp h.closes
  simp only [Bool.and_eq_true, beq_iff_eq] at hopens hcloses
  refine ⟨hopens.1.2 ▸ placeAt?_char hp, hcloses.1.2 ▸ placeAt?_char hq, fun hsame => ?_⟩
  rw [← hsame, hp, Option.some.injEq] at hq
  rw [← hq, hopens.2] at hcloses
  cases hcloses.2

theorem IsBraceGroup.slice_eq (hlt : start < stop) :
    start + 1 < stop ∧
      slice text start stop = '{' :: (slice text (start + 1) (stop - 1) ++ ['}']) := by
  obtain ⟨hopen, hclose, hne⟩ := h.ends
  have hlast : stop = stop - 1 + 1 := by omega
  refine ⟨by omega, ?_⟩
  calc slice text start stop
      = slice text start (start + 1) ++ slice text (start + 1) stop :=
        slice_append text (Nat.le_succ start) hlt
    _ = '{' :: slice text (start + 1) stop := by rw [slice_singleton hopen, List.singleton_append]
    _ = '{' :: (slice text (start + 1) (stop - 1) ++ slice text (stop - 1) stop) := by
        rw [← slice_append text (by omega) (Nat.sub_le stop 1)]
    _ = '{' :: (slice text (start + 1) (stop - 1) ++ ['}']) := by
        rw [hlast, Nat.add_sub_cancel, slice_singleton hclose]

/-- A group is a modifier unless it has a brace inside. -/
theorem IsBraceGroup.modifierLength?_ne_none_iff (hlt : start < stop) :
    modifierLength? (slice text start stop) ≠ none ↔
      ∃ o c, start < o ∧ o + 1 < stop ∧ text[o]? = some c ∧ isBrace c = true := by
  obtain ⟨-, hslice⟩ := h.slice_eq hlt
  have hannotation : PureModifier (slice text start stop) ↔
      ∀ c ∈ slice text (start + 1) (stop - 1), isBrace c = false := by
    rw [hslice]
    constructor
    · rintro (⟨digits, rest, -, -, -, hcolon⟩ | ⟨inner, hinner, hbraces⟩)
      · cases hcolon
      · rw [List.cons.injEq, List.append_cancel_right_eq] at hbraces
        rwa [hbraces.2]
    · intro hinner
      exact .inr ⟨_, hinner, rfl⟩
  rw [Ne, modifierLength?_eq_none_iff, hannotation]
  constructor
  · intro hbrace
    by_contra hnone
    refine hbrace fun c hc => ?_
    obtain ⟨o, ho, hstop, hoc⟩ := mem_slice_iff.mp hc
    rw [Bool.eq_false_iff]
    exact fun hc => hnone ⟨o, c, ho, by omega, hoc, hc⟩
  · rintro ⟨o, c, ho, hstop, hoc, hc⟩ hall
    have := hall c (mem_slice_iff.mpr ⟨o, ho, by omega, hoc⟩)
    rw [hc] at this
    cases this

end

/-! ## What is cut off with a glued duration -/

theorem DurationEnd.eq_nil_or_concat {cs : List Char} (h : DurationEnd cs) :
    cs = [] ∨ ∃ front c, cs = front ++ [c] ∧ (c = '.' ∨ c = '}') := by
  cases h with
  | plain h =>
    rcases h with rfl | ⟨inner, -, rfl⟩
    · exact .inl rfl
    · exact .inr ⟨'{' :: inner, '}', rfl, .inr rfl⟩
  | dotted h =>
    rcases h with rfl | ⟨inner, -, rfl⟩
    · exact .inr ⟨[], '.', rfl, .inl rfl⟩
    · exact .inr ⟨'.' :: '{' :: inner, '}', rfl, .inr rfl⟩

theorem GluedDuration.getLast? {cs : List Char} (h : GluedDuration cs) {c : Char}
    (hc : cs.getLast? = some c) : c ≠ '/' ∧ c ≠ '*' := by
  obtain ⟨value, hvalue, rest, hrest, rfl⟩ := h
  rcases hrest.eq_nil_or_concat with rfl | ⟨front, d, rfl, hd⟩
  · rw [List.append_nil] at hc
    rcases List.mem_cons.mp (List.mem_of_getLast? hc) with rfl | hmem
    · decide
    · have hdigit := (noteValues_digits hvalue).2 c hmem
      constructor
      · rintro rfl
        exact absurd hdigit (by decide)
      · rintro rfl
        exact absurd hdigit (by decide)
  · rw [← List.append_assoc, ← List.cons_append, List.getLast?_concat, Option.some.injEq] at hc
    subst hc
    rcases hd with rfl | rfl
    · decide
    · decide

theorem slice_take {text : List Char} {start stop n : Nat} (h : start + n ≤ stop) :
    (slice text start stop).take n = slice text start (start + n) := by
  rw [slice, slice, List.take_take, Nat.add_sub_cancel_left, Nat.min_eq_left (by omega)]

theorem readerAt_behind {text : List Char} {first start : Nat} (hle : first ≤ start)
    (h : readerAt text first start = .initial) (n : Nat) :
    readerAt text first (start + n) = Reader.initial.upTo (text.drop start) n := by
  unfold readerAt at h ⊢
  rw [Nat.sub_add_comm hle, Reader.upTo_add, h, List.drop_drop, Nat.add_sub_of_le hle]

theorem Runs.stops_rise {f : Nat → Option Place} {ms : List Mark} {lo hi : Nat}
    (h : Runs f lo ms hi) : (tokenSpans ms).Pairwise fun t u => t.2 < u.2 := by
  induction ms generalizing lo with
  | nil => exact .nil
  | cons m ms ih =>
    cases m with
    | bar =>
      obtain ⟨k, -, -, -, h⟩ := h
      exact ih h
    | token start stop =>
      obtain ⟨-, -, -, -, h⟩ := h
      refine .cons (fun u hu => ?_) (ih h)
      obtain ⟨hle, hrun⟩ := h.isRun hu
      exact Nat.lt_of_le_of_lt hle hrun.lt

/-! ## Beats of a text -/

namespace BeatMap

variable (text : List Char)

theorem tokens_run {t : Nat × Nat} (ht : t ∈ tokens text) :
    startOfContent text ≤ t.1 ∧ IsRun (placeAt? text (startOfContent text)) t.1 t.2 :=
  (marksFrom_runs text _).isRun ht

/-- No two tokens end at one place. -/
theorem tokens_stop_nodup : ((tokens text).map Prod.snd).Nodup :=
  List.pairwise_map.mpr ((marksFrom_runs text _).stops_rise.imp Nat.ne_of_lt)

theorem ofText_isBeat_iff {t : Nat × Nat} (ht : t ∈ tokens text) :
    (∃ b ∈ (ofText text).beats, b.span.stop = t.2) ↔ modifierLength? (slice text t.1 t.2) ≠ none := by
  constructor
  · rintro ⟨b, hb, hstop⟩ hnone
    obtain ⟨u, hu, n, hn, hspan⟩ := ofText_token text hb
    rw [hspan] at hstop
    have hsame := List.inj_on_of_nodup_map (tokens_stop_nodup text) hu ht (Int.ofNat_inj.mp hstop)
    rw [hsame, hnone] at hn
    cases hn
  · intro hsome
    obtain ⟨n, hn⟩ := Option.ne_none_iff_exists'.mp hsome
    have hspan : (LineIndex.ofText text).span (t.1 + n) t.2 ∈ (ofText text).beats.map Beat.span := by
      rw [ofText_spans, List.mem_filterMap]
      exact ⟨t, ht, by simp [tokenSpan?, hn]⟩
    obtain ⟨b, hb, hb'⟩ := List.mem_map.mp hspan
    exact ⟨b, hb, by rw [hb']; rfl⟩

theorem readerAt_beat {b : Beat} (hb : b ∈ (ofText text).beats) :
    ∃ t ∈ tokens text, b.span.stop = t.2 ∧ t.1 ≤ b.span.start ∧
      (slice text t.1 b.span.start.toNat = [] ∨ GluedDuration (slice text t.1 b.span.start.toNat)) ∧
      readerAt text (startOfContent text) b.span.start.toNat =
        Reader.initial.afterAll (slice text t.1 b.span.start.toNat) := by
  obtain ⟨t, ht, n, hn, hspan⟩ := ofText_token text hb
  obtain ⟨hle, hrun⟩ := tokens_run text ht
  have hstart : b.span.start.toNat = t.1 + n := by rw [hspan]; rfl
  have hlength : t.2 ≤ text.length :=
    (marksFrom_laid (startOfContent_le text)).stop_le (mem_tokenSpans.mp ht)
  have hlt : t.1 + n < t.2 := add_modifierLength?_lt hrun.lt hlength hn
  have hcut : slice text t.1 (t.1 + n) = [] ∨ GluedDuration (slice text t.1 (t.1 + n)) := by
    rw [← slice_take (Nat.le_of_lt hlt)]
    rcases modifierLength?_cut hn with rfl | ⟨front, back, hfront, htoken, rfl⟩
    · exact .inl List.take_zero
    · rw [htoken, List.take_left]
      exact .inr hfront
  have hlast : ∀ c, ((text.drop t.1).take n).getLast? = some c → c ≠ '/' ∧ c ≠ '*' := by
    intro c hc
    rcases hcut with hnil | hglued
    · rw [slice, Nat.add_sub_cancel_left] at hnil
      rw [hnil] at hc
      cases hc
    · rw [slice, Nat.add_sub_cancel_left] at hglued
      exact hglued.getLast? hc
  refine ⟨t, ht, by rw [hspan]; rfl, ?_, by rwa [hstart], ?_⟩
  · rw [hspan]
    exact Int.ofNat_le.mpr (Nat.le_add_right _ _)
  · rw [hstart, readerAt_behind hle (readerAt_token ht), Reader.upTo_eq_afterAll _ hlast, slice,
      Nat.add_sub_cancel_left]

theorem ofText_groups :
    (∀ t ∈ tokens text, IsBraceGroup (placeAt? text (startOfContent text)) t.1 t.2 →
      ((∃ b ∈ (ofText text).beats, b.span.stop = t.2) ↔
        ∃ o c, t.1 < o ∧ o + 1 < t.2 ∧ text[o]? = some c ∧ isBrace c = true)) ∧
    ∀ b ∈ (ofText text).beats, ∃ t ∈ tokens text, b.span.stop = t.2 ∧ t.1 ≤ b.span.start ∧
      let cut := slice text t.1 b.span.start.toNat
      (cut = [] ∨ GluedDuration cut) ∧
        (readerAt text (startOfContent text) b.span.start.toNat = .initial ↔
          Reader.initial.afterAll cut = .initial) := by
  constructor
  · intro t ht hgroup
    rw [ofText_isBeat_iff text ht]
    exact hgroup.modifierLength?_ne_none_iff (tokens_run text ht).2.lt
  · intro b hb
    obtain ⟨t, ht, hstop, hstart, hcut, hreader⟩ := readerAt_beat text hb
    exact ⟨t, ht, hstop, hstart, hcut, by rw [hreader]⟩

/-- The brace in the string closes both annotations by their characters, and neither for the scan. -/
theorem ofText_groups_quotedBrace :
    let text := "\x7btxt \"\x7d\"\x7d :8\x7btxt \"\x7d\"\x7d 3.2".toList
    let t := (0, 9)
    let b : Beat := ⟨⟨0, 1⟩, ⟨19, 21, 0, 19, 0, 21⟩⟩
    (t ∈ tokens text ∧ IsBraceGroup (placeAt? text (startOfContent text)) t.1 t.2 ∧
        b ∈ (ofText text).beats) ∧
      ((∃ b ∈ (ofText text).beats, b.span.stop = t.2) ↔
        ∃ o c, t.1 < o ∧ o + 1 < t.2 ∧ text[o]? = some c ∧ isBrace c = true) ∧
      ∃ t ∈ tokens text, b.span.stop = t.2 ∧ t.1 ≤ b.span.start ∧
        let cut := slice text t.1 b.span.start.toNat
        (cut = [] ∨ GluedDuration cut) ∧
          (readerAt text (startOfContent text) b.span.start.toNat = .initial ↔
            Reader.initial.afterAll cut = .initial) := by
  intro text t b
  have ht : t ∈ tokens text := by decide +kernel
  have hgroup : IsBraceGroup (placeAt? text (startOfContent text)) t.1 t.2 :=
    ⟨by decide +kernel, by decide +kernel, by decide +kernel⟩
  have hb : b ∈ (ofText text).beats := by decide +kernel
  exact ⟨⟨ht, hgroup, hb⟩, (ofText_groups text).1 t ht hgroup, (ofText_groups text).2 b hb⟩

/-- A group is a beat, and another beat begins inside of an annotation. -/
theorem groups_are_beats :
    (¬ ∀ text, ∀ t ∈ tokens text, IsBraceGroup (placeAt? text (startOfContent text)) t.1 t.2 →
      ∀ b ∈ (ofText text).beats, b.span.stop ≠ t.2) ∧
    ¬ ∀ text, ∀ b ∈ (ofText text).beats,
      readerAt text (startOfContent text) b.span.start.toNat = .initial := by
  let text := "\x7btxt \"\x7d\"\x7d :8\x7btxt \"\x7d\"\x7d 3.2".toList
  constructor
  · intro h
    have hgroup : IsBraceGroup (placeAt? text (startOfContent text)) 0 9 :=
      ⟨by decide +kernel, by decide +kernel, by decide +kernel⟩
    have hb : (⟨⟨0, 0⟩, ⟨0, 9, 0, 0, 0, 9⟩⟩ : Beat) ∈ (ofText text).beats := by decide +kernel
    exact h text (0, 9) (by decide +kernel) hgroup _ hb rfl
  · intro h
    have hb : (⟨⟨0, 1⟩, ⟨19, 21, 0, 19, 0, 21⟩⟩ : Beat) ∈ (ofText text).beats := by decide +kernel
    exact absurd (h text _ hb) (by decide +kernel)

end BeatMap

end Tablature
