import Mathlib.Data.List.Nodup
import Tablature.Proofs.Score.BarSpans
import Tablature.Proofs.Score.Resolution

/-!
# The span of a selection

A selection covers the text from the beat that its first place resolves to, to
the end of the beat that its last place resolves to. It covers nothing when
there are no beats, or when the last of the two beats stands in front of the
first. A selection of one place covers what playback covers there, and falls
back to a nearest beat where playback covers nothing.
-/

namespace Tablature

theorem rel_of_getElem? {α : Type} {R : α → α → Prop} {as : List α} (h : as.Pairwise R) {i j : Nat}
    {a b : α} (ha : as[i]? = some a) (hb : as[j]? = some b) (hlt : i < j) : R a b := by
  obtain ⟨hi, rfl⟩ := List.getElem?_eq_some_iff.mp ha
  obtain ⟨hj, rfl⟩ := List.getElem?_eq_some_iff.mp hb
  exact List.pairwise_iff_getElem.mp h i j hi hj hlt

/-- Beats that are apart and in order cover some text from one to another, unless they are taken
backwards. -/
theorem start_lt_stop_iff {beats : List Beat}
    (hapart : beats.Pairwise fun a b => a.span.stop ≤ b.span.start)
    (hrun : ∀ b ∈ beats, b.span.start < b.span.stop) {i j : Nat} {a b : Beat}
    (ha : beats[i]? = some a) (hb : beats[j]? = some b) :
    a.span.start < b.span.stop ↔ i ≤ j := by
  have harun := hrun a (List.mem_of_getElem? ha)
  have hbrun := hrun b (List.mem_of_getElem? hb)
  rcases Nat.lt_trichotomy i j with hlt | rfl | hlt
  · have : a.span.stop ≤ b.span.start := rel_of_getElem? hapart ha hb hlt
    omega
  · cases ha.symm.trans hb
    omega
  · have : b.span.stop ≤ a.span.start := rel_of_getElem? hapart hb ha hlt
    omega

namespace BeatMap

theorem resolve?_mem {m : BeatMap} {p : ScorePosition} {b : Beat} (h : m.resolve? p = some b) :
    b ∈ m.beats := by
  obtain ⟨i, hi, -⟩ := resolvesTo_of_resolve? h
  exact List.mem_of_getElem? hi

/-- Both beats of a text lie within it, so that of the two only the order can be wrong. -/
theorem ofText_selectionSpan?_eq {text : List Char} {s : Selection} {a b : Beat}
    (ha : (ofText text).resolve? s.first = some a) (hb : (ofText text).resolve? s.last = some b) :
    (ofText text).selectionSpan? text.length s =
      if a.span.start < b.span.stop then some (a.span.hull b.span) else none := by
  obtain ⟨hstart, -, -⟩ := ofText_inText (resolve?_mem ha)
  obtain ⟨-, -, hstop⟩ := ofText_inText (resolve?_mem hb)
  simp [selectionSpan?, ha, hb, Span.hull, hstart, hstop]

theorem selectionSpan?_of_nil {m : BeatMap} (h : m.beats = []) (textLength : Nat) (s : Selection) :
    m.selectionSpan? textLength s = none := by
  rw [selectionSpan?, resolve?_eq_none_iff.mpr h]
  rfl

/-- The lines and columns of a hull are those of its ends. -/
theorem ofText_hull {text : List Char} {a b : Beat} (ha : a ∈ (ofText text).beats)
    (hb : b ∈ (ofText text).beats) :
    a.span.hull b.span = ⟨a.span.start, b.span.stop,
      lineOf text a.span.start.toNat, columnOf text a.span.start.toNat,
      lineOf text b.span.stop.toNat, columnOf text b.span.stop.toNat⟩ := by
  obtain ⟨hline, hcolumn⟩ := (ofText_ordered text).startsAt a ha
  obtain ⟨hline', hcolumn'⟩ := (ofText_ordered text).endsAt b hb
  rw [← hline, ← hcolumn, ← hline', ← hcolumn']
  rfl

/-- Nothing is covered when the last beat stands in front of the first, and all from the one to the
other if not. -/
theorem ofText_selectionSpan?_cases {text : List Char} {s : Selection} {i j : Nat} {a b : Beat}
    (hi : (ofText text).beats[i]? = some a) (ha : (ofText text).resolve? s.first = some a)
    (hj : (ofText text).beats[j]? = some b) (hb : (ofText text).resolve? s.last = some b) :
    j < i ∧ (ofText text).selectionSpan? text.length s = none ∨
      i ≤ j ∧ a.span.start < b.span.stop ∧
        (ofText text).selectionSpan? text.length s = some (a.span.hull b.span) := by
  have horder : a.span.start < b.span.stop ↔ i ≤ j :=
    start_lt_stop_iff (ofText_apart text) (fun _ => ofText_start_lt_stop text) hi hj
  rw [ofText_selectionSpan?_eq ha hb]
  by_cases hcovers : a.span.start < b.span.stop
  · exact .inr ⟨horder.mp hcovers, hcovers, if_pos hcovers⟩
  · exact .inl ⟨Nat.not_le.mp (mt horder.mpr hcovers), if_neg hcovers⟩

/-- A selection covers its two beats and all between them. It covers nothing in a text without
beats, and when its last beat stands in front of its first. -/
theorem ofText_selectionSpan (text : List Char) (s : Selection) :
    let beats := (ofText text).beats
    let span? := (ofText text).selectionSpan? text.length s
    beats = [] ∧ span? = none ∨
    ∃ i j first last, (∀ k, ResolvesTo beats s.first k ↔ k = i) ∧
      (∀ k, ResolvesTo beats s.last k ↔ k = j) ∧
      beats[i]? = some first ∧ beats[j]? = some last ∧
      (j < i ∧ span? = none ∨
        i ≤ j ∧ 0 ≤ first.span.start ∧ first.span.start < last.span.stop ∧
          last.span.stop ≤ text.length ∧
          span? = some ⟨first.span.start, last.span.stop,
            lineOf text first.span.start.toNat, columnOf text first.span.start.toNat,
            lineOf text last.span.stop.toNat, columnOf text last.span.stop.toNat⟩) := by
  intro beats span?
  by_cases hne : beats = []
  · exact .inl ⟨hne, selectionSpan?_of_nil hne _ s⟩
  · obtain ⟨i, first, hi, hfirst, hresolves⟩ := resolve?_of_ne_nil hne s.first
    obtain ⟨j, last, hj, hlast, hresolves'⟩ := resolve?_of_ne_nil hne s.last
    refine .inr ⟨i, j, first, last, hresolves, hresolves', hi, hj, ?_⟩
    rcases ofText_selectionSpan?_cases hi hfirst hj hlast with hnone | ⟨hle, hcovers, hspan⟩
    · exact .inl hnone
    · have hmem := resolve?_mem hfirst
      have hmem' := resolve?_mem hlast
      rw [ofText_hull hmem hmem'] at hspan
      exact .inr ⟨hle, (ofText_inText hmem).1, hcovers, (ofText_inText hmem').2.2, hspan⟩

/-- The second bar has no beats and two beats are equally near to its second place, of which the
earlier one counts. The place behind the last bar is nearest to the first beat of this bar. -/
theorem ofText_selectionSpan_missingBar :
    let text := "1 2 | | 3 4".toList
    let m := ofText text
    let s : Selection := ⟨⟨1, 1⟩, ⟨5, 0⟩⟩
    m.beats.map Beat.position = [⟨0, 0⟩, ⟨0, 1⟩, ⟨2, 0⟩, ⟨2, 1⟩] ∧
      ResolvesTo m.beats s.first 1 ∧ ResolvesTo m.beats s.last 2 ∧
      m.selectionSpan? text.length s = some ⟨2, 9, 0, 2, 0, 9⟩ := by
  intro text m s
  have hbeats : m.beats =
      [⟨⟨0, 0⟩, ⟨0, 1, 0, 0, 0, 1⟩⟩, ⟨⟨0, 1⟩, ⟨2, 3, 0, 2, 0, 3⟩⟩,
        ⟨⟨2, 0⟩, ⟨8, 9, 0, 8, 0, 9⟩⟩, ⟨⟨2, 1⟩, ⟨10, 11, 0, 10, 0, 11⟩⟩] := by
    decide +kernel
  have hfirst : ResolvesTo m.beats s.first 1 := by
    rw [hbeats]
    exact .nearest (by decide) (.tail (by decide) (.head (by decide)))
  have hlast : ResolvesTo m.beats s.last 2 := by
    rw [hbeats]
    exact .nearest (by decide) (.tail (by decide) (.tail (by decide) (.head (by decide))))
  refine ⟨by rw [hbeats]; rfl, hfirst, hlast, ?_⟩
  rcases ofText_selectionSpan text s with ⟨hnil, -⟩ | ⟨i, j, a, b, hi, hj, ha, hb, h⟩
  · exact absurd (hbeats.symm.trans hnil) (List.cons_ne_nil _ _)
  · obtain rfl := (hi 1).mp hfirst
    obtain rfl := (hj 2).mp hlast
    change m.beats[1]? = some a at ha
    change m.beats[2]? = some b at hb
    rw [hbeats] at ha hb
    cases ha
    cases hb
    rcases h with ⟨hlt, -⟩ | ⟨-, -, -, -, hspan⟩
    · omega
    · exact hspan

/-! ## Selections of one place -/

theorem ofText_selectionSpan?_single (text : List Char) (p : ScorePosition) :
    (ofText text).selectionSpan? text.length ⟨p, p⟩ = ((ofText text).resolve? p).map Beat.span := by
  cases hb : (ofText text).resolve? p with
  | none => exact selectionSpan?_of_nil (resolve?_eq_none_iff.mp hb) _ _
  | some b =>
    have hcovers : b.span.start < b.span.stop := ofText_start_lt_stop text (resolve?_mem hb)
    rw [ofText_selectionSpan?_eq (s := ⟨p, p⟩) hb hb, if_pos hcovers]
    rfl

theorem ofText_find? {text : List Char} {b : Beat} (hb : b ∈ (ofText text).beats) :
    (ofText text).find? b.position = some b := by
  cases hfound : (ofText text).find? b.position with
  | none => exact absurd rfl (find?_eq_none_iff.mp hfound b hb)
  | some c =>
    have hc : c ∈ (ofText text).beats := List.mem_of_find?_eq_some hfound
    have hsame := List.find?_some hfound
    rw [beq_iff_eq] at hsame
    rw [List.inj_on_of_nodup_map (ofText_ordered text).distinct hc hb hsame]

/-- A selection of one place and playback at this place cover the same span, that of the beat there
if there is one. Playback covers nothing when the bar has no beats, the selection when the text has
none. -/
theorem ofText_selectionSpan?_playback (text : List Char) (p : ScorePosition) :
    let m := ofText text
    let selected := m.selectionSpan? text.length ⟨p, p⟩
    let played := m.playbackSpan? p
    (selected = none ↔ m.beats = []) ∧
      (∀ span, played = some span → selected = some span) ∧
      (played = none ↔ ∀ b ∈ m.beats, b.position.bar ≠ p.bar) ∧
      ∀ b ∈ m.beats, b.position = p → selected = some b.span ∧ played = some b.span := by
  intro m selected played
  have hselected : selected = (m.resolve? p).map Beat.span := ofText_selectionSpan?_single text p
  have hagree : ∀ span, played = some span → selected = some span := by
    intro span hspan
    obtain ⟨b, hb, rfl⟩ := Option.map_eq_some_iff.mp hspan
    rw [hselected, resolve?, hb]
    rfl
  refine ⟨?_, hagree, ?_, ?_⟩
  · rw [hselected, Option.map_eq_none_iff, resolve?_eq_none_iff]
  · exact Option.map_eq_none_iff.trans findOrFirst?_eq_none_iff
  · rintro b hb rfl
    have hplayed : played = some b.span := by
      show (m.findOrFirst? b.position).map Beat.span = some b.span
      rw [findOrFirst?, ofText_find? hb]
      rfl
    exact ⟨hagree _ hplayed, hplayed⟩

/-- The third bar has two beats: the fifth of it falls back to the first, the second is there. -/
theorem ofText_selectionSpan?_playback_thirdBar :
    let text := "1 2 | | (3 4) 5".toList
    let m := ofText text
    (m.playbackSpan? ⟨2, 4⟩ = some ⟨8, 13, 0, 8, 0, 13⟩ ∧
      m.selectionSpan? text.length ⟨⟨2, 4⟩, ⟨2, 4⟩⟩ = some ⟨8, 13, 0, 8, 0, 13⟩) ∧
    (⟨⟨2, 1⟩, ⟨14, 15, 0, 14, 0, 15⟩⟩ ∈ m.beats ∧
      m.selectionSpan? text.length ⟨⟨2, 1⟩, ⟨2, 1⟩⟩ = some ⟨14, 15, 0, 14, 0, 15⟩ ∧
      m.playbackSpan? ⟨2, 1⟩ = some ⟨14, 15, 0, 14, 0, 15⟩) := by
  intro text m
  have hplayed : m.playbackSpan? ⟨2, 4⟩ = some ⟨8, 13, 0, 8, 0, 13⟩ := by decide +kernel
  have hmem : (⟨⟨2, 1⟩, ⟨14, 15, 0, 14, 0, 15⟩⟩ : Beat) ∈ m.beats := by decide +kernel
  obtain ⟨-, hagree, -, -⟩ := ofText_selectionSpan?_playback text ⟨2, 4⟩
  obtain ⟨-, -, -, hthere⟩ := ofText_selectionSpan?_playback text ⟨2, 1⟩
  exact ⟨⟨hplayed, hagree _ hplayed⟩, hmem, hthere _ hmem rfl⟩

end BeatMap

end Tablature
