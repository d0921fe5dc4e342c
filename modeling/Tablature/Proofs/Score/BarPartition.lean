import Mathlib.Data.List.Pairwise
import Mathlib.Data.List.SplitBy
import Tablature.Proofs.Score.BarSpans
import Tablature.Proofs.Score.SelectionSpans

/-!
# A bar divided up by lines

The beats of a bar stand in the order of their lines, so a run of beats that
start on one line holds all of them. The spans of a bar are therefore one for
each line, in order. Each beat of the bar lies in one of them, and the beats of
other bars are outside of all.
-/

namespace Tablature

/-! ## Runs of a list that is ordered by a key -/

section
variable {α : Type} {key : α → Int}

theorem key_eq_of_mem_run {as run : List α} (h : run ∈ as.splitBy fun a b => key a == key b)
    {a b : α} (ha : a ∈ run) (hb : b ∈ run) : key a = key b := by
  let Same (x y : α) : Prop := key x = key y
  have : Trans Same Same Same := ⟨Eq.trans⟩
  have : Std.Symm Same := ⟨fun _ _ => Eq.symm⟩
  have hchain : run.IsChain Same :=
    (List.isChain_of_mem_splitBy h).imp fun _ _ hxy => beq_iff_eq.mp hxy
  have hpairwise : run.Pairwise Same := hchain.pairwise
  exact hpairwise.forall_of_forall (fun x _ => Eq.refl (key x)) ha hb

/-- Neighbouring runs have different keys, and no later run goes back to an earlier key. -/
theorem pairwise_key_lt {runs : List (List α)}
    (hsame : ∀ run ∈ runs, ∀ a ∈ run, ∀ b ∈ run, key a = key b)
    (hsorted : runs.flatten.Pairwise fun a b => key a ≤ key b)
    (hchain : runs.IsChain fun run next =>
      ∃ hr hn, (key (run.getLast hr) == key (next.head hn)) = false) :
    runs.Pairwise fun run run' => ∀ a ∈ run, ∀ b ∈ run', key a < key b := by
  induction runs with
  | nil => exact .nil
  | cons run runs ih =>
    rw [List.flatten_cons, List.pairwise_append] at hsorted
    obtain ⟨-, hrest, hacross⟩ := hsorted
    refine .cons ?_ (ih (fun r hr => hsame r (List.mem_cons_of_mem _ hr)) hrest hchain.tail)
    cases runs with
    | nil => nofun
    | cons next runs =>
      obtain ⟨⟨hr, hn, hdiffer⟩, -⟩ := List.isChain_cons_cons.mp hchain
      have hlast := List.getLast_mem hr
      have hhead := List.head_mem hn
      have hlt : key (run.getLast hr) < key (next.head hn) := by
        have hle := hacross _ hlast _ (List.mem_flatten_of_mem List.mem_cons_self hhead)
        rw [beq_eq_false_iff_ne] at hdiffer
        omega
      intro run' hrun' a ha b hb
      -- the head of the next run is the first of all that come after this one
      have hfirst : key (next.head hn) ≤ key b := by
        obtain ⟨x, xs, rfl⟩ := List.exists_cons_of_ne_nil hn
        rw [List.flatten_cons, List.cons_append] at hrest
        have hbmem := List.mem_flatten_of_mem hrun' hb
        rw [List.flatten_cons, List.cons_append] at hbmem
        rcases List.mem_cons.mp hbmem with rfl | htail
        · exact Int.le_refl _
        · exact List.rel_of_pairwise_cons hrest htail
      have := hsame run List.mem_cons_self a ha _ hlast
      omega

theorem splitBy_rise {as : List α} (hsorted : as.Pairwise fun a b => key a ≤ key b) :
    (as.splitBy fun a b => key a == key b).Pairwise fun run run' =>
      ∀ a ∈ run, ∀ b ∈ run', key a < key b := by
  refine pairwise_key_lt ?_ ?_ (List.isChain_getLast_head_splitBy (fun a b => key a == key b) as)
  · exact fun run hrun a ha b hb => key_eq_of_mem_run hrun ha hb
  · rwa [List.flatten_splitBy]

theorem run_eq_filter {as run : List α} (hsorted : as.Pairwise fun a b => key a ≤ key b)
    (hrun : run ∈ as.splitBy fun a b => key a == key b) {a : α} (ha : a ∈ run) :
    run = as.filter (key · == key a) := by
  obtain ⟨front, back, hsplit⟩ := List.append_of_mem hrun
  have hrise := splitBy_rise hsorted
  rw [hsplit, List.pairwise_append] at hrise
  obtain ⟨-, hback, hfront⟩ := hrise
  have hself : run.filter (key · == key a) = run :=
    List.filter_eq_self.mpr fun b hb => beq_iff_eq.mpr (key_eq_of_mem_run hrun hb ha)
  have hbefore : front.flatten.filter (key · == key a) = [] := by
    refine List.filter_eq_nil_iff.mpr fun b hb => ?_
    obtain ⟨run', hrun', hb⟩ := List.mem_flatten.mp hb
    have := hfront run' hrun' run List.mem_cons_self b hb a ha
    rw [beq_iff_eq]
    omega
  have hbehind : back.flatten.filter (key · == key a) = [] := by
    refine List.filter_eq_nil_iff.mpr fun b hb => ?_
    obtain ⟨run', hrun', hb⟩ := List.mem_flatten.mp hb
    have := List.rel_of_pairwise_cons hback hrun' a ha b hb
    rw [beq_iff_eq]
    omega
  rw [← List.flatten_splitBy (fun a b => key a == key b) as, hsplit, List.flatten_append,
    List.flatten_cons, List.filter_append, List.filter_append, hbefore, hself, hbehind,
    List.nil_append, List.append_nil]

end

/-! ## The spans of a bar -/

namespace BeatMap

def beatsOnLine (m : BeatMap) (bar line : Int) : List Beat :=
  m.beats.filter fun b => b.position.bar = bar ∧ b.span.startLine = line

/-- The spans divide a bar up: each covers what the bar has on one line, and nothing else. -/
structure PartitionsBar (m : BeatMap) (bar : Int) (spans : List Span) : Prop where
  lines : ∀ line, (∃ s ∈ spans, s.startLine = line) ↔
    ∃ b ∈ m.beats, b.position.bar = bar ∧ b.span.startLine = line
  linesRise : spans.Pairwise fun s t => s.startLine < t.startLine
  apart : spans.Pairwise fun s t => s.stop ≤ t.start
  fromFirstToLast : ∀ s ∈ spans, ∃ first last,
    (m.beatsOnLine bar s.startLine).head? = some first ∧
    (m.beatsOnLine bar s.startLine).getLast? = some last ∧
    s = ⟨first.span.start, last.span.stop, first.span.startLine, first.span.startColumn,
      last.span.endLine, last.span.endColumn⟩
  inOne : ∀ b ∈ m.beats, b.position.bar = bar →
    ∃! s, s ∈ spans ∧ s.start ≤ b.span.start ∧ b.span.stop ≤ s.stop
  noOther : ∀ s ∈ spans, ∀ b ∈ m.beats, b.position.bar ≠ bar →
    b.span.stop ≤ s.start ∨ s.stop ≤ b.span.start

theorem mem_beatsOnLine {m : BeatMap} {bar line : Int} {b : Beat} :
    b ∈ m.beatsOnLine bar line ↔ b ∈ m.beats ∧ b.position.bar = bar ∧ b.span.startLine = line := by
  rw [beatsOnLine, List.mem_filter, decide_eq_true_eq]

theorem filter_beatsInBar (m : BeatMap) (bar line : Int) :
    (m.beatsInBar bar).filter (·.span.startLine == line) = m.beatsOnLine bar line := by
  rw [beatsInBar, beatsOnLine, List.filter_filter]
  refine List.filter_congr fun b _ => ?_
  rw [Bool.decide_and, Bool.and_comm]
  rfl

theorem exists_runSpan? {run : List Beat} {b : Beat} (hb : b ∈ run) : ∃ s, runSpan? run = some s := by
  have hne := List.ne_nil_of_mem hb
  exact ⟨_, runSpan?_eq_some_iff.mpr
    ⟨_, _, List.head?_eq_some_head hne, List.getLast?_eq_some_getLast hne, rfl⟩⟩

theorem startLine_of_runSpan? {m : BeatMap} {bar line : Int} {s : Span}
    (h : runSpan? (m.beatsOnLine bar line) = some s) : s.startLine = line := by
  obtain ⟨first, -, hfirst, -, rfl⟩ := runSpan?_eq_some_iff.mp h
  exact (mem_beatsOnLine.mp (List.mem_of_head? hfirst)).2.2

variable {text : List Char} {bar : Int}

theorem ofText_startLine_le : ((ofText text).beatsInBar bar).Pairwise
    fun a b => a.span.startLine ≤ b.span.startLine := by
  refine ((ofText_apart text).imp_of_mem fun {a b} ha hb hapart => ?_).filter _
  obtain ⟨hline, -⟩ := (ofText_ordered text).startsAt a ha
  obtain ⟨hline', -⟩ := (ofText_ordered text).startsAt b hb
  have hrun := ofText_start_lt_stop text ha
  rw [hline, hline']
  exact Int.ofNat_le.mpr (lineOf_mono text (by omega))

/-- The spans of a bar are those of the beats on each of its lines. -/
theorem ofText_mem_barSpans_iff {s : Span} :
    s ∈ (ofText text).barSpans bar ↔ ∃ b ∈ (ofText text).beats, b.position.bar = bar ∧
      runSpan? ((ofText text).beatsOnLine bar b.span.startLine) = some s := by
  have hrun : ∀ run ∈ (ofText text).barRuns bar, ∀ b ∈ run,
      run = (ofText text).beatsOnLine bar b.span.startLine := by
    intro run hrun b hb
    rw [← filter_beatsInBar]
    exact run_eq_filter ofText_startLine_le hrun hb
  rw [barSpans_eq, List.mem_filterMap]
  constructor
  · rintro ⟨run, hmem, hs⟩
    obtain ⟨first, -, hfirst, -⟩ := runSpan?_eq_some_iff.mp hs
    have hb := List.mem_of_head? hfirst
    obtain ⟨hbeat, hbar⟩ := mem_beatsInBar.mp (mem_beatsInBar_of_mem_barRuns hmem hb)
    exact ⟨first, hbeat, hbar, hrun run hmem first hb ▸ hs⟩
  · rintro ⟨b, hbeat, hbar, hs⟩
    have hb := mem_beatsInBar.mpr ⟨hbeat, hbar⟩
    rw [← flatten_barRuns] at hb
    obtain ⟨run, hmem, hb⟩ := List.mem_flatten.mp hb
    exact ⟨run, hmem, hrun run hmem b hb ▸ hs⟩

theorem ofText_barSpans_linesRise :
    ((ofText text).barSpans bar).Pairwise fun s t => s.startLine < t.startLine := by
  refine (splitBy_rise ofText_startLine_le).filterMap runSpan? fun run run' hruns s hs t ht => ?_
  obtain ⟨first, -, hfirst, -, rfl⟩ := runSpan?_eq_some_iff.mp hs
  obtain ⟨first', -, hfirst', -, rfl⟩ := runSpan?_eq_some_iff.mp ht
  exact hruns first (List.mem_of_head? hfirst) first' (List.mem_of_head? hfirst')

theorem ofText_barSpans_covers {b : Beat} (hb : b ∈ (ofText text).beats)
    (hbar : b.position.bar = bar) :
    ∃ s ∈ (ofText text).barSpans bar, s.start ≤ b.span.start ∧ b.span.stop ≤ s.stop := by
  have hline : b ∈ (ofText text).beatsOnLine bar b.span.startLine :=
    mem_beatsOnLine.mpr ⟨hb, hbar, rfl⟩
  obtain ⟨s, hs⟩ := exists_runSpan? hline
  have hapart : ((ofText text).beatsOnLine bar b.span.startLine).Pairwise
      fun a b => a.span.stop ≤ b.span.start := (ofText_apart text).filter _
  have hrun : ∀ a ∈ (ofText text).beatsOnLine bar b.span.startLine, a.span.start < a.span.stop :=
    fun a ha => ofText_start_lt_stop text (mem_beatsOnLine.mp ha).1
  exact ⟨s, ofText_mem_barSpans_iff.mpr ⟨b, hb, hbar, hs⟩, runSpan?_covers hapart hrun hs hline⟩

/-- The beats of a bar come before those of a later one. -/
theorem ofText_stop_le_of_bar_lt {a b : Beat} (ha : a ∈ (ofText text).beats)
    (hb : b ∈ (ofText text).beats) (hlt : a.position.bar < b.position.bar) :
    a.span.stop ≤ b.span.start := by
  obtain ⟨i, hi⟩ := List.getElem?_of_mem ha
  obtain ⟨j, hj⟩ := List.getElem?_of_mem hb
  rcases Nat.lt_trichotomy i j with hij | rfl | hij
  · exact rel_of_getElem? (ofText_apart text) hi hj hij
  · cases hi.symm.trans hj
    omega
  · have hrise : b.position.Precedes a.position := rel_of_getElem? (ofText_rise text) hj hi hij
    have := hrise.bar_le
    omega

theorem ofText_barSpans_partition (text : List Char) (bar : Int) :
    (ofText text).PartitionsBar bar ((ofText text).barSpans bar) where
  lines := by
    intro line
    constructor
    · rintro ⟨s, hs, rfl⟩
      obtain ⟨b, hb, hbar, hspan⟩ := ofText_mem_barSpans_iff.mp hs
      exact ⟨b, hb, hbar, (startLine_of_runSpan? hspan).symm⟩
    · rintro ⟨b, hb, hbar, rfl⟩
      obtain ⟨s, hspan⟩ := exists_runSpan? (mem_beatsOnLine.mpr ⟨hb, hbar, rfl⟩)
      exact ⟨s, ofText_mem_barSpans_iff.mpr ⟨b, hb, hbar, hspan⟩, startLine_of_runSpan? hspan⟩
  linesRise := ofText_barSpans_linesRise
  apart := barSpans_apart (ofText_apart text) bar
  fromFirstToLast := by
    intro s hs
    obtain ⟨b, -, -, hspan⟩ := ofText_mem_barSpans_iff.mp hs
    rw [startLine_of_runSpan? hspan]
    exact runSpan?_eq_some_iff.mp hspan
  inOne := by
    intro b hb hbar
    obtain ⟨s, hs, hcovers⟩ := ofText_barSpans_covers hb hbar
    refine ⟨s, ⟨hs, hcovers⟩, ?_⟩
    rintro t ⟨ht, htcovers⟩
    have hrun := ofText_start_lt_stop text hb
    -- two spans of a bar are apart, and a beat is not empty
    let Apart (s t : Span) : Prop := s.stop ≤ t.start ∨ t.stop ≤ s.start
    have : Std.Symm Apart := ⟨fun _ _ => Or.symm⟩
    have hapart : ((ofText text).barSpans bar).Pairwise Apart :=
      (barSpans_apart (ofText_apart text) bar).imp Or.inl
    by_contra hne
    rcases hapart.forall ht hs hne with h | h <;> omega
  noOther := by
    intro s hs b hb hbar
    obtain ⟨c, -, -, hspan⟩ := ofText_mem_barSpans_iff.mp hs
    obtain ⟨first, last, hfirst, hlast, rfl⟩ := runSpan?_eq_some_iff.mp hspan
    obtain ⟨hmem, rfl, -⟩ := mem_beatsOnLine.mp (List.mem_of_head? hfirst)
    obtain ⟨hmem', hbar', -⟩ := mem_beatsOnLine.mp (List.mem_of_getLast? hlast)
    rcases Int.lt_or_gt_of_ne hbar with hlt | hlt
    · exact .inl (ofText_stop_le_of_bar_lt hb hmem hlt)
    · exact .inr (ofText_stop_le_of_bar_lt hmem' hb (hbar' ▸ hlt))

end BeatMap

end Tablature
