import Mathlib.Data.List.Forall2
import Tablature.Proofs.Notation.JoinedReading
import Tablature.Proofs.Score.BarNumber

/-!
# Beats of texts joined at a bar line

A beat owes its place in the score to the marks in front of it and its offsets to
its token. So a bar line at ground level cuts a text into two whose beats do not
depend on each other: those of the second are moved by what is in front of it.

Where the notation begins, the scan knows nothing of what stands in front. Two
headers that end where the notation begins leave the same beats, at the same
distance from their ends.
-/

namespace Tablature

structure Extent where
  position : ScorePosition
  start : Int
  stop : Int
deriving Repr, DecidableEq

def Beat.extent (b : Beat) : Extent := ⟨b.position, b.span.start, b.span.stop⟩

def Extent.moved (bars offset : Nat) (e : Extent) : Extent :=
  ⟨⟨e.position.bar + bars, e.position.beat⟩, e.start + offset, e.stop + offset⟩

@[simp] theorem Extent.moved_zero : Extent.moved 0 0 = id := by
  funext e
  simp [moved]

/-! ## Tokens of joined texts -/

theorem slice_append_left {front : List Char} {start stop : Nat} (h : stop ≤ front.length)
    (back : List Char) : slice (front ++ back) start stop = slice front start stop := by
  rcases Nat.lt_or_ge stop start with hlt | hge
  · rw [slice, slice, Nat.sub_eq_zero_of_le (Nat.le_of_lt hlt), List.take_zero, List.take_zero]
  · rw [slice, slice, List.drop_append_of_le_length (Nat.le_trans hge h),
      List.take_append_of_le_length (by rw [List.length_drop]; omega)]

theorem slice_append_right (front back : List Char) (start stop : Nat) :
    slice (front ++ back) (start + front.length) (stop + front.length) = slice back start stop := by
  rw [slice, slice, Nat.add_comm start, List.drop_length_add_append, Nat.add_comm front.length,
    Nat.add_sub_add_right]

/-! ## Numbering -/

section
variable (text text' : List Char) (ix ix' : LineIndex)

theorem numberBeats_append_bar (bar beat : Nat) (ms ms' : List Mark) :
    numberBeats text ix bar beat (ms ++ .bar :: ms') =
      numberBeats text ix bar beat ms ++
        numberBeats text ix (bar + ms.count .bar + 1) 0 ms' := by
  fun_induction numberBeats text ix bar beat ms with
  | case1 => rfl
  | case2 beat bar ms ih =>
    rw [List.cons_append, numberBeats, ih, List.count_cons_self, Nat.add_right_comm bar,
      Nat.add_assoc bar]
  | case3 bar beat start stop ms hn ih =>
    rw [List.cons_append, numberBeats, hn, List.count_cons_of_ne (by simp)]
    exact ih
  | case4 bar beat start stop ms n hn ih =>
    rw [List.cons_append, numberBeats, hn, List.count_cons_of_ne (by simp), List.cons_append, ← ih]

variable {text text'}

/-- Beats take their offsets from the marks and read the text only at its tokens. -/
theorem numberBeats_moved (ms : List Mark) (k : Nat)
    (h : ∀ start stop, .token start stop ∈ ms →
      slice text' (start + k) (stop + k) = slice text start stop) (bars bar beat : Nat) :
    (numberBeats text' ix' (bar + bars) beat (ms.map (Mark.moved k))).map Beat.extent =
      ((numberBeats text ix bar beat ms).map Beat.extent).map (Extent.moved bars k) := by
  fun_induction numberBeats text ix bar beat ms with
  | case1 => rfl
  | case2 beat bar ms ih =>
    have := ih fun start stop hm => h start stop (List.mem_cons_of_mem _ hm)
    rw [Nat.add_right_comm] at this
    exact this
  | case3 bar beat start stop ms hn ih =>
    have := ih fun start stop hm => h start stop (List.mem_cons_of_mem _ hm)
    rw [← h start stop (List.mem_cons_self ..)] at hn
    rw [List.map_cons, Mark.moved, numberBeats, hn]
    exact this
  | case4 bar beat start stop ms n hn ih =>
    have := ih fun start stop hm => h start stop (List.mem_cons_of_mem _ hm)
    rw [← h start stop (List.mem_cons_self ..)] at hn
    have hextent : Beat.extent ⟨⟨(bar + bars : Nat), beat⟩, ix'.span (start + k + n) (stop + k)⟩ =
        (Beat.extent ⟨⟨bar, beat⟩, ix.span (start + n) stop⟩).moved bars k := by
      rw [Nat.add_right_comm]
      simp [Beat.extent, Extent.moved, LineIndex.span]
    rw [List.map_cons, Mark.moved, numberBeats, hn]
    exact congrArg₂ List.cons hextent this

end

/-! ## Beats of joined texts -/

theorem beatsFrom_append_bar {front : List Char} {start : Nat} (hstart : start ≤ front.length)
    (hend : Reader.initial.afterAll (front.drop start) = .initial) (back : List Char) :
    (beatsFrom (front ++ '|' :: back) start).map Beat.extent =
      (beatsFrom front start).map Beat.extent ++
        ((beatsFrom back 0).map Beat.extent).map
          (.moved (1 + barLinesBefore (placeAt? front start) front.length) (front.length + 1)) := by
  let joined := front ++ '|' :: back
  have hbars : (marksFrom front start).count .bar =
      barLinesBefore (placeAt? front start) front.length := by
    have hcount := (marksFrom_runs front start).barLinesBefore_eq
    rw [barLinesBefore_placeAt?, List.length_drop, Nat.add_sub_of_le hstart, Nat.zero_add] at hcount
    exact hcount.symm
  have hfront := numberBeats_moved (.ofText front) (.ofText joined) (marksFrom front start) 0
    (fun _ stop hm => slice_append_left ((marksFrom_laid hstart).stop_le hm) ('|' :: back)) 0 0 0
  rw [Mark.moved_zero, Extent.moved_zero, List.map_id, List.map_id] at hfront
  have hback := numberBeats_moved (.ofText back) (.ofText joined) (marksFrom back 0)
    (front.length + 1)
    (fun start stop _ => by simpa using slice_append_right (front ++ ['|']) back start stop)
    (1 + barLinesBefore (placeAt? front start) front.length) 0 0
  rw [Nat.zero_add] at hback
  calc (beatsFrom joined start).map Beat.extent
      = (numberBeats joined (.ofText joined) 0 0 (marksFrom front start)).map Beat.extent ++
          (numberBeats joined (.ofText joined)
            (1 + barLinesBefore (placeAt? front start) front.length) 0
            ((marksFrom back 0).map (Mark.moved (front.length + 1)))).map Beat.extent := by
        rw [beatsFrom, marksFrom_append_bar hstart hend, numberBeats_append_bar, List.map_append,
          hbars, Nat.zero_add, Nat.add_comm _ 1]
    _ = _ := congrArg₂ (· ++ ·) hfront hback

/-- The first text is read from behind an open quote on, and only the bar line keeps its last slash
from opening a comment. -/
theorem beatsFrom_append_bar_slash :
    let front := "\"4. 1 \"|)\" (2|3) | \x7b4 /* | */\x7d // |\n5/".toList
    let back := "* 6 | (7 8) \"9".toList
    (3 ≤ front.length ∧ Reader.initial.afterAll (front.drop 3) = .initial) ∧
      barLinesBefore (placeAt? front 3) front.length = 1 ∧
      (beatsFrom (front ++ '|' :: back) 3).map Beat.extent =
        (beatsFrom front 3).map Beat.extent ++
          ((beatsFrom back 0).map Beat.extent).map
            (.moved (1 + barLinesBefore (placeAt? front 3) front.length) (front.length + 1)) ∧
      (beatsFrom (front ++ '|' :: back) 3).map Beat.position =
        [⟨0, 0⟩, ⟨0, 1⟩, ⟨0, 2⟩, ⟨1, 0⟩, ⟨2, 0⟩, ⟨2, 1⟩, ⟨3, 0⟩, ⟨3, 1⟩] := by
  intro front back
  have hstart : 3 ≤ front.length := by decide +kernel
  have hend : Reader.initial.afterAll (front.drop 3) = .initial := by decide +kernel
  exact ⟨⟨hstart, hend⟩, by decide +kernel, beatsFrom_append_bar hstart hend back,
    by decide +kernel⟩

/-! ## Beats behind a header -/

theorem marksFrom_append (header body : List Char) :
    marksFrom (header ++ body) header.length =
      (marksFrom body 0).map (Mark.moved header.length) := by
  have hmoved := Scan.initial.moved_marks header.length 0 (lex body)
  rw [Nat.zero_add] at hmoved
  rw [marksFrom, List.drop_left, marksFrom, List.drop_zero]
  exact hmoved

theorem beatsFrom_append (header body : List Char) :
    (beatsFrom (header ++ body) header.length).map Beat.extent =
      ((beatsFrom body 0).map Beat.extent).map (.moved 0 header.length) := by
  rw [beatsFrom, marksFrom_append]
  exact numberBeats_moved (.ofText body) (.ofText (header ++ body)) (marksFrom body 0) header.length
    (fun start stop _ => slice_append_right header body start stop) 0 0 0

def Extent.behind (offset : Nat) (e : Extent) : Extent :=
  ⟨e.position, e.start - offset, e.stop - offset⟩

theorem Extent.behind_moved (offset : Nat) (e : Extent) : (e.moved 0 offset).behind offset = e := by
  simp [moved, behind]

theorem BeatMap.ofText_behind {header body : List Char}
    (h : startOfContent (header ++ body) = header.length) :
    (ofText (header ++ body)).beats.map (Extent.behind header.length ∘ Beat.extent) =
      (beatsFrom body 0).map Beat.extent := by
  rw [ofText, h, ← List.map_map, beatsFrom_append, List.map_map]
  exact List.map_id'' (Extent.behind_moved header.length) _

theorem BeatMap.ofText_headerIrrelevant {header header' body : List Char}
    (h : startOfContent (header ++ body) = header.length)
    (h' : startOfContent (header' ++ body) = header'.length) :
    List.Forall₂ (fun b b' : Beat => b.position = b'.position ∧
        b.span.start - header.length = b'.span.start - header'.length ∧
        b.span.stop - header.length = b'.span.stop - header'.length)
      (ofText (header ++ body)).beats (ofText (header' ++ body)).beats := by
  have hsame := (ofText_behind h).trans (ofText_behind h').symm
  rw [← List.forall₂_eq_eq_eq, List.forall₂_map_left_iff, List.forall₂_map_right_iff] at hsame
  refine hsame.imp fun b b' hb => ?_
  injection hb with hposition hstart hstop
  exact ⟨hposition, hstart, hstop⟩

/-- A dot ends the one header, the other one is a comment in front of a text without such a dot. -/
theorem BeatMap.ofText_headerIrrelevant_comment :
    let header := "// ( \"\n\\title \"4. | 5\" \x7b |) .".toList
    let header' := "/* \" . | */ ".toList
    let body := "(1 | 2)(3) :8 4 // |\n| \"5 ) |\" 6".toList
    (startOfContent (header ++ body) = header.length ∧
        startOfContent (header' ++ body) = header'.length) ∧
      List.Forall₂ (fun b b' : Beat => b.position = b'.position ∧
          b.span.start - header.length = b'.span.start - header'.length ∧
          b.span.stop - header.length = b'.span.stop - header'.length)
        (ofText (header ++ body)).beats (ofText (header' ++ body)).beats ∧
      (ofText (header' ++ body)).beats.map Beat.position =
        [⟨0, 0⟩, ⟨0, 1⟩, ⟨0, 2⟩, ⟨1, 0⟩, ⟨1, 1⟩] := by
  intro header header' body
  have h : startOfContent (header ++ body) = header.length := by decide +kernel
  have h' : startOfContent (header' ++ body) = header'.length := by decide +kernel
  exact ⟨⟨h, h'⟩, ofText_headerIrrelevant h h', by decide +kernel⟩

end Tablature
