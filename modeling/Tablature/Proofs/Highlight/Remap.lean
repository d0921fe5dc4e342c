import Tablature.Highlight.DecorationSet
import Tablature.Proofs.Highlight.Positions

/-!
# Carrying a decoration set through an edit

An edit takes each decoration to its image. The set can be carried when it has
no decorations, or when the edit was made to its text and no image is empty.
-/

namespace Tablature

theorem ok_of_bind_eq_ok {α β ε : Type} {x : Except ε α} {f : α → Except ε β} {b : β}
    (h : x >>= f = .ok b) : ∃ a, x = .ok a ∧ f a = .ok b := by
  cases x with
  | error e => cases h
  | ok a => exact ⟨a, rfl, h⟩

namespace DecorationSet

/-- What an edit makes of a decoration; it may cover nothing. -/
def image (cs : ChangeSet) (d : Decoration) : Decoration :=
  ⟨cs.mapPos d.start .after, cs.mapPos d.stop .before, d.style⟩

theorem mapDecoration_eq_ok_iff {cs : ChangeSet} {d d' : Decoration} :
    mapDecoration cs d = .ok d' ↔ d' = image cs d ∧ (image cs d).start < (image cs d).stop := by
  show (if (image cs d).start < (image cs d).stop then _ else _) = _ ↔ _
  by_cases h : (image cs d).start < (image cs d).stop
  · rw [if_pos h]
    exact ⟨fun e => by cases e; exact ⟨rfl, h⟩, fun e => by rw [e.1]; rfl⟩
  · rw [if_neg h]
    exact ⟨fun e => (nomatch e), fun e => absurd e.2 h⟩

theorem mapM_mapDecoration_eq_ok_iff {cs : ChangeSet} {ds ds' : List Decoration} :
    ds.mapM (mapDecoration cs) = .ok ds' ↔
      ds' = ds.map (image cs) ∧ ∀ d ∈ ds, (image cs d).start < (image cs d).stop := by
  induction ds generalizing ds' with
  | nil =>
    constructor
    · intro h
      cases h
      exact ⟨rfl, fun _ hd => by cases hd⟩
    · rintro ⟨rfl, _⟩
      rfl
  | cons d ds ih =>
    rw [List.mapM_cons]
    constructor
    · intro h
      obtain ⟨d', hd, h⟩ := ok_of_bind_eq_ok h
      obtain ⟨ds', hds, h⟩ := ok_of_bind_eq_ok h
      cases h
      obtain ⟨rfl, hlt⟩ := mapDecoration_eq_ok_iff.mp hd
      obtain ⟨rfl, hlts⟩ := ih.mp hds
      exact ⟨rfl, List.forall_mem_cons.mpr ⟨hlt, hlts⟩⟩
    · rintro ⟨rfl, h⟩
      obtain ⟨hlt, hlts⟩ := List.forall_mem_cons.mp h
      rw [mapDecoration_eq_ok_iff.mpr ⟨rfl, hlt⟩, ih.mpr ⟨rfl, hlts⟩]
      rfl

theorem map_eq_ok_iff {s s' : DecorationSet} {cs : ChangeSet} :
    s.map cs = .ok s' ↔ s' = ⟨s.decorations.map (image cs), cs.newLength⟩ ∧
      (s.decorations = [] ∨ cs.oldLength = s.docLength) ∧
      ∀ d ∈ s.decorations, (image cs d).start < (image cs d).stop := by
  unfold map
  by_cases hempty : s.isEmpty = true
  · have hnil : s.decorations = [] := List.isEmpty_iff.mp hempty
    rw [if_pos hempty, hnil]
    constructor
    · intro h
      cases h
      exact ⟨rfl, .inl rfl, fun _ hd => by cases hd⟩
    · rintro ⟨rfl, _⟩
      rfl
  · have hne : s.decorations ≠ [] := fun h => hempty (List.isEmpty_iff.mpr h)
    rw [if_neg hempty]
    by_cases hlen : cs.oldLength = s.docLength
    · rw [if_neg (not_not_intro hlen)]
      constructor
      · intro h
        obtain ⟨ds, hds, h⟩ := ok_of_bind_eq_ok h
        cases h
        obtain ⟨rfl, hlts⟩ := mapM_mapDecoration_eq_ok_iff.mp hds
        exact ⟨rfl, .inr hlen, hlts⟩
      · rintro ⟨rfl, _, hlts⟩
        rw [mapM_mapDecoration_eq_ok_iff.mpr ⟨rfl, hlts⟩]
        rfl
    · rw [if_pos hlen]
      exact ⟨fun h => (nomatch h), fun h => absurd h.2.1 (not_or_intro hne hlen)⟩

/-! ## What every edit keeps -/

section
variable {s s' : DecorationSet} {cs : ChangeSet}

theorem map_inText (h : s.map cs = .ok s')
    (hs : ∀ d ∈ s.decorations, 0 ≤ d.start ∧ d.start < d.stop ∧ d.stop ≤ s.docLength) :
    ∀ d ∈ s'.decorations, 0 ≤ d.start ∧ d.start < d.stop ∧ d.stop ≤ s'.docLength := by
  obtain ⟨rfl, hlen, hlts⟩ := map_eq_ok_iff.mp h
  intro d' hd'
  obtain ⟨d, hd, rfl⟩ := List.mem_map.mp hd'
  obtain ⟨h₁, _, h₃⟩ := hs d hd
  rcases hlen with hnil | hlen
  · rw [hnil] at hd
    cases hd
  · exact ⟨cs.mapPos_nonneg h₁ .after, hlts d hd, cs.mapPos_le (by omega) .before⟩

theorem map_apart (h : s.map cs = .ok s')
    (hs : s.decorations.Pairwise fun d e => d.stop ≤ e.start) :
    s'.decorations.Pairwise fun d e => d.stop ≤ e.start := by
  obtain ⟨rfl, -, -⟩ := map_eq_ok_iff.mp h
  refine List.pairwise_map.mpr (hs.imp fun hde => ?_)
  exact cs.mapPos_mono hde (fun e => by cases e)

theorem map_styles (h : s.map cs = .ok s') :
    s'.decorations.map Decoration.style = s.decorations.map Decoration.style := by
  obtain ⟨rfl, -, -⟩ := map_eq_ok_iff.mp h
  rw [List.map_map]
  rfl

theorem map_inStyle {style : Style} (h : s.map cs = .ok s')
    (hs : ∀ d ∈ s.decorations, d.style = style) : ∀ d ∈ s'.decorations, d.style = style := by
  intro d' hd'
  have hstyle := List.mem_map_of_mem (f := Decoration.style) hd'
  rw [map_styles h] at hstyle
  obtain ⟨d, hd, hsame⟩ := List.mem_map.mp hstyle
  rw [← hsame, hs d hd]

theorem map_size (h : s.map cs = .ok s') : s'.size = s.size := by
  obtain ⟨rfl, -, -⟩ := map_eq_ok_iff.mp h
  exact List.length_map _

theorem map_docLength (h : s.map cs = .ok s') : s'.docLength = cs.newLength := by
  obtain ⟨rfl, -, -⟩ := map_eq_ok_iff.mp h
  rfl

end

end DecorationSet

end Tablature
