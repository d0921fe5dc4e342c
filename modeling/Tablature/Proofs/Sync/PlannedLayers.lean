import Tablature.Proofs.Highlight.TidyLayer
import Tablature.Proofs.Score.BarSpans
import Tablature.Sync.Controller

/-!
# Layers under plans and edits

A plan names every layer once and fills one of them at most, with spans that are
in order and apart. So the layers are tidy and exclude each other after a plan,
and an edit keeps them so.
-/

namespace Tablature

def Exclusive (content : Style → DecorationSet) : Prop :=
  ∀ s t, (content s).decorations ≠ [] → (content t).decorations ≠ [] → s = t

theorem Exclusive.of_others_empty {content : Style → DecorationSet} (style : Style)
    (h : ∀ s, s ≠ style → (content s).decorations = []) : Exclusive content := by
  intro s t hs ht
  have hs : s = style := Decidable.byContradiction fun hne => hs (h s hne)
  have ht : t = style := Decidable.byContradiction fun hne => ht (h t hne)
  rw [hs, ht]

theorem Exclusive.mono {content content' : Style → DecorationSet} (h : Exclusive content)
    (hle : ∀ s, (content s).decorations = [] → (content' s).decorations = []) :
    Exclusive content' :=
  fun s t hs ht => h s t (fun e => hs (hle s e)) (fun e => ht (hle t e))

/-! ## What a plan does -/

theorem Mode.spans_apart (mode : Mode) (text : List Char) (textLength : Nat) :
    (mode.spans (.ofText text) textLength).Pairwise fun s t => s.stop ≤ t.start := by
  cases mode with
  | idle => exact .nil
  | selection s => exact Option.pairwise_toList
  | playback p => exact Option.pairwise_toList
  | parked p => exact BeatMap.barSpans_apart (BeatMap.ofText_apart text) p.bar

theorem Mode.spans_inText (mode : Mode) (text : List Char) :
    ∀ s ∈ mode.spans (.ofText text) text.length, s.InText text.length := by
  intro s hs
  cases mode with
  | idle => cases hs
  | selection selection => exact BeatMap.selectionSpan?_inText (Option.mem_toList.mp hs)
  | playback p =>
    obtain ⟨b, hb, rfl⟩ := Option.map_eq_some_iff.mp (Option.mem_toList.mp hs)
    exact BeatMap.ofText_inText (BeatMap.findOrFirst?_mem hb)
  | parked p =>
    exact BeatMap.barSpans_inText (BeatMap.ofText_apart text)
      (fun b hb => BeatMap.ofText_inText hb) p.bar s hs

namespace Plan

variable (inputs : SyncInputs)

theorem ofInputs_cases :
    ofInputs inputs = clearAll (Mode.ofInputs inputs) ∨
      ∃ style first rest, (Mode.ofInputs inputs).style? = some style ∧
        (Mode.ofInputs inputs).spans (.ofText inputs.text) inputs.text.length = first :: rest ∧
        ofInputs inputs = fill (Mode.ofInputs inputs) style first rest := by
  unfold ofInputs
  dsimp only
  split
  · rename_i style first rest hstyle hspans
    exact .inr ⟨style, first, rest, hstyle, hspans, rfl⟩
  · exact .inl rfl

theorem fill_styles (mode : Mode) (style : Style) (first : Span) (rest : List Span) :
    (fill mode style first rest).effects.map LayerEffect.style =
      Style.all.filter (· != style) ++ [style] := by
  cases style <;> rfl

theorem ofInputs_styles :
    ((ofInputs inputs).effects.map LayerEffect.style).Perm Style.all := by
  rcases ofInputs_cases inputs with h | ⟨style, first, rest, -, -, h⟩
  · rw [h]
    exact .refl _
  · rw [h, fill_styles]
    cases style <;> decide

theorem mem_ofInputs_effects {e : LayerEffect} (he : e ∈ (ofInputs inputs).effects) :
    e.content = .clear ∨ (Mode.ofInputs inputs).style? = some e.style ∧
      e.content =
        .install ((Mode.ofInputs inputs).spans (.ofText inputs.text) inputs.text.length) := by
  rcases ofInputs_cases inputs with h | ⟨style, first, rest, hstyle, hspans, h⟩
  · rw [h] at he
    obtain ⟨s, -, rfl⟩ := List.mem_map.mp he
    exact .inl rfl
  · rw [h] at he
    rcases List.mem_append.mp he with he | he
    · obtain ⟨s, -, rfl⟩ := List.mem_map.mp he
      exact .inl rfl
    · cases List.mem_singleton.mp he
      exact .inr ⟨hstyle, by rw [hspans]; rfl⟩

theorem ofInputs_effects_apart : ∀ e ∈ (ofInputs inputs).effects, e.Apart := by
  intro e he spans hspans
  rcases mem_ofInputs_effects inputs he with h | ⟨-, h⟩
  · rw [h] at hspans
    cases hspans
  · rw [h] at hspans
    cases hspans
    exact Mode.spans_apart _ _ _

theorem ofInputs_clears_others {e : LayerEffect} (he : e ∈ (ofInputs inputs).effects)
    (hstyle : (Mode.ofInputs inputs).style? ≠ some e.style) : e.content = .clear :=
  (mem_ofInputs_effects inputs he).resolve_right fun h => hstyle h.1

end Plan

/-! ## What transactions do to the layers -/

/-- The transactions that a session buffers: the effects of a plan, or an edit. -/
inductive Transaction.Issued : Transaction → Prop where
  | plan (inputs : SyncInputs) :
    Issued ⟨(Plan.ofInputs inputs).effects, none, inputs.text.length⟩
  | edit (changes : ChangeSet) : Issued ⟨[], some changes, changes.newLength⟩

namespace Layers

structure Sound (ls : Layers) : Prop where
  tidy : ∀ style, (ls.get style).Tidy style
  exclusive : Exclusive ls.get

theorem empty_decorations (style : Style) : (empty.get style).decorations = [] := by
  cases style <;> rfl

theorem empty_sound : empty.Sound where
  tidy style := DecorationSet.tidy_of_nil (empty_decorations style) style
  exclusive := Exclusive.of_others_empty .selection fun s _ => empty_decorations s

theorem update_plan_others (ls : Layers) {inputs : SyncInputs} {s : Style}
    (hs : (Mode.ofInputs inputs).style? ≠ some s) :
    ((ls.update ⟨(Plan.ofInputs inputs).effects, none, inputs.text.length⟩).get s).decorations =
      [] := by
  rw [get_update]
  rcases updateLayer_cases s (ls.get s) _ with ⟨e, he, rfl, heq⟩ | ⟨hnone, -⟩
  · rw [heq]
    unfold LayerEffect.layer
    rw [Plan.ofInputs_clears_others inputs he hs]
    rfl
  · have : s ∈ (Plan.ofInputs inputs).effects.map LayerEffect.style :=
      (Plan.ofInputs_styles inputs).mem_iff.mpr (Style.mem_all s)
    obtain ⟨e, he, hstyle⟩ := List.mem_map.mp this
    exact absurd hstyle (hnone e he)

theorem update_plan_exclusive (ls : Layers) (inputs : SyncInputs) :
    Exclusive (ls.update ⟨(Plan.ofInputs inputs).effects, none, inputs.text.length⟩).get := by
  refine .of_others_empty ((Mode.ofInputs inputs).style?.getD .selection) fun s hs => ?_
  exact update_plan_others ls fun e => hs (by rw [e, Option.getD_some])

theorem update_edit_decorations {ls : Layers} {changes : ChangeSet} {s : Style}
    (h : (ls.get s).decorations = []) :
    ((ls.update ⟨[], some changes, changes.newLength⟩).get s).decorations = [] := by
  rw [get_update]
  rcases updateLayer_cases s (ls.get s) ⟨[], some changes, changes.newLength⟩ with
    ⟨e, he, -⟩ | ⟨-, heq | heq | ⟨cs, -, hmap⟩⟩
  · exact absurd he List.not_mem_nil
  · rwa [heq]
  · rw [heq]
    rfl
  · have := DecorationSet.map_styles hmap
    rw [h, List.map_nil, List.map_eq_nil_iff] at this
    exact this

theorem Sound.update {ls : Layers} (h : ls.Sound) {t : Transaction} (ht : t.Issued) :
    (ls.update t).Sound := by
  cases ht with
  | plan inputs =>
    refine ⟨fun style => ?_, update_plan_exclusive ls inputs⟩
    rw [get_update]
    exact updateLayer_tidy (h.tidy style) (Plan.ofInputs_effects_apart inputs)
  | edit changes =>
    refine ⟨fun style => ?_, h.exclusive.mono fun s => update_edit_decorations⟩
    rw [get_update]
    exact updateLayer_tidy (h.tidy style) fun e he => absurd he List.not_mem_nil

theorem Sound.foldl_update {ls : Layers} (h : ls.Sound) {ts : List Transaction}
    (hts : ∀ t ∈ ts, t.Issued) : (ts.foldl Layers.update ls).Sound := by
  induction ts generalizing ls with
  | nil => exact h
  | cons t ts ih =>
    rw [List.foldl_cons]
    exact ih (h.update (hts t List.mem_cons_self)) fun u hu => hts u (List.mem_cons_of_mem _ hu)

end Layers

end Tablature
