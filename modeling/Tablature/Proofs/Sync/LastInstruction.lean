import Tablature.Proofs.Sync.Coalescing

/-!
# The last instruction

A plan names every layer, so what it makes of the layers does not depend on what
they held, nor on what was buffered in front of it. After an update that reaches
an attached host, only the update and the edits that follow it count.
-/

namespace Tablature

theorem updateLayer_eq_of_named {style : Style} {t : Transaction}
    (h : style ∈ t.effects.map LayerEffect.style) (current current' : DecorationSet) :
    updateLayer style current t = updateLayer style current' t := by
  unfold updateLayer
  cases hlast : (t.effects.filter (·.style == style)).getLast? with
  | some e => rfl
  | none =>
    obtain ⟨e, he, rfl⟩ := List.mem_map.mp h
    rw [List.getLast?_eq_none_iff, List.filter_eq_nil_iff] at hlast
    simpa using hlast e he

theorem Layers.update_plan_eq (ls ls' : Layers) (inputs : SyncInputs) :
    ls.update (.plan inputs) = ls'.update (.plan inputs) := by
  have hnamed : ∀ style, style ∈ (Plan.ofInputs inputs).effects.map LayerEffect.style :=
    fun style => (Plan.ofInputs_styles inputs).mem_iff.mpr (Style.mem_all style)
  unfold update
  rw [updateLayer_eq_of_named (hnamed .selection) ls.selection ls'.selection,
    updateLayer_eq_of_named (hnamed .playback) ls.playback ls'.playback,
    updateLayer_eq_of_named (hnamed .parkedBar) ls.parkedBar ls'.parkedBar]

theorem Outlook.layers_foldl_edits (o : Outlook) (edits : List (ChangeSet × Option (List Char))) :
    ((edits.map fun e => .edit e.1 e.2).foldl after o).layers =
      edits.foldl (fun ls e => ls.update (.edit e.1)) o.layers := by
  induction edits generalizing o with
  | nil => rfl
  | cons e edits ih => exact ih (o.edit e.1 e.2)

namespace Session

/-- The events give an update and then some edits, with turns anywhere and one at the end, and the
host is there for all of them. -/
structure Instructs (events : List (Host × Event)) (inputs : SyncInputs)
    (edits : List (ChangeSet × Option (List Char))) : Prop where
  attached : ∀ e ∈ events, e.1.attachment.isAttached = true
  kept : ∀ e ∈ events, e.2 ≠ .dispose
  operations : ∃ scrolls, (events.map Prod.snd).filter Event.isOperation =
    .update inputs scrolls :: edits.map fun e => .edit e.1 e.2
  ended : ∃ earlier host, events = earlier ++ [(host, .runPending)]

variable {s t : Session} {inputs : SyncInputs} {edits : List (ChangeSet × Option (List Char))}

theorem Instructs.layers {events : List (Host × Event)} (h : Instructs events inputs edits)
    (hs : s.Armed) :
    (s.run events).controller.layers =
      edits.foldl (fun ls e => ls.update (.edit e.1)) (Layers.empty.update (.plan inputs)) := by
  obtain ⟨scrolls, hoperations⟩ := h.operations
  have houtlook := run_outlook hs events h.attached h.kept
  rw [Outlook.foldl_after, hoperations, List.foldl_cons] at houtlook
  calc (s.run events).controller.layers
      = (s.run events).controller.wanted := (wanted_of_ended hs h.ended).2.symm
    _ = ((edits.map fun e => .edit e.1 e.2).foldl Outlook.after
          (s.controller.outlook.plan inputs)).layers := congrArg Outlook.layers houtlook
    _ = edits.foldl (fun ls e => ls.update (.edit e.1)) (s.controller.wanted.update (.plan inputs)) :=
        Outlook.layers_foldl_edits _ edits
    _ = edits.foldl (fun ls e => ls.update (.edit e.1)) (Layers.empty.update (.plan inputs)) := by
        rw [Layers.update_plan_eq s.controller.wanted .empty]

/-- Whatever two sessions went through before, they end with the same layers if the same update and
the same edits reach attached hosts; a new session would end with these layers, too. -/
theorem Reachable.run_lastInstruction (hs : s.Reachable) (ht : t.Reachable)
    {first second : List (Host × Event)} (hfirst : Instructs first inputs edits)
    (hsecond : Instructs second inputs edits) :
    (s.run first).controller.layers = (t.run second).controller.layers ∧
      ∀ (autoScroll : Bool) (third : List (Host × Event)), Instructs third inputs edits →
        (s.run first).controller.layers = ((initial autoScroll).run third).controller.layers := by
  have hlayers := hfirst.layers hs.armed
  refine ⟨?_, fun autoScroll third hthird => ?_⟩
  · rw [hlayers, hsecond.layers ht.armed]
  · rw [hlayers, hthird.layers (initial_armed autoScroll)]

/-- One session shows a selection and has an edit to come, the other one shows a parked bar. Playback
and an edit leave the same highlight in both. -/
theorem run_lastInstruction_playback :
    let host (accepts : Bool) : Host :=
      ⟨.attached, none, none, fun _ => none, fun _ _ => accepts, true⟩
    let text := ['5', '.', '1', ' ', '5', '.', '2']
    let changes : ChangeSet := ⟨[⟨0, 0, 2⟩], 7, firstFault?_eq_none_iff.mp rfl⟩
    let inputs : SyncInputs := ⟨text, none, some ⟨0, 1⟩, none, true⟩
    let s := (initial true).run [(host true, .select text (some ⟨⟨0, 0⟩, ⟨0, 1⟩⟩)),
      (host true, .runPending), (host true, .edit changes none)]
    let t := (initial false).run [(host true, .play text none (some ⟨0, 0⟩) false none),
      (host true, .runPending)]
    let first := [(host true, .update inputs none), (host true, .edit changes none),
      (host true, .runPending)]
    let second := [(host false, .update inputs (some true)), (host false, .runPending),
      (host true, .edit changes none), (host true, .runPending)]
    let edits := [(changes, none)]
    (s.controller.layers.get .selection).decorations = [⟨0, 7, .selection⟩] ∧
      s.controller.hasPending = true ∧
      (t.controller.layers.get .parkedBar).decorations = [⟨0, 7, .parkedBar⟩] ∧
      s.Reachable ∧ t.Reachable ∧ Instructs first inputs edits ∧ Instructs second inputs edits ∧
      ((s.run first).controller.layers.get .playback).decorations = [⟨6, 9, .playback⟩] ∧
      (s.run first).controller.layers = (t.run second).controller.layers ∧
      ∀ (autoScroll : Bool) (third : List (Host × Event)), Instructs third inputs edits →
        (s.run first).controller.layers = ((initial autoScroll).run third).controller.layers := by
  intro host text changes inputs s t first second edits
  have hs : s.Reachable := ⟨true, _, rfl⟩
  have ht : t.Reachable := ⟨false, _, rfl⟩
  have hfirst : Instructs first inputs edits :=
    ⟨by simp [first, host, Attachment.isAttached], by simp [first], ⟨_, rfl⟩, [_, _], _, rfl⟩
  have hsecond : Instructs second inputs edits :=
    ⟨by simp [second, host, Attachment.isAttached], by simp [second], ⟨_, rfl⟩, [_, _, _], _, rfl⟩
  have hselection : (s.controller.layers.get .selection).decorations = [⟨0, 7, .selection⟩] := by
    decide +kernel
  have hpending : s.controller.hasPending = true := by
    decide +kernel
  have hparked : (t.controller.layers.get .parkedBar).decorations = [⟨0, 7, .parkedBar⟩] := by
    decide +kernel
  have hplayback :
      ((s.run first).controller.layers.get .playback).decorations = [⟨6, 9, .playback⟩] := by
    decide +kernel
  exact ⟨hselection, hpending, hparked, hs, ht, hfirst, hsecond, hplayback,
    hs.run_lastInstruction ht hfirst hsecond⟩

end Session

end Tablature
