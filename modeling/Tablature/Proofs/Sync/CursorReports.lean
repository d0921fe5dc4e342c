import Mathlib.Data.List.Chain
import Mathlib.Data.List.DropRight
import Tablature.Proofs.Schedule.FrameLoop
import Tablature.Proofs.Text.LinePlace
import Tablature.Sync.Tracker

/-!
# What a tracker reports

A tracker reports at frames only, at most one cursor at each. Which one, and
whether there is one at all, can be read off the updates since the last frame and
the reports since the last reset.
-/

namespace Tablature

def EditorUpdate.place (u : EditorUpdate) (fromEdit : Bool) : Cursor :=
  let offset := (max 0 (min u.head u.text.length)).toNat
  ⟨lineOf u.text offset, columnOf u.text offset,
    (((BeatMap.ofText u.text).beatAt? offset).map Beat.position).getD .nowhere, fromEdit⟩

theorem EditorUpdate.cursor_eq_place (u : EditorUpdate) (fromEdit : Bool) :
    u.cursor fromEdit = u.place fromEdit := by
  have hle := clampTo_le u.text.length u.head
  have hback := LineIndex.lineColToOffset_offsetToLineCol u.text hle
  simp only [offsetToLineCol_ofText, clampTo_natCast hle] at hback
  simp only [cursor, place, locate, BeatMap.locate, offsetToLineCol, offsetToLineCol_ofText, hback,
    ← clampTo_eq]

namespace TrackerEvent

def isReset : TrackerEvent → Bool
  | .reset => true
  | _ => false

def isFrame : TrackerEvent → Bool
  | .runFrame | .runUntilIdle => true
  | _ => false

/-- Whether the updates so far are used up or given up. -/
def endsBurst : TrackerEvent → Bool
  | .runFrame | .runUntilIdle | .dispose => true
  | _ => false

def relevant? : TrackerEvent → Option EditorUpdate
  | .notify u => if u.isRelevant then some u else none
  | _ => none

end TrackerEvent

open TrackerEvent (isReset isFrame endsBurst relevant?)

/-! ## A tracker by itself -/

namespace Tracker

variable (t : Tracker) (attachment : Option Attachment)

def due? : Option Cursor :=
  if attachment.all Attachment.isAttached then
    (t.latest.map (·.place t.fromEdit)).filter fun c =>
      !t.lastEmitted.any (·.position.bar == c.position.bar)
  else none

theorem recompute_eq : t.recompute attachment =
    ⟨none, false, none, (t.due? attachment).or t.lastEmitted,
      t.emitted ++ (t.due? attachment).toList⟩ := by
  unfold recompute due?
  cases hlatest : t.latest with
  | none => simp
  | some u =>
    by_cases hattached : attachment.all Attachment.isAttached = true
    · by_cases hsame : t.lastEmitted.any (·.position.bar == (u.place t.fromEdit).position.bar) = true
      · simp [hattached, emit, u.cursor_eq_place, Option.filter, hsame]
      · simp [hattached, emit, u.cursor_eq_place, Option.filter, hsame]
    · simp [hattached]

theorem recompute_idle {t : Tracker} (hjob : t.frameJob = none) (hlatest : t.latest = none)
    (hfromEdit : t.fromEdit = false) (attachment : Option Attachment) :
    t.recompute attachment = t := by
  cases t
  cases hjob
  cases hlatest
  cases hfromEdit
  rfl

def after (event : TrackerEvent) (job : Option Nat) : Tracker where
  latest := if event.endsBurst then none else event.relevant?.or t.latest
  fromEdit := !event.endsBurst && (t.fromEdit || event.relevant?.any (·.docChanged))
  frameJob := job
  lastEmitted :=
    if event.isReset then none
    else if event.isFrame then (t.due? attachment).or t.lastEmitted
    else t.lastEmitted
  emitted := t.emitted ++ if event.isFrame then (t.due? attachment).toList else []

theorem after_relevant {u : EditorUpdate} (h : u.isRelevant = true) (job : Option Nat) :
    t.after attachment (.notify u) job =
      { t with latest := some u, fromEdit := t.fromEdit || u.docChanged, frameJob := job } := by
  simp [after, endsBurst, relevant?, isReset, isFrame, h]

theorem after_frame {event : TrackerEvent} (h : event.isFrame = true) :
    t.after attachment event none = t.recompute attachment := by
  rw [recompute_eq]
  cases event with
  | runFrame => simp [after, endsBurst, isReset, isFrame]
  | runUntilIdle => simp [after, endsBurst, isReset, isFrame]
  | _ => cases h

end Tracker

/-! ## A tracker and its scheduler -/

namespace TrackerSession

structure Ready (s : TrackerSession) : Prop where
  queue : s.scheduler.AwaitsFrame recomputeCallback s.tracker.frameJob
  waits : s.tracker.frameJob.isSome = s.tracker.latest.isSome
  idle : s.tracker.latest = none → s.tracker.fromEdit = false

theorem initial_ready : initial.Ready where
  queue := .empty
  waits := rfl
  idle := fun _ => rfl

namespace Ready

variable {s : TrackerSession} (h : s.Ready) (attachment : Option Attachment)
include h

theorem notify (u : EditorUpdate) : (s.notify u).Ready ∧
    ∃ job, (s.notify u).tracker = s.tracker.after attachment (.notify u) job := by
  have hqueue := h.queue
  by_cases hrelevant : u.isRelevant = true
  · cases hjob : s.tracker.frameJob with
    | none =>
      rw [hjob] at hqueue
      simp only [TrackerSession.notify, hrelevant, hjob]
      exact ⟨⟨hqueue.requestFrame, rfl, nofun⟩, some s.scheduler.nextJob,
        (s.tracker.after_relevant attachment hrelevant _).symm⟩
    | some id =>
      rw [hjob] at hqueue
      simp only [TrackerSession.notify, hrelevant, hjob]
      exact ⟨⟨hqueue, rfl, nofun⟩, some id, (s.tracker.after_relevant attachment hrelevant _).symm⟩
  · simp only [TrackerSession.notify, hrelevant]
    refine ⟨h, s.tracker.frameJob, ?_⟩
    simp [Tracker.after, endsBurst, relevant?, isReset, isFrame, hrelevant]

theorem dispose : s.dispose.Ready := by
  refine ⟨?_, rfl, fun _ => rfl⟩
  have hqueue := h.queue
  cases hjob : s.tracker.frameJob with
  | none =>
    rw [hjob] at hqueue
    simpa [TrackerSession.dispose, hjob] using hqueue
  | some id =>
    rw [hjob] at hqueue
    simpa [TrackerSession.dispose, hjob] using hqueue.cancel

theorem drain {loop : Action Recompute} (hloop : loop = .runFrame ∨ loop = .runUntilIdle) :
    (s.drain attachment loop).1.Ready ∧
      (s.drain attachment loop).1.tracker = s.tracker.recompute attachment := by
  obtain ⟨hworld, hscheduler⟩ :
      (s.drain attachment loop).1.tracker =
          (s.tracker.frameJob.elim s.tracker fun _ => s.tracker.recompute attachment) ∧
        (s.drain attachment loop).1.scheduler = s.scheduler.afterFrame s.tracker.frameJob := by
    rcases hloop with rfl | rfl
    · exact h.queue.perform_runFrame _ s.tracker
    · exact h.queue.perform_runUntilIdle _ s.tracker
  have htracker : (s.drain attachment loop).1.tracker = s.tracker.recompute attachment := by
    rw [hworld]
    cases hjob : s.tracker.frameJob with
    | some id => rfl
    | none =>
      -- Without a job there is no update, so that looking at it changes nothing.
      have hlatest : s.tracker.latest = none := by
        have := h.waits
        simpa [hjob] using this.symm
      exact (Tracker.recompute_idle hjob hlatest (h.idle hlatest) attachment).symm
  refine ⟨⟨?_, ?_, ?_⟩, htracker⟩
  · rw [htracker, Tracker.recompute_eq, hscheduler]
    exact h.queue.afterFrame
  · rw [htracker, Tracker.recompute_eq]
    rfl
  · rw [htracker, Tracker.recompute_eq]
    exact fun _ => rfl

theorem handle (event : TrackerEvent) : (s.handle attachment event).1.Ready ∧
    ∃ job, (s.handle attachment event).1.tracker = s.tracker.after attachment event job := by
  cases event with
  | notify u => exact h.notify attachment u
  | reset =>
    refine ⟨⟨h.queue, h.waits, h.idle⟩, s.tracker.frameJob, ?_⟩
    simp [TrackerSession.handle, reset, Tracker.after, endsBurst, relevant?, isReset, isFrame]
  | dispose =>
    refine ⟨h.dispose, none, ?_⟩
    simp [TrackerSession.handle, TrackerSession.dispose, Tracker.after, endsBurst, isReset, isFrame]
  | runPending =>
    obtain ⟨hworld, hscheduler⟩ := h.queue.perform_runPending
      (fun _ (t : Tracker) => t.recompute attachment) s.tracker
    have hsame : (s.handle attachment .runPending).1 = s := by
      simp only [TrackerSession.handle, TrackerSession.drain, hworld, hscheduler]
    rw [hsame]
    refine ⟨h, s.tracker.frameJob, ?_⟩
    simp [Tracker.after, endsBurst, relevant?, isReset, isFrame]
  | runFrame =>
    obtain ⟨hready, htracker⟩ := h.drain attachment (.inl rfl)
    exact ⟨hready, none, htracker.trans (s.tracker.after_frame attachment rfl).symm⟩
  | runUntilIdle =>
    obtain ⟨hready, htracker⟩ := h.drain attachment (.inr rfl)
    exact ⟨hready, none, htracker.trans (s.tracker.after_frame attachment rfl).symm⟩

end Ready

/-! ## Histories -/

theorem run_concat (s : TrackerSession) (history : List (Option Attachment × TrackerEvent))
    (attachment : Option Attachment) (event : TrackerEvent) :
    s.run (history ++ [(attachment, event)]) = ((s.run history).handle attachment event).1 := by
  simp [run, List.foldl_append]

theorem run_ready (history : List (Option Attachment × TrackerEvent)) :
    (initial.run history).Ready := by
  induction history using List.reverseRecOn with
  | nil => exact initial_ready
  | append_singleton history e ih =>
    rw [run_concat]
    exact (ih.handle e.1 e.2).1

/-- The relevant updates since the last frame, unless they were given up. -/
def burst (history : List (Option Attachment × TrackerEvent)) : List EditorUpdate :=
  (history.rtakeWhile fun e => !e.2.endsBurst).filterMap fun e => e.2.relevant?

def reports (history : List (Option Attachment × TrackerEvent)) : List Cursor :=
  (initial.run history).tracker.emitted

def upToReset (history : List (Option Attachment × TrackerEvent)) :
    List (Option Attachment × TrackerEvent) :=
  history.rdropWhile fun e => !e.2.isReset

def reportsSinceReset (history : List (Option Attachment × TrackerEvent)) : List Cursor :=
  (reports history).drop (reports (upToReset history)).length

/-- What an event reports: at a frame the last update of the burst, if the editor is there and the
bar is another one than that of the last report. -/
def report? (history : List (Option Attachment × TrackerEvent)) (attachment : Option Attachment)
    (event : TrackerEvent) : Option Cursor :=
  if event.isFrame && attachment.all Attachment.isAttached then
    ((burst history).getLast?.map (·.place ((burst history).any (·.docChanged)))).filter fun c =>
      !(reportsSinceReset history).getLast?.any (·.position.bar == c.position.bar)
  else none

section
variable (history : List (Option Attachment × TrackerEvent)) (attachment : Option Attachment)
  (event : TrackerEvent)

theorem burst_concat : burst (history ++ [(attachment, event)]) =
    if event.endsBurst then [] else burst history ++ event.relevant?.toList := by
  unfold burst
  rw [List.rtakeWhile_concat]
  by_cases h : event.endsBurst = true
  · simp [h]
  · cases hu : event.relevant? with
    | none => simp [h, hu]
    | some u => simp [h, hu]

theorem upToReset_concat : upToReset (history ++ [(attachment, event)]) =
    if event.isReset then history ++ [(attachment, event)] else upToReset history := by
  unfold upToReset
  rw [List.rdropWhile_concat]
  by_cases h : event.isReset = true
  · simp [h]
  · simp [h]

end

structure Knows (t : Tracker) (history : List (Option Attachment × TrackerEvent)) : Prop where
  latest : t.latest = (burst history).getLast?
  fromEdit : t.fromEdit = (burst history).any (·.docChanged)
  lastEmitted : t.lastEmitted = (reportsSinceReset history).getLast?
  grown : (reports (upToReset history)).length ≤ (reports history).length

theorem initial_knows : Knows Tracker.initial [] where
  latest := rfl
  fromEdit := rfl
  lastEmitted := rfl
  grown := Nat.le_refl _

namespace Knows

variable {t : Tracker} {history : List (Option Attachment × TrackerEvent)} (h : Knows t history)
  (attachment : Option Attachment) (event : TrackerEvent)
include h

theorem due?_eq (hframe : event.isFrame = true) :
    t.due? attachment = report? history attachment event := by
  simp [Tracker.due?, report?, h.latest, h.fromEdit, h.lastEmitted, hframe]

theorem after_emitted (job : Option Nat) : (t.after attachment event job).emitted =
    t.emitted ++ (report? history attachment event).toList := by
  by_cases hframe : event.isFrame = true
  · simp [Tracker.after, h.due?_eq attachment event hframe, hframe]
  · simp [Tracker.after, report?, hframe]

theorem after_lastEmitted (job : Option Nat) : (t.after attachment event job).lastEmitted =
    if event.isReset then none else (report? history attachment event).or t.lastEmitted := by
  by_cases hframe : event.isFrame = true
  · simp [Tracker.after, h.due?_eq attachment event hframe, hframe]
  · simp [Tracker.after, report?, hframe]

theorem after_latest (job : Option Nat) : (t.after attachment event job).latest =
    (burst (history ++ [(attachment, event)])).getLast? := by
  rw [burst_concat]
  by_cases hends : event.endsBurst = true
  · simp [Tracker.after, hends]
  · cases hu : event.relevant? <;> simp [Tracker.after, hends, hu, h.latest]

theorem after_fromEdit (job : Option Nat) : (t.after attachment event job).fromEdit =
    (burst (history ++ [(attachment, event)])).any (·.docChanged) := by
  rw [burst_concat]
  by_cases hends : event.endsBurst = true
  · simp [Tracker.after, hends]
  · cases hu : event.relevant? <;> simp [Tracker.after, hends, hu, h.fromEdit]

end Knows

theorem reports_concat_of_knows {history : List (Option Attachment × TrackerEvent)}
    (h : Knows (initial.run history).tracker history) (attachment : Option Attachment)
    (event : TrackerEvent) : reports (history ++ [(attachment, event)]) =
      reports history ++ (report? history attachment event).toList := by
  obtain ⟨job, htracker⟩ := ((run_ready history).handle attachment event).2
  rw [reports, run_concat, htracker]
  exact h.after_emitted attachment event job

theorem reportsSinceReset_concat_of_knows {history : List (Option Attachment × TrackerEvent)}
    (h : Knows (initial.run history).tracker history) (attachment : Option Attachment)
    (event : TrackerEvent) : reportsSinceReset (history ++ [(attachment, event)]) =
      if event.isReset then []
      else reportsSinceReset history ++ (report? history attachment event).toList := by
  rw [reportsSinceReset, upToReset_concat]
  by_cases hreset : event.isReset = true
  · simp [hreset]
  · rw [if_neg hreset, if_neg hreset, reports_concat_of_knows h, List.drop_append_of_le_length h.grown]
    rfl

theorem run_knows (history : List (Option Attachment × TrackerEvent)) :
    Knows (initial.run history).tracker history := by
  induction history using List.reverseRecOn with
  | nil => exact initial_knows
  | append_singleton history e ih =>
    obtain ⟨attachment, event⟩ := e
    have hready := run_ready history
    obtain ⟨job, htracker⟩ := (hready.handle attachment event).2
    rw [run_concat, htracker]
    refine ⟨ih.after_latest attachment event job, ih.after_fromEdit attachment event job, ?_, ?_⟩
    · rw [ih.after_lastEmitted, reportsSinceReset_concat_of_knows ih]
      by_cases hreset : event.isReset = true
      · simp [hreset]
      · cases hreport : report? history attachment event <;> simp [hreset, ih.lastEmitted]
    · rw [upToReset_concat]
      by_cases hreset : event.isReset = true
      · simp [hreset]
      · rw [if_neg hreset, reports_concat_of_knows ih, List.length_append]
        have := ih.grown
        omega

theorem report?_last {history : List (Option Attachment × TrackerEvent)}
    {attachment : Option Attachment} {event : TrackerEvent} {c last : Cursor}
    (h : report? history attachment event = some c)
    (hlast : (reportsSinceReset history).getLast? = some last) :
    last.position.bar ≠ c.position.bar := by
  unfold report? at h
  split at h
  · have := (Option.filter_eq_some_iff.mp h).2
    simpa [hlast] using this
  · cases h

theorem reportsSinceReset_varied (history : List (Option Attachment × TrackerEvent)) :
    (reportsSinceReset history).IsChain (·.position.bar ≠ ·.position.bar) := by
  induction history using List.reverseRecOn with
  | nil => exact .nil
  | append_singleton history e ih =>
    obtain ⟨attachment, event⟩ := e
    rw [reportsSinceReset_concat_of_knows (run_knows history)]
    by_cases hreset : event.isReset = true
    · simp [hreset]
    · rw [if_neg hreset]
      cases hreport : report? history attachment event with
      | none => simpa using ih
      | some c =>
        refine ih.append (.singleton c) ?_
        intro last hlast c' hc'
        cases hc'
        exact report?_last hreport hlast

theorem run_reports (history : List (Option Attachment × TrackerEvent))
    (attachment : Option Attachment) (event : TrackerEvent) :
    reports (history ++ [(attachment, event)]) =
        reports history ++ (report? history attachment event).toList ∧
      (reportsSinceReset history).IsChain (·.position.bar ≠ ·.position.bar) :=
  ⟨reports_concat_of_knows (run_knows history) attachment event, reportsSinceReset_varied history⟩

end TrackerSession

end Tablature
