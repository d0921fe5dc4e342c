import Mathlib.Logic.Relation
import Tablature.Proofs.Schedule.Steps

/-!
# The order of starts

No job starts twice, nor after it was cancelled. However deep they are nested, the
loops over the queue of the next turn start its jobs in the order of scheduling,
and a loop over the queue of the next frame starts only what waited there when it
began.
-/

namespace Tablature

open Relation

def taskStarts (starts : List Start) : List Nat :=
  (starts.filter (·.cause = .taskLoop)).map Start.job

theorem taskStarts_subset {starts : List Start} {id : Nat} (h : id ∈ taskStarts starts) :
    id ∈ starts.map Start.job := by
  obtain ⟨start, hstart, rfl⟩ := List.mem_map.mp h
  exact List.mem_map_of_mem ((List.mem_filter.mp hstart).1)

theorem taskStarts_append_task (starts : List Start) (id : Nat) :
    taskStarts (starts ++ [⟨id, .taskLoop⟩]) = taskStarts starts ++ [id] := by
  simp [taskStarts]

theorem taskStarts_append_other {cause : Cause} (h : cause ≠ .taskLoop) (starts : List Start)
    (id : Nat) : taskStarts (starts ++ [⟨id, cause⟩]) = taskStarts starts := by
  simp [taskStarts, h]

namespace Scheduler

variable {ε : Type}

structure Orderly (s : Scheduler ε) (starts : List Start) : Prop where
  frames : ∀ id ∈ s.frames, id < s.nextJob
  tasks : ∀ id ∈ s.tasks, id < s.nextJob
  done : ∀ id ∈ starts.map Start.job, ∃ j, s.jobs[id]? = some j ∧ j.done = true
  once : (starts.map Start.job).Nodup
  /-- What waits for the next turn was scheduled after all that came before it. -/
  inTurn : (taskStarts starts ++ s.tasks).Pairwise (· < ·)

namespace Orderly

variable {s s' : Scheduler ε} {starts : List Start}

theorem empty : (empty : Scheduler ε).Orderly [] where
  frames := by simp [Scheduler.empty]
  tasks := by simp [Scheduler.empty]
  done := by simp
  once := .nil
  inTurn := .nil

theorem lt_nextJob (h : s.Orderly starts) {id : Nat} (hid : id ∈ taskStarts starts ++ s.tasks) :
    id < s.nextJob := by
  rcases List.mem_append.mp hid with hid | hid
  · obtain ⟨j, hj, -⟩ := h.done id (taskStarts_subset hid)
    exact (List.getElem?_eq_some_iff.mp hj).1
  · exact h.tasks id hid

theorem done_of_grows (h : s.Orderly starts) (hg : s.Grows s') :
    ∀ id ∈ starts.map Start.job, ∃ j, s'.jobs[id]? = some j ∧ j.done = true := by
  intro id hid
  obtain ⟨j, hj, hd⟩ := h.done id hid
  obtain ⟨j', hj', -, -, hd'⟩ := hg id j hj
  exact ⟨j', hj', hd' hd⟩

theorem of_grows (h : s.Orderly starts) (hg : s.Grows s') (htasks : s'.tasks.Sublist s.tasks)
    (hframes : ∀ id ∈ s'.frames, id ∈ s.frames) : s'.Orderly starts where
  frames id hid := Nat.lt_of_lt_of_le (h.frames id (hframes id hid)) hg.nextJob_le
  tasks id hid := Nat.lt_of_lt_of_le (h.tasks id (htasks.subset hid)) hg.nextJob_le
  done := h.done_of_grows hg
  once := h.once
  inTurn := h.inTurn.sublist (htasks.append_left _)

theorem callSoon (h : s.Orderly starts) (cb : Callback ε) : (s.callSoon cb).Orderly starts where
  frames id hid := Nat.lt_of_lt_of_le (h.frames id hid) (Grows.addJob s cb).nextJob_le
  tasks id hid := by
    rw [nextJob_callSoon]
    rcases List.mem_append.mp hid with hid | hid
    · exact Nat.lt_succ_of_lt (h.tasks id hid)
    · exact List.mem_singleton.mp hid ▸ Nat.lt_succ_self _
  done := h.done_of_grows (.addJob s cb)
  once := h.once
  inTurn := by
    -- The new job has the highest number of all.
    have hlast : ∀ id ∈ taskStarts starts ++ s.tasks, ∀ new ∈ [s.nextJob], id < new := by
      intro id hid new hnew
      exact List.mem_singleton.mp hnew ▸ h.lt_nextJob hid
    have happend := List.pairwise_append.mpr ⟨h.inTurn, List.pairwise_singleton _ _, hlast⟩
    rwa [List.append_assoc] at happend

theorem requestFrame (h : s.Orderly starts) (cb : Callback ε) :
    (s.requestFrame cb).Orderly starts where
  frames id hid := by
    rw [nextJob_requestFrame]
    rcases List.mem_append.mp hid with hid | hid
    · exact Nat.lt_succ_of_lt (h.frames id hid)
    · exact List.mem_singleton.mp hid ▸ Nat.lt_succ_self _
  tasks id hid := Nat.lt_of_lt_of_le (h.tasks id hid) (Grows.addJob s cb).nextJob_le
  done := h.done_of_grows (.addJob s cb)
  once := h.once
  inTurn := h.inTurn

theorem start (h : s.Orderly starts) {id : Nat} {j : Job ε} (hj : s.jobs[id]? = some j)
    (hd : j.done = false) {cause : Cause}
    (hturn : (taskStarts (starts ++ [⟨id, cause⟩]) ++ s.tasks).Pairwise (· < ·)) :
    (s.finish id).Orderly (starts ++ [⟨id, cause⟩]) where
  frames id' hid' := Nat.lt_of_lt_of_le (h.frames id' hid') (Grows.finish s id).nextJob_le
  tasks id' hid' := Nat.lt_of_lt_of_le (h.tasks id' hid') (Grows.finish s id).nextJob_le
  done id' hid' := by
    rw [List.map_append] at hid'
    rcases List.mem_append.mp hid' with hid' | hid'
    · exact h.done_of_grows (.finish s id) id' hid'
    · cases List.mem_singleton.mp hid'
      exact ⟨{ j with done := true }, by simp [finish, hj], rfl⟩
  once := by
    rw [List.map_append]
    refine List.nodup_append.mpr ⟨h.once, List.pairwise_singleton _ _, ?_⟩
    rintro id' hid' _ hid rfl
    cases List.mem_singleton.mp hid
    obtain ⟨j', hj', hd'⟩ := h.done id hid'
    rw [hj] at hj'
    cases hj'
    rw [hd] at hd'
    cases hd'
  inTurn := hturn

end Orderly

end Scheduler

namespace Machine

variable {ε σ : Type} {handle : ε → σ → σ} {m m' : Machine ε σ}

theorem begin_orderly {m : Machine ε σ} (h : m.scheduler.Orderly m.starts) {id : Nat} {cause : Cause}
    (hturn : cause = .taskLoop → (taskStarts m.starts ++ id :: m.scheduler.tasks).Pairwise (· < ·)) :
    (m.begin id cause).scheduler.Orderly (m.begin id cause).starts := by
  rcases begin_cases m id cause with ⟨hm, -⟩ | ⟨j, hj, -, hd, hm⟩
  · rw [hm]
    exact h
  · rw [hm]
    refine h.start hj hd ?_
    by_cases hcause : cause = .taskLoop
    · subst hcause
      rw [taskStarts_append_task, List.append_assoc]
      exact hturn rfl
    · rw [taskStarts_append_other hcause]
      exact h.inTurn

theorem beginTask_orderly (h : m.scheduler.Orderly m.starts) {id : Nat} {ids : List Nat}
    (htasks : m.scheduler.tasks = id :: ids) (count : Nat) (rest : List (Activity ε)) :
    (m.beginTask id ids count rest).scheduler.Orderly (m.beginTask id ids count rest).starts := by
  apply begin_orderly
  · refine h.of_grows (.refl _) ?_ fun _ hid => hid
    rw [htasks]
    exact List.sublist_cons_self id ids
  · intro _
    rw [← htasks]
    exact h.inTurn

theorem Step.orderly (step : Step handle m m') (h : m.scheduler.Orderly m.starts) :
    m'.scheduler.Orderly m'.starts := by
  cases step with
  | callSoon => exact h.callSoon _
  | requestFrame => exact h.requestFrame _
  | cancel hid => exact h.of_grows (.cancel _ _) (.refl _) fun _ hid => hid
  | invoke hid | frame =>
    refine begin_orderly ?_ nofun
    exact h
  | task htasks => exact beginTask_orderly h htasks _ _
  | idleTask hframes htasks => exact beginTask_orderly h htasks _ _
  | runFrame => exact h.of_grows (.refl _) (.refl _) nofun
  | idleFrame hframes => exact h.of_grows (.refl _) (.refl _) nofun
  | _ => exact h

theorem Next.orderly (next : Next handle m m') (h : m.scheduler.Orderly m.starts) :
    m'.scheduler.Orderly m'.starts := by
  cases next with
  | step hstep => exact (step_of_step? hstep).orderly h
  | script actions => exact h

theorem Moment.orderly {w : σ} (h : Moment handle w m) : m.scheduler.Orderly m.starts := by
  induction h with
  | refl => exact .empty
  | tail _ next ih => exact next.orderly ih

/-! ## Starts and cancellations -/

theorem begin_starts (m : Machine ε σ) (id : Nat) (cause : Cause) :
    (m.begin id cause).starts = m.starts ∨
      (m.begin id cause).starts = m.starts ++ [⟨id, cause⟩] ∧ ¬ m.scheduler.Cancelled id := by
  rcases begin_cases m id cause with ⟨hm, -⟩ | ⟨j, hj, hc, -, hm⟩
  · exact .inl (by rw [hm])
  · refine .inr ⟨by rw [hm], ?_⟩
    rintro ⟨j', hj', hc'⟩
    rw [hj] at hj'
    cases hj'
    rw [hc] at hc'
    cases hc'

theorem Step.starts (step : Step handle m m') :
    m'.starts = m.starts ∨
      ∃ start, m'.starts = m.starts ++ [start] ∧ ¬ m.scheduler.Cancelled start.job := by
  cases step with
  | invoke hid | task htasks | frame | idleTask hframes htasks =>
    exact (begin_starts _ _ _).imp_right fun h => ⟨_, h⟩
  | _ => exact .inl rfl

theorem Next.starts (next : Next handle m m') :
    m'.starts = m.starts ∨
      ∃ start, m'.starts = m.starts ++ [start] ∧ ¬ m.scheduler.Cancelled start.job := by
  cases next with
  | step hstep => exact (step_of_step? hstep).starts
  | script actions => exact .inl rfl

theorem Later.starts_prefix (h : Later handle m m') : m.starts <+: m'.starts := by
  induction h with
  | refl => exact List.prefix_refl _
  | tail _ next ih =>
    rcases next.starts with hstarts | ⟨start, hstarts, -⟩
    · rwa [hstarts]
    · rw [hstarts]
      exact ih.trans (List.prefix_append _ _)

theorem Later.mem_starts_of_cancelled (h : Later handle m m') {start : Start}
    (hstart : start ∈ m'.starts) (hc : m.scheduler.Cancelled start.job) : start ∈ m.starts := by
  induction h with
  | refl => exact hstart
  | @tail m₁ m₂ hlater next ih =>
    rcases next.starts with hstarts | ⟨new, hstarts, hnew⟩
    · exact ih (hstarts ▸ hstart)
    · rw [hstarts] at hstart
      rcases List.mem_append.mp hstart with hstart | hstart
      · exact ih hstart
      · cases List.mem_singleton.mp hstart
        exact absurd ((Later.grows hlater).cancelled hc) hnew

/-! ## Frames -/

/-- Before `m`, a loop over the queue of the next frame began with `id` in the queue, when there
were `known` jobs. -/
def Waited (handle : ε → σ → σ) (w : σ) (m : Machine ε σ) (id known : Nat) : Prop :=
  ∃ m₀ below, Moment handle w m₀ ∧ m₀.step? handle = some (m₀.beginFrame below) ∧
    Later handle (m₀.beginFrame below) m ∧ id ∈ m₀.scheduler.frames ∧ m₀.scheduler.nextJob = known

variable {w : σ}

theorem Waited.later {id known : Nat} (h : Waited handle w m id known) (hlater : Later handle m m') :
    Waited handle w m' id known := by
  obtain ⟨m₀, below, hmoment, hstep, hm, hid, hknown⟩ := h
  exact ⟨m₀, below, hmoment, hstep, hm.trans hlater, hid, hknown⟩

theorem mem_begin {m : Machine ε σ} {id : Nat} {cause : Cause} {start : Start}
    (h : start ∈ (m.begin id cause).starts ++ (m.begin id cause).ahead) :
    start = ⟨id, cause⟩ ∨ start ∈ m.starts ++ m.ahead := by
  rw [begin_ahead] at h
  rcases begin_starts m id cause with hm | ⟨hm, -⟩
  · exact .inr (hm ▸ h)
  · rw [hm, List.append_assoc] at h
    rcases List.mem_append.mp h with h | h
    · exact .inr (List.mem_append_left _ h)
    · exact (List.mem_cons.mp h).imp_right (List.mem_append_right _)

theorem mem_beginFrame {m : Machine ε σ} {below : List (Activity ε)} {start : Start} {known : Nat}
    (hcause : start.cause = .frameLoop known)
    (h : start ∈ (m.beginFrame below).starts ++ (m.beginFrame below).ahead) :
    start ∈ m.starts ++ below.flatMap Activity.ahead ∨
      start.job ∈ m.scheduler.frames ∧ m.scheduler.nextJob = known := by
  rcases List.mem_append.mp h with h | h
  · exact .inl (List.mem_append_left _ h)
  · rcases List.mem_append.mp h with h | h
    · obtain ⟨id, hid, rfl⟩ := List.mem_map.mp h
      cases hcause
      exact .inr ⟨hid, rfl⟩
    · exact .inl (List.mem_append_right _ h)

/-- A frame that has started, or is ahead of a loop, was so before or waits as the loop begins. -/
theorem Step.mem_ahead (step : Step handle m m') {start : Start} {known : Nat}
    (hcause : start.cause = .frameLoop known) (h : start ∈ m'.starts ++ m'.ahead) :
    start ∈ m.starts ++ m.ahead ∨
      ∃ below, m' = m.beginFrame below ∧ start.job ∈ m.scheduler.frames ∧
        m.scheduler.nextJob = known := by
  cases step with
  | invoke hid | task htasks | idleTask hframes htasks =>
    rcases mem_begin h with rfl | h
    · cases hcause
    · exact .inl h
  | frame =>
    refine .inl ?_
    rcases mem_begin h with rfl | h
    · exact List.mem_append_right _ List.mem_cons_self
    · rcases List.mem_append.mp h with h | h
      · exact List.mem_append_left _ h
      · exact List.mem_append_right _ (List.mem_cons_of_mem _ h)
  | runFrame => exact (mem_beginFrame hcause h).imp_right fun h => ⟨_, rfl, h⟩
  | idleFrame hframes => exact (mem_beginFrame hcause h).imp_right fun h => ⟨_, rfl, h⟩
  | _ => exact .inl h

theorem Moment.waited (h : Moment handle w m) {start : Start} {known : Nat}
    (hcause : start.cause = .frameLoop known) (hstart : start ∈ m.starts ++ m.ahead) :
    Waited handle w m start.job known := by
  -- The induction goes back to the step in which the frame came to be ahead of a loop.
  induction h with
  | refl => cases hstart
  | @tail m₁ m₂ hmoment next ih =>
    cases next with
    | script actions => exact (ih hstart).later (.single (.script actions))
    | step hstep =>
      rcases (step_of_step? hstep).mem_ahead hcause hstart with hold | ⟨below, rfl, hid, hknown⟩
      · exact (ih hold).later (.single (.step hstep))
      · exact ⟨m₁, below, hmoment, hstep, .refl, hid, hknown⟩

/-! ## The order of a program's starts -/

/-- Jobs are numbered in the order of scheduling. At any moment `m'` of a program, none has started
twice, and none that was cancelled by an earlier moment `m` has started since. -/
theorem Moment.starts_inOrder (h : Moment handle w m) (hlater : Later handle m m') :
    m.starts <+: m'.starts ∧ (m'.starts.map Start.job).Nodup ∧
      (∀ start ∈ m'.starts, m.scheduler.Cancelled start.job → start ∈ m.starts) ∧
      (taskStarts m'.starts).Pairwise (· < ·) ∧
      ∀ start ∈ m'.starts, ∀ known, start.cause = .frameLoop known →
        Waited handle w m' start.job known ∧ start.job < known := by
  have hmoment : Moment handle w m' := h.trans hlater
  have horderly := hmoment.orderly
  refine ⟨hlater.starts_prefix, horderly.once, fun start => hlater.mem_starts_of_cancelled,
    (List.pairwise_append.mp horderly.inTurn).1, ?_⟩
  intro start hstart known hcause
  have hwaited := hmoment.waited hcause (List.mem_append_left _ hstart)
  refine ⟨hwaited, ?_⟩
  -- All that waited when the loop began had been scheduled by then.
  obtain ⟨m₀, below, hm₀, -, -, hid, rfl⟩ := hwaited
  exact hm₀.orderly.frames _ hid

/-- A callback drains the queue that it was started from, and a frame asks for another one. -/
theorem Moment.starts_inOrder_nested :
    let m : Machine Unit Unit := (initial ()).performAll (fun _ w => w)
      [.callSoon "outer" [.callSoon "inner" [], .runPending], .callSoon "next" [],
        .callSoon "dropped" [], .cancel "dropped",
        .requestFrame "draw" [.requestFrame "redraw" [], .cancel "late"], .requestFrame "late" []]
    let m' := m.performAll (fun _ w => w) [.runPending, .runFrame]
    m'.starts = [⟨0, .taskLoop⟩, ⟨1, .taskLoop⟩, ⟨5, .taskLoop⟩, ⟨3, .frameLoop 6⟩] ∧
      (Moment (fun _ w => w) () m ∧ Later (fun _ w => w) m m') ∧
      m.starts <+: m'.starts ∧ (m'.starts.map Start.job).Nodup ∧
      (∀ start ∈ m'.starts, m.scheduler.Cancelled start.job → start ∈ m.starts) ∧
      (taskStarts m'.starts).Pairwise (· < ·) ∧
      ∀ start ∈ m'.starts, ∀ known, start.cause = .frameLoop known →
        Waited (fun _ w => w) () m' start.job known ∧ start.job < known := by
  intro m m'
  have hmoment : Moment (fun _ w => w) () m := later_performAll rfl _
  have hlater : Later (fun _ w => w) m m' := later_performAll (performAll_stack rfl _) _
  exact ⟨by decide +kernel, ⟨hmoment, hlater⟩, Moment.starts_inOrder hmoment hlater⟩

end Machine

end Tablature
