import Tablature.Proofs.Schedule.Steps

/-!
# A queue with one job waiting

Often the queue of the next turn holds cancelled jobs only and, behind them, at
most one that still waits. A turn then passes the cancelled jobs over and runs
the one that waits.
-/

namespace Tablature

namespace Scheduler

variable {ε : Type}

/-- No frame is asked for, and in the queue of the next turn only the last job, if any, waits to be
called back. -/
structure Waits (s : Scheduler ε) (cb : Callback ε) (waiting : Option Nat) : Prop where
  frames : s.frames = []
  tasks : ∃ ids, (∀ id ∈ ids, s.Cancelled id) ∧ s.tasks = ids ++ waiting.toList
  job : ∀ id, waiting = some id → s.jobs[id]? = some ⟨cb, false, false⟩

namespace Waits

variable {s : Scheduler ε} {cb : Callback ε}

theorem empty : (empty : Scheduler ε).Waits cb none where
  frames := rfl
  tasks := ⟨[], by simp, rfl⟩
  job := by simp

theorem callSoon (h : s.Waits cb none) : (s.callSoon cb).Waits cb (some s.nextJob) where
  frames := h.frames
  tasks := by
    obtain ⟨ids, hids, htasks⟩ := h.tasks
    refine ⟨ids, fun id hid => (hids id hid).callSoon cb, ?_⟩
    simp [Scheduler.callSoon, htasks]
  job := by
    intro id hid
    cases hid
    simp [Scheduler.callSoon, addJob, nextJob]

theorem cancel {id : Nat} (h : s.Waits cb (some id)) : (s.cancel id).Waits cb none where
  frames := h.frames
  tasks := by
    obtain ⟨ids, hids, htasks⟩ := h.tasks
    refine ⟨ids ++ [id], ?_, by simp [Scheduler.cancel, htasks]⟩
    intro id' hid'
    rcases List.mem_append.mp hid' with hid' | hid'
    · exact (hids id' hid').cancel id
    · cases List.mem_singleton.mp hid'
      exact cancel_cancelled (h.job id rfl)
  job := by simp

end Waits

end Scheduler

namespace Machine

variable {ε σ : Type} {handle : ε → σ → σ}

theorem run_script_nil (handle : ε → σ → σ) (s : Scheduler ε) (w : σ) (starts : List Start)
    (returned : Nat) :
    run handle ⟨s, w, [.script []], starts, returned⟩ = ⟨s, w, [], starts, returned⟩ := by
  rw [run_of_step? (n := ⟨s, w, [], starts, returned⟩) rfl, run_of_stack_nil rfl]

theorem begin_cancelled {m : Machine ε σ} {id : Nat} (h : m.scheduler.Cancelled id) (cause : Cause) :
    m.begin id cause = m := by
  obtain ⟨j, hj, hc⟩ := h
  simp [begin, hj, hc]

section
variable (handle : ε → σ → σ) (s : Scheduler ε) (w : σ) (rest : List (Activity ε))
  (starts : List Start) (count returned : Nat)

theorem run_script_perform (e : ε) :
    run handle ⟨s, w, .script [.perform e] :: rest, starts, returned⟩ =
      run handle ⟨s, handle e w, rest, starts, returned⟩ := by
  have hperform : run handle ⟨s, w, .script [.perform e] :: rest, starts, returned⟩ =
      run handle ⟨s, handle e w, .script [] :: rest, starts, returned⟩ := run_of_step? rfl
  exact hperform.trans (run_of_step? rfl)

theorem run_taskLoop_cancelled {ids : List Nat} (more : List Nat) (h : ∀ id ∈ ids, s.Cancelled id) :
    run handle ⟨{ s with tasks := ids ++ more }, w, .taskLoop count :: rest, starts, returned⟩ =
      run handle ⟨{ s with tasks := more }, w, .taskLoop count :: rest, starts, returned⟩ := by
  induction ids with
  | nil => rfl
  | cons id ids ih =>
    have hid : Scheduler.Cancelled { s with tasks := id :: ids ++ more } id := h id List.mem_cons_self
    rw [← ih fun id' hid' => h id' (List.mem_cons_of_mem _ hid')]
    apply run_of_step?
    simp only [step?, List.cons_append, beginTask] at hid ⊢
    rw [begin_cancelled hid]
    simp [hid.isLive]

theorem run_taskLoop_nil (h : s.tasks = []) :
    run handle ⟨s, w, .taskLoop count :: rest, starts, returned⟩ =
      run handle ⟨s, w, rest, starts, count⟩ :=
  run_of_step? (by simp [step?, h])

theorem run_taskLoop_waiting {id : Nat} {label : String} {e : ε}
    (h : s.jobs[id]? = some ⟨⟨label, [.perform e]⟩, false, false⟩) :
    run handle ⟨{ s with tasks := [id] }, w, .taskLoop count :: rest, starts, returned⟩ =
      run handle ⟨{ s.finish id with tasks := [] }, handle e w, rest,
        starts ++ [⟨id, .taskLoop⟩], count + 1⟩ := by
  have htake : step? handle
        ⟨{ s with tasks := [id] }, w, .taskLoop count :: rest, starts, returned⟩ =
      some ⟨{ s.finish id with tasks := [] }, w,
        .script [.perform e] :: .taskLoop (count + 1) :: rest, starts ++ [⟨id, .taskLoop⟩],
        returned⟩ := by
    simp [step?, beginTask, begin, Scheduler.isLive, Scheduler.finish, h]
  rw [run_of_step? htake, run_script_perform, run_taskLoop_nil _ _ _ _ _ _ _ rfl]

theorem run_idleLoop (hframes : s.frames = []) (htasks : s.tasks ≠ []) :
    run handle ⟨s, w, .idleLoop :: rest, starts, returned⟩ =
      run handle ⟨s, w, .taskLoop 0 :: .idleLoop :: rest, starts, returned⟩ := by
  obtain ⟨id, ids, htasks⟩ := List.exists_cons_of_ne_nil htasks
  have hidle : step? handle ⟨s, w, .idleLoop :: rest, starts, returned⟩ =
      some (beginTask ⟨s, w, [], starts, returned⟩ id ids 0 (.idleLoop :: rest)) := by
    simp [step?, hframes, htasks, beginTask]
  have htask : step? handle ⟨s, w, .taskLoop 0 :: .idleLoop :: rest, starts, returned⟩ =
      some (beginTask ⟨s, w, [], starts, returned⟩ id ids 0 (.idleLoop :: rest)) := by
    simp [step?, htasks, beginTask]
  rw [run_of_step? hidle, run_of_step? htask]

theorem run_idleLoop_nil (hframes : s.frames = []) (htasks : s.tasks = []) :
    run handle ⟨s, w, .idleLoop :: rest, starts, returned⟩ =
      run handle ⟨s, w, rest, starts, returned⟩ :=
  run_of_step? (by simp [step?, hframes, htasks])

end

end Machine

/-! ## A turn -/

namespace Scheduler

variable {ε σ : Type} {s : Scheduler ε} {label : String} {e : ε} {waiting : Option Nat}

/-- What a turn leaves of a scheduler in which one job may wait. -/
def settle (s : Scheduler ε) (waiting : Option Nat) : Scheduler ε :=
  { (waiting.elim s s.finish) with tasks := [] }

theorem settle_none (h : s.tasks = []) : s.settle none = s := by
  cases s
  cases h
  rfl

namespace Waits

theorem settle (h : s.Waits ⟨label, [.perform e]⟩ waiting) :
    (s.settle waiting).Waits ⟨label, [.perform e]⟩ none where
  frames := by cases waiting <;> exact h.frames
  tasks := ⟨[], by simp, rfl⟩
  job := by simp

section
variable (handle : ε → σ → σ) (w : σ) (rest : List (Activity ε)) (starts : List Start)
  (returned : Nat)

theorem run_taskLoop (h : s.Waits ⟨label, [.perform e]⟩ waiting) :
    ∃ starts' returned', Machine.run handle ⟨s, w, .taskLoop 0 :: rest, starts, returned⟩ =
      Machine.run handle
        ⟨s.settle waiting, waiting.elim w fun _ => handle e w, rest, starts', returned'⟩ := by
  obtain ⟨ids, hids, htasks⟩ := h.tasks
  have hpass := Machine.run_taskLoop_cancelled handle s w rest starts 0 returned waiting.toList hids
  rw [← htasks] at hpass
  cases waiting with
  | none => exact ⟨starts, 0, hpass.trans (Machine.run_taskLoop_nil _ _ _ _ _ _ _ rfl)⟩
  | some id =>
    exact ⟨_, _, hpass.trans (Machine.run_taskLoop_waiting handle s w rest starts 0 returned (h.job id rfl))⟩

theorem run_idleLoop (h : s.Waits ⟨label, [.perform e]⟩ waiting) :
    ∃ starts' returned', Machine.run handle ⟨s, w, .idleLoop :: rest, starts, returned⟩ =
      Machine.run handle
        ⟨s.settle waiting, waiting.elim w fun _ => handle e w, rest, starts', returned'⟩ := by
  by_cases htasks : s.tasks = []
  · -- Without a task the outer loop ends at once, and no job can have been waiting.
    have hnone : waiting = none := by
      obtain ⟨ids, -, hids⟩ := h.tasks
      rw [htasks, eq_comm, List.append_eq_nil_iff] at hids
      cases waiting with
      | none => rfl
      | some id => simp at hids
    subst hnone
    rw [settle_none htasks]
    exact ⟨starts, returned, Machine.run_idleLoop_nil _ _ _ _ _ _ h.frames htasks⟩
  · -- With one it behaves as the inner loop, and finds nothing left to do after it.
    obtain ⟨starts', returned', hrun⟩ := h.run_taskLoop handle w (.idleLoop :: rest) starts returned
    refine ⟨starts', returned', ?_⟩
    rw [Machine.run_idleLoop _ _ _ _ _ _ h.frames htasks, hrun]
    exact Machine.run_idleLoop_nil _ _ _ _ _ _ h.settle.frames rfl

end

theorem perform_turn (h : s.Waits ⟨label, [.perform e]⟩ waiting) (handle : ε → σ → σ)
    {loop : Action ε} (hloop : loop = .runPending ∨ loop = .runUntilIdle) (w : σ) :
    (s.perform handle w loop).world = (waiting.elim w fun _ => handle e w) ∧
      (s.perform handle w loop).scheduler = s.settle waiting := by
  unfold perform
  rcases hloop with rfl | rfl
  · obtain ⟨starts', returned', hrun⟩ := h.run_taskLoop handle w [.script []] [] 0
    rw [Machine.run_of_step? (n := ⟨s, w, [.taskLoop 0, .script []], [], 0⟩) rfl, hrun, Machine.run_script_nil]
    exact ⟨rfl, rfl⟩
  · obtain ⟨starts', returned', hrun⟩ := h.run_idleLoop handle w [.script []] [] 0
    rw [Machine.run_of_step? (n := ⟨s, w, [.idleLoop, .script []], [], 0⟩) rfl, hrun, Machine.run_script_nil]
    exact ⟨rfl, rfl⟩

theorem perform_runFrame (h : s.Waits ⟨label, [.perform e]⟩ waiting) (handle : ε → σ → σ) (w : σ) :
    (s.perform handle w .runFrame).world = w ∧ (s.perform handle w .runFrame).scheduler = s := by
  have hrun : s.perform handle w .runFrame = ⟨s, w, [], [], 0⟩ := by
    unfold perform
    have hframe : Machine.step? handle ⟨s, w, [.script [.runFrame]], [], 0⟩ =
        some ⟨s, w, [.frameLoop [] s.nextJob 0, .script []], [], 0⟩ := by
      have hframes := h.frames
      cases s
      cases hframes
      rfl
    rw [Machine.run_of_step? hframe,
      Machine.run_of_step? (n := ⟨s, w, [.script []], [], 0⟩) rfl, Machine.run_script_nil]
  rw [hrun]
  exact ⟨rfl, rfl⟩

end Waits

end Scheduler

end Tablature
