import Tablature.Proofs.Schedule.TaskLoop

/-!
# A frame with one job waiting

The queue of the next frame may hold cancelled jobs and, behind them, at most one
that still waits, while nothing is to be done at the next turn. The next frame
runs the one that waits and leaves an empty queue.
-/

namespace Tablature

namespace Scheduler

variable {ε σ : Type}

/-- The counterpart of `Waits` for the queue of the next frame. -/
structure AwaitsFrame (s : Scheduler ε) (cb : Callback ε) (waiting : Option Nat) : Prop where
  tasks : s.tasks = []
  frames : ∃ ids, (∀ id ∈ ids, s.Cancelled id) ∧ s.frames = ids ++ waiting.toList
  job : ∀ id, waiting = some id → s.jobs[id]? = some ⟨cb, false, false⟩

def afterFrame (s : Scheduler ε) (waiting : Option Nat) : Scheduler ε :=
  { (waiting.elim s s.finish) with frames := [] }

theorem afterFrame_none {s : Scheduler ε} (h : s.frames = []) : s.afterFrame none = s := by
  cases s
  cases h
  rfl

namespace AwaitsFrame

variable {s : Scheduler ε} {cb : Callback ε} {waiting : Option Nat}

theorem empty : (empty : Scheduler ε).AwaitsFrame cb none where
  tasks := rfl
  frames := ⟨[], by simp, rfl⟩
  job := by simp

theorem requestFrame (h : s.AwaitsFrame cb none) :
    (s.requestFrame cb).AwaitsFrame cb (some s.nextJob) where
  tasks := h.tasks
  frames := by
    obtain ⟨ids, hids, hframes⟩ := h.frames
    refine ⟨ids, fun id hid => (hids id hid).requestFrame cb, ?_⟩
    simp [Scheduler.requestFrame, hframes]
  job := by
    intro id hid
    cases hid
    simp [Scheduler.requestFrame, addJob, nextJob]

theorem cancel {id : Nat} (h : s.AwaitsFrame cb (some id)) : (s.cancel id).AwaitsFrame cb none where
  tasks := h.tasks
  frames := by
    obtain ⟨ids, hids, hframes⟩ := h.frames
    refine ⟨ids ++ [id], ?_, by simp [Scheduler.cancel, hframes]⟩
    intro id' hid'
    rcases List.mem_append.mp hid' with hid' | hid'
    · exact (hids id' hid').cancel id
    · cases List.mem_singleton.mp hid'
      exact cancel_cancelled (h.job id rfl)
  job := by simp

theorem afterFrame (h : s.AwaitsFrame cb waiting) : (s.afterFrame waiting).AwaitsFrame cb none where
  tasks := by cases waiting <;> exact h.tasks
  frames := ⟨[], by simp, rfl⟩
  job := by simp

end AwaitsFrame

end Scheduler

namespace Machine

variable {ε σ : Type} (handle : ε → σ → σ) (s : Scheduler ε) (w : σ) (rest : List (Activity ε))
  (starts : List Start) (known count returned : Nat)

theorem run_frameLoop_cancelled {ids : List Nat} (more : List Nat) (h : ∀ id ∈ ids, s.Cancelled id) :
    run handle ⟨s, w, .frameLoop (ids ++ more) known count :: rest, starts, returned⟩ =
      run handle ⟨s, w, .frameLoop more known count :: rest, starts, returned⟩ := by
  induction ids with
  | nil => rfl
  | cons id ids ih =>
    have hid : s.Cancelled id := h id List.mem_cons_self
    rw [← ih fun id' hid' => h id' (List.mem_cons_of_mem _ hid')]
    apply run_of_step?
    simp only [step?, List.cons_append]
    rw [begin_cancelled hid]
    simp [hid.isLive]

theorem run_frameLoop_waiting {id : Nat} {label : String} {e : ε}
    (h : s.jobs[id]? = some ⟨⟨label, [.perform e]⟩, false, false⟩) :
    run handle ⟨s, w, .frameLoop [id] known count :: rest, starts, returned⟩ =
      run handle ⟨s.finish id, handle e w, rest, starts ++ [⟨id, .frameLoop known⟩], count + 1⟩ := by
  have htake : step? handle ⟨s, w, .frameLoop [id] known count :: rest, starts, returned⟩ =
      some ⟨s.finish id, w, .script [.perform e] :: .frameLoop [] known (count + 1) :: rest,
        starts ++ [⟨id, .frameLoop known⟩], returned⟩ := by
    simp [step?, begin, Scheduler.isLive, Scheduler.finish, h]
  rw [run_of_step? htake, run_script_perform]
  exact run_of_step? rfl

end Machine

/-! ## What runs in a frame -/

namespace Scheduler.AwaitsFrame

variable {ε σ : Type} {s : Scheduler ε} {label : String} {e : ε} {waiting : Option Nat}

theorem frames_nil (h : s.AwaitsFrame ⟨label, [.perform e]⟩ waiting) (hframes : s.frames = []) :
    waiting = none := by
  obtain ⟨ids, -, hids⟩ := h.frames
  rw [hframes, eq_comm, List.append_eq_nil_iff] at hids
  cases waiting with
  | none => rfl
  | some id => simp at hids

theorem run_frameLoop (h : s.AwaitsFrame ⟨label, [.perform e]⟩ waiting) (handle : ε → σ → σ) (w : σ)
    (rest : List (Activity ε)) (starts : List Start) (known returned : Nat) :
    ∃ starts' returned',
      Machine.run handle
          ⟨{ s with frames := [] }, w, .frameLoop s.frames known 0 :: rest, starts, returned⟩ =
        Machine.run handle
          ⟨s.afterFrame waiting, waiting.elim w fun _ => handle e w, rest, starts', returned'⟩ := by
  obtain ⟨ids, hids, hframes⟩ := h.frames
  rw [hframes]
  have hpass := Machine.run_frameLoop_cancelled handle { s with frames := [] } w rest starts known 0
    returned waiting.toList hids
  cases waiting with
  | none => exact ⟨starts, 0, hpass.trans (Machine.run_of_step? rfl)⟩
  | some id =>
    exact ⟨_, _, hpass.trans
      (Machine.run_frameLoop_waiting handle { s with frames := [] } w rest starts known 0 returned
        (h.job id rfl))⟩

variable (handle : ε → σ → σ) (w : σ)

theorem perform_runFrame (h : s.AwaitsFrame ⟨label, [.perform e]⟩ waiting) :
    (s.perform handle w .runFrame).world = (waiting.elim w fun _ => handle e w) ∧
      (s.perform handle w .runFrame).scheduler = s.afterFrame waiting := by
  obtain ⟨starts', returned', hrun⟩ := h.run_frameLoop handle w [.script []] [] s.nextJob 0
  have hframe : Machine.step? handle ⟨s, w, [.script [.runFrame]], [], 0⟩ =
      some ⟨{ s with frames := [] }, w, [.frameLoop s.frames s.nextJob 0, .script []], [], 0⟩ := rfl
  rw [perform, Machine.run_of_step? hframe, hrun, Machine.run_script_nil]
  exact ⟨rfl, rfl⟩

theorem perform_runUntilIdle (h : s.AwaitsFrame ⟨label, [.perform e]⟩ waiting) :
    (s.perform handle w .runUntilIdle).world = (waiting.elim w fun _ => handle e w) ∧
      (s.perform handle w .runUntilIdle).scheduler = s.afterFrame waiting := by
  have hstart : s.perform handle w .runUntilIdle =
      Machine.run handle ⟨s, w, [.idleLoop, .script []], [], 0⟩ := Machine.run_of_step? rfl
  by_cases hframes : s.frames = []
  · -- Without a frame nothing runs, and no job can have been waiting.
    cases h.frames_nil hframes
    rw [hstart, Machine.run_idleLoop_nil _ _ _ _ _ _ hframes h.tasks, Machine.run_script_nil,
      afterFrame_none hframes]
    exact ⟨rfl, rfl⟩
  · obtain ⟨starts', returned', hrun⟩ :=
      h.run_frameLoop handle w [.taskLoop 0, .idleLoop, .script []] [] s.nextJob 0
    have hframe : Machine.step? handle ⟨s, w, [.idleLoop, .script []], [], 0⟩ =
        some ⟨{ s with frames := [] }, w,
          [.frameLoop s.frames s.nextJob 0, .taskLoop 0, .idleLoop, .script []], [], 0⟩ := by
      obtain ⟨id, ids, hframes⟩ := List.exists_cons_of_ne_nil hframes
      simp [Machine.step?, Machine.beginFrame, hframes]
    -- The frame schedules nothing, so the two loops behind it end at once.
    rw [hstart, Machine.run_of_step? hframe, hrun,
      Machine.run_taskLoop_nil _ _ _ _ _ _ _ h.afterFrame.tasks,
      Machine.run_idleLoop_nil _ _ _ _ _ _ rfl h.afterFrame.tasks, Machine.run_script_nil]
    exact ⟨rfl, rfl⟩

theorem perform_runPending {cb : Callback ε} (h : s.AwaitsFrame cb waiting) :
    (s.perform handle w .runPending).world = w ∧ (s.perform handle w .runPending).scheduler = s := by
  have hrun : s.perform handle w .runPending = ⟨s, w, [], [], 0⟩ := by
    unfold perform
    rw [Machine.run_of_step? (n := ⟨s, w, [.taskLoop 0, .script []], [], 0⟩) rfl,
      Machine.run_taskLoop_nil _ _ _ _ _ _ _ h.tasks, Machine.run_script_nil]
  rw [hrun]
  exact ⟨rfl, rfl⟩

end Scheduler.AwaitsFrame

end Tablature
