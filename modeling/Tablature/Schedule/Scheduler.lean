/-!
# The scheduler

A callback is a finite script of actions. Actions schedule further callbacks,
cancel or run scheduled ones by their label, drain the queues, end the callback
early, or have an effect on the world outside the scheduler. The work of a
script bounds how many steps the callback and all that it schedules can take.

A scheduler has two queues, one for the next turn and one for the next frame.
Every callback that was ever scheduled is a job, known by its number; jobs are
numbered in the order of scheduling. A job runs at most once, and not at all
after it was cancelled.
-/

namespace Tablature

/-! ## Scripts -/

/-- What a callback can do; `ε` is the type of effects on the outside world. -/
inductive Action (ε : Type) where
  /-- Schedules a callback for the next turn. -/
  | callSoon (label : String) (actions : List (Action ε))
  /-- Schedules a callback for the next frame. -/
  | requestFrame (label : String) (actions : List (Action ε))
  | cancel (label : String)
  /-- Runs a scheduled callback at once. -/
  | invoke (label : String)
  | runPending
  | runFrame
  | runUntilIdle
  /-- Ends the callback. -/
  | fail
  | perform (effect : ε)

structure Callback (ε : Type) where
  label : String
  actions : List (Action ε)

mutual

/-- How much work an action brings. A scheduled callback brings the work of its own script, and
some more for its way through a queue. -/
def Action.work {ε : Type} : Action ε → Nat
  | .callSoon _ actions => Action.workAll actions + 4
  | .requestFrame _ actions => Action.workAll actions + 7
  | .cancel _ | .invoke _ | .fail | .perform _ => 1
  | .runPending | .runFrame | .runUntilIdle => 2

def Action.workAll {ε : Type} : List (Action ε) → Nat
  | [] => 0
  | a :: actions => a.work + Action.workAll actions

end

def Callback.work {ε : Type} (cb : Callback ε) : Nat := Action.workAll cb.actions + 1

/-! ## Queues -/

structure Job (ε : Type) where
  callback : Callback ε
  cancelled : Bool
  done : Bool

def Job.work {ε : Type} (j : Job ε) : Nat := if j.done then 0 else j.callback.work

def Job.workAll {ε : Type} : List (Job ε) → Nat
  | [] => 0
  | j :: jobs => j.work + Job.workAll jobs

structure Scheduler (ε : Type) where
  jobs : List (Job ε)
  /-- The numbers of the jobs that wait for the next turn. -/
  tasks : List Nat
  /-- The numbers of the jobs that wait for the next frame. -/
  frames : List Nat

namespace Scheduler

variable {ε : Type}

def empty : Scheduler ε := ⟨[], [], []⟩

def nextJob (s : Scheduler ε) : Nat := s.jobs.length

def addJob (s : Scheduler ε) (cb : Callback ε) : Scheduler ε :=
  { s with jobs := s.jobs ++ [⟨cb, false, false⟩] }

def callSoon (s : Scheduler ε) (cb : Callback ε) : Scheduler ε :=
  { s.addJob cb with tasks := s.tasks ++ [s.nextJob] }

def requestFrame (s : Scheduler ε) (cb : Callback ε) : Scheduler ε :=
  { s.addJob cb with frames := s.frames ++ [s.nextJob] }

def cancel (s : Scheduler ε) (id : Nat) : Scheduler ε :=
  { s with jobs := s.jobs.modify id fun j => { j with cancelled := true } }

def finish (s : Scheduler ε) (id : Nat) : Scheduler ε :=
  { s with jobs := s.jobs.modify id fun j => { j with done := true } }

def isLive (s : Scheduler ε) (id : Nat) : Bool := s.jobs[id]?.any (!·.cancelled)

def find? (s : Scheduler ε) (label : String) : Option Nat :=
  (s.jobs.zipIdx.reverse.find? (·.1.callback.label == label)).map Prod.snd

/-- How many jobs wait for the next turn, cancelled ones apart. -/
def pendingTasks (s : Scheduler ε) : Nat := s.tasks.countP s.isLive

def pendingFrames (s : Scheduler ε) : Nat := s.frames.countP s.isLive

def work (s : Scheduler ε) : Nat :=
  Job.workAll s.jobs + 2 * s.tasks.length + 5 * s.frames.length

/-! ## Work -/

theorem workAll_append (jobs jobs' : List (Job ε)) :
    Job.workAll (jobs ++ jobs') = Job.workAll jobs + Job.workAll jobs' := by
  induction jobs with
  | nil => simp [Job.workAll]
  | cons j jobs ih => simp only [List.cons_append, Job.workAll, ih, Nat.add_assoc]

theorem workAll_modify {f : Job ε → Job ε} (hf : ∀ j, (f j).work = j.work) (jobs : List (Job ε))
    (id : Nat) : Job.workAll (jobs.modify id f) = Job.workAll jobs := by
  induction jobs generalizing id with
  | nil => cases id <;> rfl
  | cons j jobs ih =>
    cases id with
    | zero => simp [List.modify_zero_cons, Job.workAll, hf]
    | succ id => simp [List.modify_succ_cons, Job.workAll, ih]

theorem work_cancel (s : Scheduler ε) (id : Nat) : (s.cancel id).work = s.work := by
  have h := workAll_modify (f := fun j : Job ε => { j with cancelled := true })
    (fun _ => rfl) s.jobs id
  simp only [work, cancel, h]

theorem workAll_finish {jobs : List (Job ε)} {id : Nat} {j : Job ε} (h : jobs[id]? = some j)
    (hd : j.done = false) :
    Job.workAll (jobs.modify id fun j => { j with done := true }) + j.callback.work =
      Job.workAll jobs := by
  induction jobs generalizing id with
  | nil => simp at h
  | cons k jobs ih =>
    cases id with
    | zero =>
      simp only [List.getElem?_cons_zero, Option.some.injEq] at h
      subst h
      simp [List.modify_zero_cons, Job.workAll, Job.work, hd]
      omega
    | succ id =>
      simp only [List.getElem?_cons_succ] at h
      have := ih h
      simp only [List.modify_succ_cons, Job.workAll]
      omega

/-- Finishing a job takes its work out of the scheduler. -/
theorem work_finish {s : Scheduler ε} {id : Nat} {j : Job ε} (h : s.jobs[id]? = some j)
    (hd : j.done = false) : (s.finish id).work + j.callback.work = s.work := by
  have := workAll_finish h hd
  simp only [work, finish]
  omega

theorem work_callSoon (s : Scheduler ε) (cb : Callback ε) :
    (s.callSoon cb).work = s.work + cb.work + 2 := by
  simp [work, callSoon, addJob, workAll_append, Job.workAll, Job.work]
  omega

theorem work_requestFrame (s : Scheduler ε) (cb : Callback ε) :
    (s.requestFrame cb).work = s.work + cb.work + 5 := by
  simp [work, requestFrame, addJob, workAll_append, Job.workAll, Job.work]
  omega

end Scheduler

end Tablature
