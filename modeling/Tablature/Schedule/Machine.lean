import Tablature.Schedule.Scheduler

/-!
# Running callbacks

A machine runs a scheduler. Its stack holds what is under way: scripts with
actions left, and loops that drain a queue. A loop that starts a callback waits
below it, and a callback may itself start loops. Each step takes some of the
work away, so every run ends.
-/

namespace Tablature

inductive Cause where
  /-- A direct call. -/
  | direct
  /-- A loop over the queue of the next turn. -/
  | taskLoop
  /-- A loop over the queue of the next frame; there were `known` jobs when it began. -/
  | frameLoop (known : Nat)
  /-- A timer that was due. -/
  | timer
deriving Repr, DecidableEq

structure Start where
  job : Nat
  cause : Cause
deriving Repr, DecidableEq

/-- Something under way. A loop counts the jobs that it took from its queue, cancelled ones apart. -/
inductive Activity (ε : Type) where
  | script (actions : List (Action ε))
  | taskLoop (count : Nat)
  | frameLoop (ids : List Nat) (known count : Nat)
  | idleLoop

namespace Activity

def work {ε : Type} : Activity ε → Nat
  | script actions => Action.workAll actions + 1
  | taskLoop _ => 1
  | frameLoop ids _ _ => 2 * ids.length + 1
  | idleLoop => 1

def workAll {ε : Type} : List (Activity ε) → Nat
  | [] => 0
  | a :: stack => a.work + workAll stack

end Activity

/-- A scheduler at work; `σ` is the type of the outside world. -/
structure Machine (ε σ : Type) where
  scheduler : Scheduler ε
  world : σ
  stack : List (Activity ε)
  starts : List Start
  /-- The count of the loop that ended last. -/
  returned : Nat

namespace Machine

variable {ε σ : Type}

def work (m : Machine ε σ) : Nat := m.scheduler.work + Activity.workAll m.stack

def begin (m : Machine ε σ) (id : Nat) (cause : Cause) : Machine ε σ :=
  match m.scheduler.jobs[id]? with
  | none => m
  | some j =>
    if j.cancelled || j.done then m
    else
      { m with
        scheduler := m.scheduler.finish id
        stack := .script j.callback.actions :: m.stack
        starts := m.starts ++ [⟨id, cause⟩] }

/-- Takes the first task from its queue on behalf of a loop that has counted `count` so far. -/
def beginTask (m : Machine ε σ) (id : Nat) (ids : List Nat) (count : Nat)
    (rest : List (Activity ε)) : Machine ε σ :=
  { m with
    scheduler := { m.scheduler with tasks := ids }
    stack := .taskLoop (count + if m.scheduler.isLive id then 1 else 0) :: rest }.begin id .taskLoop

def beginFrame (m : Machine ε σ) (rest : List (Activity ε)) : Machine ε σ :=
  { m with
    scheduler := { m.scheduler with frames := [] }
    stack := .frameLoop m.scheduler.frames m.scheduler.nextJob 0 :: rest }

/-- Carries out an action of a script; `rest` is the stack below the script, and `below` the same
with the actions that follow. An action on a label that no job has ends the script. -/
def act (handle : ε → σ → σ) (m : Machine ε σ) (below rest : List (Activity ε)) :
    Action ε → Machine ε σ
  | .callSoon label actions =>
    { m with scheduler := m.scheduler.callSoon ⟨label, actions⟩, stack := below }
  | .requestFrame label actions =>
    { m with scheduler := m.scheduler.requestFrame ⟨label, actions⟩, stack := below }
  | .cancel label =>
    match m.scheduler.find? label with
    | none => { m with stack := rest }
    | some id => { m with scheduler := m.scheduler.cancel id, stack := below }
  | .invoke label =>
    match m.scheduler.find? label with
    | none => { m with stack := rest }
    | some id => { m with stack := below }.begin id .direct
  | .runPending => { m with stack := .taskLoop 0 :: below }
  | .runFrame => m.beginFrame below
  | .runUntilIdle => { m with stack := .idleLoop :: below }
  | .fail => { m with stack := rest }
  | .perform e => { m with world := handle e m.world, stack := below }

def step? (handle : ε → σ → σ) (m : Machine ε σ) : Option (Machine ε σ) :=
  match m.stack with
  | [] => none
  | .script [] :: rest => some { m with stack := rest }
  | .script (a :: actions) :: rest => some (m.act handle (.script actions :: rest) rest a)
  | .taskLoop count :: rest =>
    match m.scheduler.tasks with
    | [] => some { m with stack := rest, returned := count }
    | id :: ids => some (m.beginTask id ids count rest)
  | .frameLoop [] _ count :: rest => some { m with stack := rest, returned := count }
  | .frameLoop (id :: ids) known count :: rest =>
    let counted := count + if m.scheduler.isLive id then 1 else 0
    some ({ m with stack := .frameLoop ids known counted :: rest }.begin id (.frameLoop known))
  | .idleLoop :: rest =>
    match m.scheduler.frames, m.scheduler.tasks with
    | [], [] => some { m with stack := rest }
    | [], id :: ids => some (m.beginTask id ids 0 (.idleLoop :: rest))
    | _ :: _, _ => some (m.beginFrame (.taskLoop 0 :: .idleLoop :: rest))

/-! ## Every step takes work away -/

theorem work_begin (m : Machine ε σ) (id : Nat) (cause : Cause) : (m.begin id cause).work = m.work := by
  unfold begin
  split
  · rfl
  · rename_i j hj
    split
    · rfl
    · rename_i h
      have hd : j.done = false := by
        cases hd : j.done with
        | false => rfl
        | true => simp [hd] at h
      have := Scheduler.work_finish hj hd
      simp only [work, Activity.workAll, Activity.work, Callback.work] at this ⊢
      omega

theorem work_beginTask {m : Machine ε σ} {id : Nat} {ids : List Nat} (count : Nat)
    (rest : List (Activity ε)) (h : m.scheduler.tasks = id :: ids) :
    (m.beginTask id ids count rest).work + 1 = m.scheduler.work + Activity.workAll rest := by
  unfold beginTask
  rw [work_begin]
  simp only [work, Scheduler.work, h, Activity.workAll, Activity.work, List.length_cons]
  omega

theorem work_beginFrame (m : Machine ε σ) (rest : List (Activity ε)) :
    (m.beginFrame rest).work + 3 * m.scheduler.frames.length =
      m.scheduler.work + Activity.workAll rest + 1 := by
  simp only [beginFrame, work, Scheduler.work, Activity.workAll, Activity.work,
    List.length_nil]
  omega

theorem work_act_lt (handle : ε → σ → σ) (m : Machine ε σ) (a : Action ε)
    (actions : List (Action ε)) (rest : List (Activity ε)) :
    (m.act handle (.script actions :: rest) rest a).work <
      m.scheduler.work + (Action.workAll (a :: actions) + 1) + Activity.workAll rest := by
  cases a with
  | callSoon label cb =>
    simp only [act, work, Scheduler.work_callSoon, Activity.workAll, Activity.work,
      Callback.work, Action.workAll, Action.work]
    omega
  | requestFrame label cb =>
    simp only [act, work, Scheduler.work_requestFrame, Activity.workAll, Activity.work,
      Callback.work, Action.workAll, Action.work]
    omega
  | cancel label =>
    simp only [act, Action.workAll, Action.work]
    split
    · simp only [work]
      omega
    · simp only [work, Scheduler.work_cancel, Activity.workAll, Activity.work]
      omega
  | invoke label =>
    simp only [act, Action.workAll, Action.work]
    split
    · simp only [work]
      omega
    · rw [work_begin]
      simp only [work, Activity.workAll, Activity.work]
      omega
  | runPending =>
    simp only [act, work, Activity.workAll, Activity.work, Action.workAll, Action.work]
    omega
  | runFrame =>
    have := work_beginFrame m (.script actions :: rest)
    simp only [act, Activity.workAll, Activity.work, Action.workAll, Action.work] at this ⊢
    omega
  | runUntilIdle =>
    simp only [act, work, Activity.workAll, Activity.work, Action.workAll, Action.work]
    omega
  | fail =>
    simp only [act, work, Action.workAll, Action.work]
    omega
  | perform e =>
    simp only [act, work, Activity.workAll, Activity.work, Action.workAll, Action.work]
    omega

theorem work_step?_lt {handle : ε → σ → σ} {m m' : Machine ε σ} (h : m.step? handle = some m') :
    m'.work < m.work := by
  have hm : m.work = m.scheduler.work + Activity.workAll m.stack := rfl
  unfold step? at h
  split at h
  · exact nomatch h
  · rename_i rest hs
    cases h
    simp only [hs, work, Activity.workAll, Activity.work] at hm ⊢
    omega
  · rename_i a actions rest hs
    cases h
    have := work_act_lt handle m a actions rest
    simp only [hs, Activity.workAll, Activity.work] at hm
    omega
  · rename_i count rest hs
    simp only [hs, Activity.workAll, Activity.work] at hm
    split at h
    · cases h
      simp only [work] at hm ⊢
      omega
    · rename_i id ids ht
      cases h
      have := work_beginTask count rest ht
      omega
  · rename_i known count rest hs
    cases h
    simp only [hs, work, Activity.workAll, Activity.work] at hm ⊢
    omega
  · rename_i id ids known count rest hs
    cases h
    rw [work_begin]
    simp only [hs, work, Activity.workAll, Activity.work, List.length_cons] at hm ⊢
    omega
  · rename_i rest hs
    simp only [hs, Activity.workAll, Activity.work] at hm
    split at h
    · cases h
      simp only [work] at hm ⊢
      omega
    · rename_i id ids _ ht
      cases h
      have := work_beginTask 0 (.idleLoop :: rest) ht
      simp only [Activity.workAll, Activity.work] at this
      omega
    · rename_i id ids _ hf
      cases h
      have := work_beginFrame m (.taskLoop 0 :: .idleLoop :: rest)
      simp only [hf, Activity.workAll, Activity.work, List.length_cons] at this
      omega

def run (handle : ε → σ → σ) (m : Machine ε σ) : Machine ε σ :=
  match _h : m.step? handle with
  | none => m
  | some m' => run handle m'
termination_by m.work
decreasing_by exact work_step?_lt _h

theorem work_run_le (handle : ε → σ → σ) (m : Machine ε σ) : (m.run handle).work ≤ m.work := by
  fun_induction run handle m with
  | case1 m h => exact Nat.le_refl _
  | case2 m m' h ih => exact Nat.le_trans ih (Nat.le_of_lt (work_step?_lt h))

end Machine

namespace Scheduler

variable {ε σ : Type}

def perform (s : Scheduler ε) (handle : ε → σ → σ) (world : σ) (a : Action ε) : Machine ε σ :=
  Machine.run handle ⟨s, world, [.script [a]], [], 0⟩

end Scheduler

end Tablature
