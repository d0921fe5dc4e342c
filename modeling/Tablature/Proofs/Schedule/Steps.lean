import Mathlib.Logic.Relation
import Tablature.Proofs.Schedule.Jobs
import Tablature.Schedule.Machine

/-!
# The steps of a machine

A machine takes its steps by few rules, and every run comes to an end. A program
runs scripts on one machine, each as soon as nothing is under way; its moments are
all that such a machine goes through. A machine changes the outside world by
effects only, so whatever every effect keeps holds after each run.
-/

namespace Tablature

open Relation

def Activity.ahead {ε : Type} : Activity ε → List Start
  | .frameLoop ids known _ => ids.map (⟨·, .frameLoop known⟩)
  | _ => []

namespace Machine

variable {ε σ : Type}

/-- A job that is to start does so, unless it was cancelled or has already run. -/
theorem begin_cases (m : Machine ε σ) (id : Nat) (cause : Cause) :
    m.begin id cause = m ∧
        (∀ j, m.scheduler.jobs[id]? = some j → j.cancelled = true ∨ j.done = true) ∨
      ∃ j, m.scheduler.jobs[id]? = some j ∧ j.cancelled = false ∧ j.done = false ∧
        m.begin id cause =
          { m with
            scheduler := m.scheduler.finish id
            stack := .script j.callback.actions :: m.stack
            starts := m.starts ++ [⟨id, cause⟩] } := by
  cases hj : m.scheduler.jobs[id]? with
  | none => exact .inl ⟨by simp [begin, hj], fun _ h => nomatch h⟩
  | some j =>
    by_cases hover : (j.cancelled || j.done) = true
    · refine .inl ⟨by simp [begin, hj, hover], fun j' h => ?_⟩
      cases h
      exact Bool.or_eq_true_iff.mp hover
    · obtain ⟨hc, hd⟩ := Bool.or_eq_false_iff.mp (Bool.eq_false_iff.mpr hover)
      exact .inr ⟨j, rfl, hc, hd, by simp [begin, hj, hover]⟩

variable {handle : ε → σ → σ}

inductive Step (handle : ε → σ → σ) : Machine ε σ → Machine ε σ → Prop where
  /-- A script ends, before its last action if one fails. -/
  | leave {s w actions rest starts returned} :
    Step handle ⟨s, w, .script actions :: rest, starts, returned⟩ ⟨s, w, rest, starts, returned⟩
  | callSoon {s w label body actions rest starts returned} :
    Step handle ⟨s, w, .script (.callSoon label body :: actions) :: rest, starts, returned⟩
      ⟨s.callSoon ⟨label, body⟩, w, .script actions :: rest, starts, returned⟩
  | requestFrame {s w label body actions rest starts returned} :
    Step handle ⟨s, w, .script (.requestFrame label body :: actions) :: rest, starts, returned⟩
      ⟨s.requestFrame ⟨label, body⟩, w, .script actions :: rest, starts, returned⟩
  | cancel {s w label actions rest starts returned id} (hid : s.find? label = some id) :
    Step handle ⟨s, w, .script (.cancel label :: actions) :: rest, starts, returned⟩
      ⟨s.cancel id, w, .script actions :: rest, starts, returned⟩
  | invoke {s w label actions rest starts returned id} (hid : s.find? label = some id) :
    Step handle ⟨s, w, .script (.invoke label :: actions) :: rest, starts, returned⟩
      (begin ⟨s, w, .script actions :: rest, starts, returned⟩ id .direct)
  | perform {s w e actions rest starts returned} :
    Step handle ⟨s, w, .script (.perform e :: actions) :: rest, starts, returned⟩
      ⟨s, handle e w, .script actions :: rest, starts, returned⟩
  | runPending {s w actions rest starts returned} :
    Step handle ⟨s, w, .script (.runPending :: actions) :: rest, starts, returned⟩
      ⟨s, w, .taskLoop 0 :: .script actions :: rest, starts, returned⟩
  | runUntilIdle {s w actions rest starts returned} :
    Step handle ⟨s, w, .script (.runUntilIdle :: actions) :: rest, starts, returned⟩
      ⟨s, w, .idleLoop :: .script actions :: rest, starts, returned⟩
  | runFrame {s w actions rest starts returned} :
    Step handle ⟨s, w, .script (.runFrame :: actions) :: rest, starts, returned⟩
      (beginFrame ⟨s, w, .script (.runFrame :: actions) :: rest, starts, returned⟩
        (.script actions :: rest))
  | task {s w count rest starts returned id ids} (htasks : s.tasks = id :: ids) :
    Step handle ⟨s, w, .taskLoop count :: rest, starts, returned⟩
      (beginTask ⟨s, w, .taskLoop count :: rest, starts, returned⟩ id ids count rest)
  | tasksOver {s w count rest starts returned} (htasks : s.tasks = []) :
    Step handle ⟨s, w, .taskLoop count :: rest, starts, returned⟩ ⟨s, w, rest, starts, count⟩
  | frame {s w id ids known count count' rest starts returned} :
    Step handle ⟨s, w, .frameLoop (id :: ids) known count :: rest, starts, returned⟩
      (begin ⟨s, w, .frameLoop ids known count' :: rest, starts, returned⟩ id (.frameLoop known))
  | framesOver {s w known count rest starts returned} :
    Step handle ⟨s, w, .frameLoop [] known count :: rest, starts, returned⟩
      ⟨s, w, rest, starts, count⟩
  | idleTask {s w rest starts returned id ids} (hframes : s.frames = [])
    (htasks : s.tasks = id :: ids) :
    Step handle ⟨s, w, .idleLoop :: rest, starts, returned⟩
      (beginTask ⟨s, w, .idleLoop :: rest, starts, returned⟩ id ids 0 (.idleLoop :: rest))
  | idleFrame {s w rest starts returned} (hframes : s.frames ≠ []) :
    Step handle ⟨s, w, .idleLoop :: rest, starts, returned⟩
      (beginFrame ⟨s, w, .idleLoop :: rest, starts, returned⟩ (.taskLoop 0 :: .idleLoop :: rest))
  | idle {s w rest starts returned} (hframes : s.frames = []) (htasks : s.tasks = []) :
    Step handle ⟨s, w, .idleLoop :: rest, starts, returned⟩ ⟨s, w, rest, starts, returned⟩

theorem step_of_step? {m m' : Machine ε σ} (h : m.step? handle = some m') : Step handle m m' := by
  obtain ⟨s, w, stack, starts, returned⟩ := m
  cases stack with
  | nil => cases h
  | cons top rest =>
    cases top with
    | script actions =>
      cases actions with
      | nil => cases h; exact .leave
      | cons a actions =>
        cases h
        cases a with
        | callSoon label body => exact .callSoon
        | requestFrame label body => exact .requestFrame
        | cancel label =>
          cases hid : s.find? label with
          | none => simp only [act, hid]; exact .leave
          | some id => simp only [act, hid]; exact .cancel hid
        | invoke label =>
          cases hid : s.find? label with
          | none => simp only [act, hid]; exact .leave
          | some id => simp only [act, hid]; exact .invoke hid
        | runPending => exact .runPending
        | runFrame => exact .runFrame
        | runUntilIdle => exact .runUntilIdle
        | fail => exact .leave
        | perform e => exact .perform
    | taskLoop count =>
      cases htasks : s.tasks with
      | nil => simp only [step?, htasks] at h; cases h; exact .tasksOver htasks
      | cons id ids => simp only [step?, htasks] at h; cases h; exact .task htasks
    | frameLoop ids known count =>
      cases ids with
      | nil => cases h; exact .framesOver
      | cons id ids => cases h; exact .frame
    | idleLoop =>
      cases hframes : s.frames with
      | cons id ids =>
        simp only [step?, hframes] at h
        cases h
        exact .idleFrame (by simp [hframes])
      | nil =>
        cases htasks : s.tasks with
        | nil => simp only [step?, hframes, htasks] at h; cases h; exact .idle hframes htasks
        | cons id ids =>
          simp only [step?, hframes, htasks] at h
          cases h
          exact .idleTask hframes htasks

theorem begin_grows {s : Scheduler ε} {m : Machine ε σ} (h : s.Grows m.scheduler) (id : Nat)
    (cause : Cause) : s.Grows (m.begin id cause).scheduler := by
  rcases begin_cases m id cause with ⟨hm, -⟩ | ⟨j, -, -, -, hm⟩
  · rw [hm]
    exact h
  · rw [hm]
    exact h.trans (.finish _ _)

theorem Step.grows {m m' : Machine ε σ} (h : Step handle m m') : m.scheduler.Grows m'.scheduler := by
  cases h with
  | callSoon => exact .addJob _ _
  | requestFrame => exact .addJob _ _
  | cancel hid => exact .cancel _ _
  | invoke hid | task htasks | frame | idleTask hframes htasks =>
    apply begin_grows
    exact .refl _
  | _ => exact .refl _

/-! ## Frames that lie ahead -/

def ahead (m : Machine ε σ) : List Start := m.stack.flatMap Activity.ahead

@[simp] theorem begin_ahead (m : Machine ε σ) (id : Nat) (cause : Cause) :
    (m.begin id cause).ahead = m.ahead := by
  rcases begin_cases m id cause with ⟨h, -⟩ | ⟨j, -, -, -, h⟩
  · rw [h]
  · rw [h]
    rfl

/-! ## Runs -/

theorem run_of_step? {m n : Machine ε σ} (h : m.step? handle = some n) :
    m.run handle = n.run handle := by
  rw [run]
  split
  · rename_i hnone
    rw [hnone] at h
    cases h
  · rename_i n' hsome
    rw [hsome] at h
    cases h
    rfl

theorem run_of_halted {m : Machine ε σ} (h : m.step? handle = none) : m.run handle = m := by
  rw [run]
  split
  · rfl
  · rename_i m' hsome
    rw [hsome] at h
    cases h

theorem run_of_stack_nil {m : Machine ε σ} (h : m.stack = []) : m.run handle = m :=
  run_of_halted (by simp [step?, h])

theorem stack_of_halted {m : Machine ε σ} (h : m.step? handle = none) : m.stack = [] := by
  unfold step? at h
  split at h
  case h_1 hstack => exact hstack
  case h_4 => split at h <;> cases h
  case h_7 => split at h <;> cases h
  all_goals cases h

theorem run_stack (handle : ε → σ → σ) (m : Machine ε σ) : (m.run handle).stack = [] := by
  fun_induction run handle m with
  | case1 m h => exact stack_of_halted h
  | case2 m m' h ih => exact ih

theorem reaches_run (handle : ε → σ → σ) (m : Machine ε σ) :
    ReflTransGen (fun n n' => n.step? handle = some n') m (m.run handle) := by
  fun_induction run handle m with
  | case1 m h => exact .refl
  | case2 m m' h ih => exact .head h ih

/-! ## Earlier starts

What a machine does does not depend on what was started before. -/

def after (log : List Start) (m : Machine ε σ) : Machine ε σ := { m with starts := log ++ m.starts }

variable (log : List Start)

theorem begin_after (m : Machine ε σ) (id : Nat) (cause : Cause) :
    (m.after log).begin id cause = (m.begin id cause).after log := by
  unfold begin after
  dsimp only
  split
  · rfl
  · split
    · rfl
    · simp only [List.append_assoc]

theorem beginTask_after (m : Machine ε σ) (id : Nat) (ids : List Nat) (count : Nat)
    (rest : List (Activity ε)) :
    (m.after log).beginTask id ids count rest = (m.beginTask id ids count rest).after log :=
  begin_after log ⟨_, _, _, _, _⟩ id .taskLoop

theorem act_after (m : Machine ε σ) (below rest : List (Activity ε)) (a : Action ε) :
    (m.after log).act handle below rest a = (m.act handle below rest a).after log := by
  cases a with
  | cancel label =>
    cases hid : m.scheduler.find? label with
    | none => simp only [act, after, hid]
    | some id => simp only [act, after, hid]
  | invoke label =>
    cases hid : m.scheduler.find? label with
    | none => simp only [act, after, hid]
    | some id =>
      simp only [act, hid, ← begin_after]
      simp only [after, hid]
  | _ => rfl

theorem step?_after (m : Machine ε σ) :
    (m.after log).step? handle = (m.step? handle).map (after log) := by
  obtain ⟨s, w, stack, starts, returned⟩ := m
  cases stack with
  | nil => rfl
  | cons top rest =>
    cases top with
    | script actions =>
      cases actions with
      | nil => rfl
      | cons a actions => exact congrArg some (act_after log _ _ _ a)
    | taskLoop count =>
      cases htasks : s.tasks with
      | nil => simp only [step?, after, htasks, Option.map_some]
      | cons id ids =>
        have hbegin := beginTask_after log ⟨s, w, .taskLoop count :: rest, starts, returned⟩ id ids
          count rest
        simpa only [step?, after, htasks, Option.map_some] using congrArg some hbegin
    | frameLoop ids known count =>
      cases ids with
      | nil => rfl
      | cons id ids =>
        apply congrArg some
        exact begin_after log ⟨s, w, .frameLoop ids known _ :: rest, starts, returned⟩ id _
    | idleLoop =>
      cases hframes : s.frames with
      | cons id ids => simp only [step?, after, hframes, Option.map_some, beginFrame]
      | nil =>
        cases htasks : s.tasks with
        | nil => simp only [step?, after, hframes, htasks, Option.map_some]
        | cons id ids =>
          have hbegin := beginTask_after log ⟨s, w, .idleLoop :: rest, starts, returned⟩ id ids 0
            (.idleLoop :: rest)
          simpa only [step?, after, hframes, htasks, Option.map_some] using congrArg some hbegin

theorem run_after (m : Machine ε σ) : (m.after log).run handle = (m.run handle).after log := by
  fun_induction run handle m with
  | case1 m h => exact run_of_halted (by rw [step?_after, h]; rfl)
  | case2 m m' h ih => rw [← ih, run_of_step? (by rw [step?_after, h]; rfl)]

/-! ## Programs -/

def initial (w : σ) : Machine ε σ := ⟨.empty, w, [], [], 0⟩

/-- What can come next in a program: a step or, when nothing is under way, a script. -/
inductive Next (handle : ε → σ → σ) : Machine ε σ → Machine ε σ → Prop where
  | step {m m'} (h : m.step? handle = some m') : Next handle m m'
  | script {s w starts returned} (actions : List (Action ε)) :
    Next handle ⟨s, w, [], starts, returned⟩ ⟨s, w, [.script actions], starts, 0⟩

def Later (handle : ε → σ → σ) : Machine ε σ → Machine ε σ → Prop := ReflTransGen (Next handle)

/-- A moment of some program. -/
def Moment (handle : ε → σ → σ) (w : σ) (m : Machine ε σ) : Prop := Later handle (initial w) m

def performAll (handle : ε → σ → σ) (m : Machine ε σ) (actions : List (Action ε)) : Machine ε σ :=
  actions.foldl (fun m a => (m.scheduler.perform handle m.world a).after m.starts) m

theorem Next.grows {m m' : Machine ε σ} (next : Next handle m m') :
    m.scheduler.Grows m'.scheduler := by
  cases next with
  | step hstep => exact (step_of_step? hstep).grows
  | script actions => exact .refl _

theorem Later.grows {m m' : Machine ε σ} (h : Later handle m m') :
    m.scheduler.Grows m'.scheduler := by
  induction h with
  | refl => exact .refl _
  | tail _ next ih => exact ih.trans next.grows

theorem later_run (m : Machine ε σ) : Later handle m (m.run handle) :=
  ReflTransGen.mono (fun _ _ h => .step h) _ _ (reaches_run handle m)

/-- The run of an action logs its own starts only; put behind earlier ones it goes the same way. -/
theorem perform_after (s : Scheduler ε) (w : σ) (a : Action ε) (log : List Start) :
    (s.perform handle w a).after log = run handle ⟨s, w, [.script [a]], log, 0⟩ := by
  rw [Scheduler.perform, ← run_after]
  simp only [after, List.append_nil]

theorem later_script {m : Machine ε σ} (h : m.stack = []) (actions : List (Action ε)) :
    Later handle m { m with stack := [.script actions], returned := 0 } := by
  obtain ⟨s, w, stack, starts, returned⟩ := m
  cases h
  exact .single (.script actions)

theorem later_perform {m : Machine ε σ} (h : m.stack = []) (a : Action ε) :
    Later handle m ((m.scheduler.perform handle m.world a).after m.starts) := by
  rw [perform_after]
  exact (later_script h [a]).trans (later_run _)

theorem later_performAll {m : Machine ε σ} (h : m.stack = []) (actions : List (Action ε)) :
    Later handle m (m.performAll handle actions) := by
  induction actions generalizing m with
  | nil => exact .refl
  | cons a actions ih => exact (later_perform h a).trans (ih (run_stack _ _))

theorem performAll_stack {m : Machine ε σ} (h : m.stack = []) (actions : List (Action ε)) :
    (m.performAll handle actions).stack = [] := by
  induction actions generalizing m with
  | nil => exact h
  | cons a actions ih => exact ih (run_stack _ _)

end Machine

/-! ## The outside world -/

namespace Machine

variable {ε σ : Type} {handle : ε → σ → σ}

@[simp] theorem begin_world (m : Machine ε σ) (id : Nat) (cause : Cause) :
    (m.begin id cause).world = m.world := by
  rcases begin_cases m id cause with ⟨h, -⟩ | ⟨j, -, -, -, h⟩
  · rw [h]
  · rw [h]

theorem Step.world {m m' : Machine ε σ} (step : Step handle m m') :
    m'.world = m.world ∨ ∃ e, m'.world = handle e m.world := by
  cases step with
  | perform => exact .inr ⟨_, rfl⟩
  | invoke hid | task htasks | frame | idleTask hframes htasks => exact .inl (begin_world _ _ _)
  | _ => exact .inl rfl

theorem run_world {P : σ → Prop} (hP : ∀ e w, P w → P (handle e w)) (m : Machine ε σ)
    (h : P m.world) : P (m.run handle).world := by
  fun_induction run handle m with
  | case1 m hm => exact h
  | case2 m m' hm ih =>
    refine ih ?_
    rcases (step_of_step? hm).world with hw | ⟨e, hw⟩
    · rwa [hw]
    · rw [hw]
      exact hP e _ h

end Machine

theorem Scheduler.perform_world {ε σ : Type} {handle : ε → σ → σ} {P : σ → Prop}
    (hP : ∀ e w, P w → P (handle e w)) (s : Scheduler ε) (w : σ) (h : P w) (a : Action ε) :
    P (s.perform handle w a).world :=
  Machine.run_world hP _ h

end Tablature
