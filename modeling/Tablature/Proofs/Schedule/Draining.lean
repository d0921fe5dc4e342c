import Mathlib.Logic.Relation
import Tablature.Proofs.Schedule.Steps

/-!
# Running until idle

A job that is neither done nor cancelled is never lost: it waits in a queue or is
ahead of a loop. Running until idle ends, and only once both queues are empty; with
nothing under way any longer, every job is then done or cancelled.
-/

namespace Tablature

open Relation

namespace Machine

variable {ε σ : Type} {handle : ε → σ → σ} {m m' : Machine ε σ}

/-! ## No job is lost -/

def waiting (m : Machine ε σ) : List Nat :=
  m.scheduler.tasks ++ m.scheduler.frames ++ m.ahead.map Start.job

theorem mem_waiting {m : Machine ε σ} {id : Nat} :
    id ∈ m.waiting ↔
      id ∈ m.scheduler.tasks ∨ id ∈ m.scheduler.frames ∨ id ∈ m.ahead.map Start.job := by
  rw [waiting, List.mem_append, List.mem_append, or_assoc]

@[simp] theorem begin_nextJob (m : Machine ε σ) (id : Nat) (cause : Cause) :
    (m.begin id cause).scheduler.nextJob = m.scheduler.nextJob := by
  rcases begin_cases m id cause with ⟨h, -⟩ | ⟨j, -, -, -, h⟩
  · rw [h]
  · rw [h]
    exact List.length_modify _ _ _

@[simp] theorem begin_waiting (m : Machine ε σ) (id : Nat) (cause : Cause) :
    (m.begin id cause).waiting = m.waiting := by
  rcases begin_cases m id cause with ⟨h, -⟩ | ⟨j, -, -, -, h⟩
  · rw [h]
  · rw [h]
    rfl

theorem begin_isOver {m : Machine ε σ} {id : Nat} (h : id < m.scheduler.nextJob) (cause : Cause) :
    (m.begin id cause).scheduler.IsOver id := by
  have hj := List.getElem?_eq_getElem h
  rcases begin_cases m id cause with ⟨hm, hover⟩ | ⟨j, hj', -, -, hm⟩
  · rw [hm]
    exact ⟨_, hj, hover _ hj⟩
  · rw [hm]
    exact ⟨{ j with done := true }, by simp [Scheduler.finish, hj'], .inr rfl⟩

theorem beginTask_waiting {m : Machine ε σ} {id : Nat} {ids : List Nat} {rest : List (Activity ε)}
    (htasks : m.scheduler.tasks = id :: ids) (hrest : rest.flatMap Activity.ahead = m.ahead)
    (count : Nat) : m.waiting = id :: (m.beginTask id ids count rest).waiting := by
  have hbegin : (m.beginTask id ids count rest).waiting =
      ids ++ m.scheduler.frames ++ (rest.flatMap Activity.ahead).map Start.job := begin_waiting _ _ _
  rw [hbegin, hrest, waiting, htasks]
  rfl

theorem beginFrame_waiting {m : Machine ε σ} {below : List (Activity ε)}
    (hbelow : below.flatMap Activity.ahead = m.ahead) : (m.beginFrame below).waiting = m.waiting := by
  simp [waiting, ahead, beginFrame, Activity.ahead, hbelow, Function.comp_def]

/-- What waits goes on waiting until it is over. -/
theorem Step.waiting (step : Step handle m m') {id : Nat} (hlt : id < m.scheduler.nextJob)
    (hid : id ∈ m.waiting) : id ∈ m'.waiting ∨ m'.scheduler.IsOver id := by
  cases step with
  | callSoon => exact .inl (mem_waiting.mpr ((mem_waiting.mp hid).imp_left (List.mem_append_left _)))
  | requestFrame =>
    exact .inl (mem_waiting.mpr
      ((mem_waiting.mp hid).imp_right (Or.imp_left (List.mem_append_left _))))
  | invoke hjob =>
    left
    rw [begin_waiting]
    exact hid
  | runFrame | idleFrame hframes =>
    left
    rw [beginFrame_waiting]
    · exact hid
    · rfl
  | task htasks | idleTask hframes htasks =>
    rw [beginTask_waiting htasks] at hid
    rcases List.mem_cons.mp hid with rfl | hid
    · right
      apply begin_isOver
      exact hlt
    · exact .inl hid
    · rfl
  | frame =>
    rw [begin_waiting]
    rcases mem_waiting.mp hid with htask | hframe | hahead
    · exact .inl (mem_waiting.mpr (.inl htask))
    · exact .inl (mem_waiting.mpr (.inr (.inl hframe)))
    · rcases List.mem_cons.mp hahead with rfl | hahead
      · right
        apply begin_isOver
        exact hlt
      · exact .inl (mem_waiting.mpr (.inr (.inr hahead)))
  | _ => exact .inl hid

/-- A new job waits. -/
theorem Step.nextJob (step : Step handle m m') :
    m'.scheduler.nextJob = m.scheduler.nextJob ∨
      m'.scheduler.nextJob = m.scheduler.nextJob + 1 ∧ m.scheduler.nextJob ∈ m'.waiting := by
  cases step with
  | callSoon =>
    refine .inr ⟨Scheduler.nextJob_callSoon _ _, mem_waiting.mpr (.inl ?_)⟩
    exact List.mem_append_right _ List.mem_cons_self
  | requestFrame =>
    refine .inr ⟨Scheduler.nextJob_requestFrame _ _, mem_waiting.mpr (.inr (.inl ?_))⟩
    exact List.mem_append_right _ List.mem_cons_self
  | cancel hid => exact .inl (List.length_modify _ _ _)
  | invoke hid | task htasks | frame | idleTask hframes htasks => exact .inl (begin_nextJob _ _ _)
  | _ => exact .inl rfl

theorem Moment.isOver_or_waiting {w : σ} (h : Moment handle w m) {id : Nat}
    (hid : id < m.scheduler.nextJob) : m.scheduler.IsOver id ∨ id ∈ m.waiting := by
  induction h with
  | refl => cases hid
  | @tail m₁ m₂ hmoment next ih =>
    cases next with
    | script actions => exact ih hid
    | step hstep =>
      have step := step_of_step? hstep
      have hold (hlt : id < m₁.scheduler.nextJob) : m₂.scheduler.IsOver id ∨ id ∈ m₂.waiting := by
        rcases ih hlt with hover | hwaiting
        · exact .inl (step.grows.isOver hover)
        · exact (step.waiting hlt hwaiting).symm
      rcases step.nextJob with hnext | ⟨hnext, hnew⟩
      · exact hold (hnext ▸ hid)
      · rcases Nat.lt_succ_iff_lt_or_eq.mp (hnext ▸ hid) with hlt | rfl
        · exact hold hlt
        · exact .inr hnew

/-! ## Until idle -/

theorem begin_stack {m : Machine ε σ} {rest : List (Activity ε)} (h : rest <:+ m.stack) (id : Nat)
    (cause : Cause) : rest <:+ (m.begin id cause).stack := by
  rcases begin_cases m id cause with ⟨hm, -⟩ | ⟨j, -, -, -, hm⟩
  · rw [hm]
    exact h
  · rw [hm]
    exact h.trans (List.suffix_cons _ _)

theorem beginTask_stack (m : Machine ε σ) (id : Nat) (ids : List Nat) (count : Nat)
    (rest : List (Activity ε)) : rest <:+ (m.beginTask id ids count rest).stack := by
  apply begin_stack
  exact List.suffix_cons _ _

/-- A step leaves alone what is below the top of the stack. -/
theorem Step.stack (step : Step handle m m') {top : Activity ε} {rest : List (Activity ε)}
    (h : m.stack = top :: rest) : rest <:+ m'.stack := by
  cases step with
  | leave | tasksOver htasks | framesOver | idle hframes htasks =>
    cases h
    exact List.suffix_refl _
  | callSoon | requestFrame | cancel hid | perform =>
    cases h
    exact List.suffix_cons _ _
  | runPending | runUntilIdle | runFrame =>
    cases h
    exact List.suffix_append [_, _] _
  | invoke hid | frame =>
    cases h
    apply begin_stack
    exact List.suffix_cons _ _
  | task htasks =>
    cases h
    exact beginTask_stack _ _ _ _ _
  | idleTask hframes htasks =>
    cases h
    exact (List.suffix_cons _ _).trans (beginTask_stack _ _ _ _ _)
  | idleFrame hframes =>
    cases h
    exact List.suffix_append [_, _, _] _

/-- A loop that runs until idle ends only when both queues are empty. -/
theorem Step.idle_stack (step : Step handle m m') {rest : List (Activity ε)}
    (h : m.stack = .idleLoop :: rest) :
    .idleLoop :: rest <:+ m'.stack ∨
      m'.stack = rest ∧ m'.scheduler.tasks = [] ∧ m'.scheduler.frames = [] := by
  cases step with
  | idleTask hframes htasks =>
    cases h
    exact .inl (beginTask_stack _ _ _ _ _)
  | idleFrame hframes =>
    cases h
    exact .inl (List.suffix_append [_, _] _)
  | idle hframes htasks =>
    cases h
    exact .inr ⟨rfl, htasks, hframes⟩
  | _ => cases h

inductive Idling (m : Machine ε σ) : Prop where
  | busy (hstack : [.idleLoop, .script []] <:+ m.stack)
  | idle (hstack : m.stack <:+ [.script []]) (htasks : m.scheduler.tasks = [])
    (hframes : m.scheduler.frames = [])

theorem Step.idling (step : Step handle m m') (h : Idling m) : Idling m' := by
  cases h with
  | busy hstack =>
    obtain ⟨upper, hstack⟩ := hstack
    cases upper with
    | nil =>
      -- The loop itself takes the step.
      rcases step.idle_stack hstack.symm with hbusy | ⟨hstack', htasks, hframes⟩
      · exact .busy hbusy
      · exact .idle (hstack' ▸ List.suffix_refl _) htasks hframes
    | cons top upper =>
      -- Something runs above the loop.
      exact .busy ((List.suffix_append upper _).trans (step.stack hstack.symm))
  | idle hstack htasks hframes =>
    -- Nothing but the end of the program's script is left.
    rcases List.suffix_cons_iff.mp hstack with hscript | hnil
    · cases step with
      | leave =>
        cases hscript
        exact .idle List.nil_suffix htasks hframes
      | _ => cases hscript
    · cases step <;> cases List.suffix_nil.mp hnil

theorem run_idling (h : Idling m) : Idling (m.run handle) := by
  fun_induction run handle m with
  | case1 m hhalted => exact h
  | case2 m m' hstep ih => exact ih ((step_of_step? hstep).idling h)

theorem runUntilIdle_queues (handle : ε → σ → σ) (s : Scheduler ε) (w : σ) :
    (s.perform handle w .runUntilIdle).scheduler.tasks = [] ∧
      (s.perform handle w .runUntilIdle).scheduler.frames = [] := by
  have hstart : s.perform handle w .runUntilIdle =
      run handle ⟨s, w, [.idleLoop, .script []], [], 0⟩ := run_of_step? rfl
  have hidling : Idling (s.perform handle w .runUntilIdle) := by
    rw [hstart]
    exact run_idling (.busy (List.suffix_refl _))
  cases hidling with
  | busy hbusy =>
    rw [Scheduler.perform, run_stack, List.suffix_nil] at hbusy
    cases hbusy
  | idle _ htasks hframes => exact ⟨htasks, hframes⟩

/-- Running until idle at any moment when nothing is under way returns after finitely many steps;
then both queues are empty, and every job that there ever was is done or cancelled. -/
theorem Moment.runUntilIdle_drains {w : σ} (h : Moment handle w m) (hstack : m.stack = []) :
    let m' := m.scheduler.perform handle m.world .runUntilIdle
    ReflTransGen (fun n n' => n.step? handle = some n')
        ⟨m.scheduler, m.world, [.script [.runUntilIdle]], [], 0⟩ m' ∧
      m'.stack = [] ∧ m'.scheduler.tasks = [] ∧ m'.scheduler.frames = [] ∧
      m.scheduler.Grows m'.scheduler ∧ ∀ id < m'.scheduler.nextJob, m'.scheduler.IsOver id := by
  intro m'
  have hstack' : m'.stack = [] := run_stack handle _
  obtain ⟨htasks, hframes⟩ := runUntilIdle_queues handle m.scheduler m.world
  have hlater : Later handle m (m'.after m.starts) := later_perform hstack .runUntilIdle
  refine ⟨reaches_run handle _, hstack', htasks, hframes, hlater.grows, fun id hid => ?_⟩
  have hmoment : Moment handle w (m'.after m.starts) := h.trans hlater
  have hnone : (m'.after m.starts).waiting = [] := by
    simp [waiting, after, ahead, htasks, hframes, hstack', m']
  rcases hmoment.isOver_or_waiting hid with hover | hwaiting
  · exact hover
  · rw [hnone] at hwaiting
    cases hwaiting

/-- A frame asks for a turn and fails; the turn asks for a frame and runs until idle itself. -/
theorem Moment.runUntilIdle_drains_nested :
    let m : Machine Unit Unit := (initial ()).performAll (fun _ w => w)
      [.requestFrame "draw" [.callSoon "answer" [.requestFrame "redraw" [], .runUntilIdle],
          .requestFrame "spare" [], .cancel "spare", .fail, .callSoon "never" []],
        .callSoon "dropped" [], .cancel "dropped"]
    let m' := m.scheduler.perform (fun _ w => w) m.world .runUntilIdle
    (m'.starts.map Start.job = [0, 2, 4] ∧ m'.scheduler.nextJob = 5) ∧
      Moment (fun _ w => w) () m ∧ m.stack = [] ∧
      ReflTransGen (fun n n' => n.step? (fun _ w => w) = some n')
        ⟨m.scheduler, m.world, [.script [.runUntilIdle]], [], 0⟩ m' ∧
      m'.stack = [] ∧ m'.scheduler.tasks = [] ∧ m'.scheduler.frames = [] ∧
      m.scheduler.Grows m'.scheduler ∧ ∀ id < m'.scheduler.nextJob, m'.scheduler.IsOver id := by
  intro m m'
  have hmoment : Moment (fun _ w => w) () m := later_performAll rfl _
  have hstack : m.stack = [] := performAll_stack rfl _
  have hstarts : m'.starts.map Start.job = [0, 2, 4] := by
    decide +kernel
  have hjobs : m'.scheduler.nextJob = 5 := by
    decide +kernel
  exact ⟨⟨hstarts, hjobs⟩, hmoment, hstack, Moment.runUntilIdle_drains hmoment hstack⟩

end Machine

end Tablature
