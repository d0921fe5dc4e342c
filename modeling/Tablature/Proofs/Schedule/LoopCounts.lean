import Mathlib.Data.List.Basic
import Tablature.Proofs.Schedule.StartOrder
import Tablature.Proofs.Schedule.TaskLoop
import Tablature.Proofs.Schedule.Waitlist

/-!
# What a loop counts

A loop counts the jobs that it takes from its queue, cancelled ones apart, and starts
those of them that have not run yet. The others were called directly while they waited.
What a call of a loop returns is therefore the number of callbacks that this loop has
started itself and of the jobs that it has taken after they were called directly.
-/

namespace Tablature

open Relation

def Activity.count? {ε : Type} : Activity ε → Option Nat
  | .taskLoop count | .frameLoop _ _ count => some count
  | _ => none

namespace Machine

variable {ε σ : Type} {handle : ε → σ → σ} {m m' : Machine ε σ} {w : σ}

/-! ## What a call does -/

/-- Runs until no more than `depth` activities are under way. -/
def runAbove (handle : ε → σ → σ) (depth : Nat) (m : Machine ε σ) : Machine ε σ :=
  if depth < m.stack.length then
    match _h : m.step? handle with
    | none => m
    | some n => runAbove handle depth n
  else m
termination_by m.work
decreasing_by exact work_step?_lt _h

/-- The moments of such a run when a single activity more is under way. -/
def turnsAbove (handle : ε → σ → σ) (depth : Nat) (m : Machine ε σ) : List (Machine ε σ) :=
  if depth < m.stack.length then
    match _h : m.step? handle with
    | none => []
    | some n => (if m.stack.length = depth + 1 then [m] else []) ++ turnsAbove handle depth n
  else []
termination_by m.work
decreasing_by exact work_step?_lt _h

def afterCall (handle : ε → σ → σ) (m : Machine ε σ) : Machine ε σ :=
  (m.step? handle).elim m (runAbove handle m.stack.length)

/-- The moments of the call that comes next when nothing that it has started is under way. -/
def callTurns (handle : ε → σ → σ) (m : Machine ε σ) : List (Machine ε σ) :=
  (m.step? handle).elim [] (turnsAbove handle m.stack.length)

def nextStart? (handle : ε → σ → σ) (m : Machine ε σ) : Option Start :=
  (m.step? handle).bind (·.starts[m.starts.length]?)

def taken? (m : Machine ε σ) : Option Nat :=
  match m.stack with
  | .taskLoop _ :: _ => m.scheduler.tasks.head?
  | .frameLoop ids _ _ :: _ => ids.head?
  | _ => none

/-- The job that a loop takes next, if it was called directly, and not cancelled either. -/
def calledAlready? (m : Machine ε σ) : Option Nat :=
  m.taken?.filter fun id => m.scheduler.isLive id && decide (⟨id, .direct⟩ ∈ m.starts)

def callStarts (handle : ε → σ → σ) (m : Machine ε σ) : List Start :=
  (m.callTurns handle).filterMap (nextStart? handle)

/-- The jobs that the call that comes next takes after they were called directly. -/
def callRepeats (handle : ε → σ → σ) (m : Machine ε σ) : List Nat :=
  (m.callTurns handle).filterMap calledAlready?

theorem runAbove_of_le {depth : Nat} (h : m.stack.length ≤ depth) :
    m.runAbove handle depth = m := by
  rw [runAbove, if_neg (Nat.not_lt.mpr h)]

theorem turnsAbove_of_le {depth : Nat} (h : m.stack.length ≤ depth) :
    m.turnsAbove handle depth = [] := by
  rw [turnsAbove, if_neg (Nat.not_lt.mpr h)]

theorem turnsAbove_of_step? {depth : Nat} (h : depth < m.stack.length)
    (hstep : m.step? handle = some m') :
    m.turnsAbove handle depth =
      (if m.stack.length = depth + 1 then [m] else []) ++ m'.turnsAbove handle depth := by
  rw [turnsAbove, if_pos h]
  split
  · rename_i hnone
    rw [hnone] at hstep
    cases hstep
  · rename_i n hsome
    rw [hsome] at hstep
    cases hstep
    rfl

/-! ## What a loop counts at each of its turns -/

theorem taken_waiting {id : Nat} (h : m.taken? = some id) : id ∈ m.waiting := by
  obtain ⟨s, world, stack, starts, returned⟩ := m
  unfold taken? at h
  split at h
  · exact mem_waiting.mpr (.inl (List.mem_of_mem_head? h))
  · rename_i ids known count rest hstack
    cases hstack
    have hid : id ∈ ids := List.mem_of_mem_head? h
    refine mem_waiting.mpr (.inr (.inr ?_))
    simp [ahead, Activity.ahead, hid]
  · cases h

def counted (handle : ε → σ → σ) (turns : List (Machine ε σ)) : Nat :=
  (turns.filterMap (nextStart? handle)).length + (turns.filterMap calledAlready?).length

theorem counted_append (turns turns' : List (Machine ε σ)) :
    counted handle (turns ++ turns') = counted handle turns + counted handle turns' := by
  simp only [counted, List.filterMap_append, List.length_append]
  omega

theorem counted_of_none (hstart : m.nextStart? handle = none) (hcalled : m.calledAlready? = none) :
    counted handle [m] = 0 := by
  simp [counted, hstart, hcalled]

/-- A job that a loop takes is counted if it starts now, or was called already. -/
theorem Moment.counted_of_taken (h : Moment handle w m) {m₁ : Machine ε σ} {id : Nat}
    {cause : Cause} (htaken : m.taken? = some id)
    (hstep : m.step? handle = some (m₁.begin id cause))
    (hjobs : m₁.scheduler.jobs = m.scheduler.jobs) (hstarts : m₁.starts = m.starts) :
    counted handle [m] = if m.scheduler.isLive id then 1 else 0 := by
  have hnext : m.nextStart? handle = (m₁.begin id cause).starts[m.starts.length]? := by
    simp [nextStart?, hstep]
  have hcalled : m.calledAlready? =
      if m.scheduler.isLive id && decide (⟨id, .direct⟩ ∈ m.starts) then some id else none := by
    rw [calledAlready?, htaken, Option.filter_some]
  rcases begin_cases m₁ id cause with ⟨hm, hover⟩ | ⟨j, hj, hc, hd, hm⟩
  · have hnone : m.nextStart? handle = none := by rw [hnext, hm, hstarts, List.getElem?_length]
    by_cases hlive : m.scheduler.isLive id = true
    · -- The job is done but not cancelled, so it was called directly.
      obtain ⟨j, hj, hc⟩ := Scheduler.isLive_iff.mp hlive
      have hd : j.done = true := by simpa [hc] using hover j (hjobs ▸ hj)
      have hdirect := h.waitlist.direct id (taken_waiting htaken) j hj hd
      simp [counted, hnone, hcalled, hlive, hdirect]
    · simp [counted, hnone, hcalled, hlive]
  · have hsome : m.nextStart? handle = some ⟨id, cause⟩ := by
      rw [hnext, hm, hstarts, List.getElem?_concat_length]
    have hlive : m.scheduler.isLive id = true := Scheduler.isLive_iff.mpr ⟨j, hjobs ▸ hj, hc⟩
    have hnot : ⟨id, .direct⟩ ∉ m.starts := by
      intro hdirect
      obtain ⟨j', hj', hd'⟩ := h.orderly.done id (List.mem_map_of_mem hdirect)
      rw [← hjobs, hj] at hj'
      cases hj'
      rw [hd] at hd'
      cases hd'
    simp [counted, hsome, hcalled, hlive, hnot]

theorem Moment.loop_step (h : Moment handle w m) {loop : Activity ε} {below : List (Activity ε)}
    {count : Nat} (hstack : m.stack = loop :: below) (hcount : loop.count? = some count)
    (hstep : m.step? handle = some m') :
    m'.stack = below ∧ m'.returned = count + counted handle [m] ∨
      ∃ upper loop', m'.stack = upper ++ loop' :: below ∧
        loop'.count? = some (count + counted handle [m]) := by
  obtain ⟨s, world, stack, starts, returned⟩ := m
  cases hstack
  cases loop with
  | taskLoop count' =>
    cases hcount
    cases htasks : s.tasks with
    | nil =>
      have hend := hstep
      simp only [step?, htasks] at hend
      cases hend
      refine .inl ⟨rfl, ?_⟩
      rw [counted_of_none]
      · rfl
      · simp [nextStart?, hstep]
      · simp [calledAlready?, taken?, htasks]
    | cons id ids =>
      have htake := hstep
      simp only [step?, htasks] at htake
      cases htake
      rw [h.counted_of_taken (by simp [taken?, htasks]) hstep rfl rfl]
      obtain ⟨upper, hupper⟩ := begin_stack (List.suffix_refl _) id .taskLoop
      exact .inr ⟨upper, _, hupper.symm, rfl⟩
  | frameLoop ids known count' =>
    cases hcount
    cases ids with
    | nil =>
      cases hstep
      refine .inl ⟨rfl, ?_⟩
      rw [counted_of_none]
      · rfl
      · simp [nextStart?, step?]
      · simp [calledAlready?, taken?]
    | cons id ids =>
      cases hstep
      rw [h.counted_of_taken rfl rfl rfl rfl]
      obtain ⟨upper, hupper⟩ := begin_stack (List.suffix_refl _) id (.frameLoop known)
      exact .inr ⟨upper, _, hupper.symm, rfl⟩
  | script actions => cases hcount
  | idleLoop => cases hcount

/-! ## What a call returns -/

theorem later_runAbove (depth : Nat) (m : Machine ε σ) : Later handle m (m.runAbove handle depth) := by
  fun_induction runAbove handle depth m with
  | case1 m hlt hstep => exact .refl
  | case2 m hlt m' hstep ih => exact .head (.step hstep) ih
  | case3 m hle => exact .refl

theorem run_runAbove (depth : Nat) (m : Machine ε σ) :
    (m.runAbove handle depth).run handle = m.run handle := by
  fun_induction runAbove handle depth m with
  | case1 m hlt hstep => rfl
  | case2 m hlt m' hstep ih => rw [ih, run_of_step? hstep]
  | case3 m hle => rfl

theorem step?_starts (hstep : m.step? handle = some m') :
    m'.starts = m.starts ++ (m.nextStart? handle).toList := by
  rcases (step_of_step? hstep).starts with hstarts | ⟨start, hstarts, -⟩
  · simp [nextStart?, hstep, hstarts]
  · simp [nextStart?, hstep, hstarts]

theorem runAbove_starts (handle : ε → σ → σ) (depth : Nat) (m : Machine ε σ) :
    ∃ log, (m.runAbove handle depth).starts = m.starts ++ log ∧
      ((m.turnsAbove handle depth).filterMap (nextStart? handle)).Sublist log := by
  fun_induction runAbove handle depth m with
  | case1 m hlt hstep =>
    rw [stack_of_halted hstep] at hlt
    cases hlt
  | case2 m hlt m' hstep ih =>
    obtain ⟨log, hlog, hsub⟩ := ih
    refine ⟨(m.nextStart? handle).toList ++ log, ?_, ?_⟩
    · rw [hlog, step?_starts hstep, List.append_assoc]
    · rw [turnsAbove_of_step? hlt hstep, List.filterMap_append]
      refine .append ?_ hsub
      split
      · cases hnext : m.nextStart? handle <;> simp [hnext]
      · exact List.nil_sublist _
  | case3 m hle =>
    refine ⟨[], (List.append_nil _).symm, ?_⟩
    rw [turnsAbove_of_le (Nat.not_lt.mp hle)]
    exact .refl _

/-- A loop over a queue returns, with what it has counted and what it counts at its turns to come. -/
theorem Moment.runAbove_loop (h : Moment handle w m) {upper below : List (Activity ε)}
    {loop : Activity ε} {count : Nat} (hstack : m.stack = upper ++ loop :: below)
    (hcount : loop.count? = some count) :
    (m.runAbove handle below.length).stack = below ∧
      (m.runAbove handle below.length).returned =
        count + counted handle (m.turnsAbove handle below.length) := by
  generalize hdepth : below.length = depth
  fun_induction runAbove handle depth m generalizing upper loop count with
  | case1 m hlt hstep =>
    rw [stack_of_halted hstep] at hstack
    simp at hstack
  | case2 m hlt m' hstep ih =>
    have hmoment : Moment handle w m' := h.tail (.step hstep)
    rw [turnsAbove_of_step? hlt hstep, counted_append, ← Nat.add_assoc]
    cases upper with
    | nil =>
      -- The loop itself takes a turn.
      rw [if_pos (by rw [hstack, ← hdepth]; rfl)]
      rcases h.loop_step hstack hcount hstep with ⟨hstack', hreturned⟩ | ⟨upper', loop', hstack', hcount'⟩
      · have hle : m'.stack.length ≤ depth := Nat.le_of_eq (by rw [hstack', hdepth])
        rw [runAbove_of_le hle, turnsAbove_of_le hle]
        exact ⟨hstack', hreturned⟩
      · exact ih hmoment hstack' hcount'
    | cons top upper =>
      -- What the loop has started goes on.
      obtain ⟨upper', hupper⟩ := (step_of_step? hstep).stack hstack
      have hlong : m.stack.length ≠ depth + 1 := by
        simp only [hstack, ← hdepth, List.cons_append, List.length_cons, List.length_append]
        omega
      have hstack' : m'.stack = (upper' ++ upper) ++ loop :: below := by
        rw [← hupper, List.append_assoc]
        rfl
      rw [if_neg hlong]
      exact ih hmoment hstack' hcount
  | case3 m hle =>
    simp only [hstack, List.length_append, List.length_cons] at hle
    omega

theorem step?_of_call (handle : ε → σ → σ) {a : Action ε} (ha : a = .runPending ∨ a = .runFrame)
    {actions : List (Action ε)} {rest : List (Activity ε)}
    (hstack : m.stack = .script (a :: actions) :: rest) :
    ∃ n loop, m.step? handle = some n ∧ n.starts = m.starts ∧
      n.stack = [] ++ loop :: .script actions :: rest ∧ loop.count? = some 0 := by
  obtain ⟨s, world, stack, starts, returned⟩ := m
  cases hstack
  rcases ha with rfl | rfl
  · exact ⟨_, .taskLoop 0, rfl, rfl, rfl, rfl⟩
  · exact ⟨_, .frameLoop s.frames s.nextJob 0, rfl, rfl, rfl, rfl⟩

theorem Moment.afterCall_loop (h : Moment handle w m) {a : Action ε}
    (ha : a = .runPending ∨ a = .runFrame) {actions : List (Action ε)} {rest : List (Activity ε)}
    (hstack : m.stack = .script (a :: actions) :: rest) :
    Later handle m (m.afterCall handle) ∧
      (m.afterCall handle).run handle = m.run handle ∧
      (m.afterCall handle).stack = .script actions :: rest ∧
      (∃ log, (m.afterCall handle).starts = m.starts ++ log ∧
        (m.callStarts handle).Sublist log) ∧
      (m.afterCall handle).returned =
        (m.callStarts handle).length + (m.callRepeats handle).length := by
  obtain ⟨n, loop, hstep, hstarts, hstack', hcount⟩ := step?_of_call handle ha hstack
  have hdepth : m.stack.length = (Activity.script actions :: rest).length := by rw [hstack]; rfl
  have hend : m.afterCall handle = n.runAbove handle m.stack.length := by
    rw [afterCall, hstep, Option.elim_some]
  have hturns : m.callTurns handle = n.turnsAbove handle m.stack.length := by
    rw [callTurns, hstep, Option.elim_some]
  have hmoment : Moment handle w n := h.tail (.step hstep)
  obtain ⟨hback, hreturned⟩ := hmoment.runAbove_loop hstack' hcount
  rw [← hdepth] at hback hreturned
  obtain ⟨log, hlog, hsub⟩ := runAbove_starts handle m.stack.length n
  rw [callStarts, callRepeats, hend, hturns, ← hstarts]
  refine ⟨.head (.step hstep) (later_runAbove _ n), ?_, hback, ⟨log, hlog, hsub⟩, ?_⟩
  · rw [run_runAbove, run_of_step? hstep]
  · rw [hreturned, Nat.zero_add, counted]

theorem run_of_script_nil (h : m.stack = [.script []]) : m.run handle = { m with stack := [] } := by
  obtain ⟨s, world, stack, starts, returned⟩ := m
  cases h
  rw [run_script_nil]

/-- What a call of a loop returns is the number of callbacks that this loop has started itself and
of the jobs that it has taken after they were called directly. So it is the number of callbacks if
and only if there is no such job. -/
theorem Moment.call_returned (h : Moment handle w m) {a : Action ε}
    (ha : a = .runPending ∨ a = .runFrame) :
    (∀ actions rest, m.stack = .script (a :: actions) :: rest →
      let m' := m.afterCall handle
      Later handle m m' ∧ m'.stack = .script actions :: rest ∧
        (∃ log, m'.starts = m.starts ++ log ∧ (m.callStarts handle).Sublist log) ∧
        m'.returned = (m.callStarts handle).length + (m.callRepeats handle).length ∧
        (m'.returned = (m.callStarts handle).length ↔ m.callRepeats handle = [])) ∧
    (m.stack = [] →
      let m₁ : Machine ε σ := { m with stack := [.script [a]], returned := 0 }
      let m' := m.scheduler.perform handle m.world a
      (m₁.callStarts handle).Sublist m'.starts ∧
        m'.returned = (m₁.callStarts handle).length + (m₁.callRepeats handle).length ∧
        (m'.returned = (m₁.callStarts handle).length ↔ m₁.callRepeats handle = [])) := by
  constructor
  · intro actions rest hstack m'
    obtain ⟨hlater, -, hback, hlog, hreturned⟩ := h.afterCall_loop ha hstack
    refine ⟨hlater, hback, hlog, hreturned, ?_⟩
    rw [hreturned]
    exact Nat.add_eq_left.trans List.length_eq_zero_iff
  · intro hstack m₁ m'
    have hmoment : Moment handle w m₁ := h.trans (later_script hstack [a])
    obtain ⟨-, hrun, hback, ⟨log, hlog, hsub⟩, hreturned⟩ := hmoment.afterCall_loop ha rfl
    -- Behind the earlier starts the run goes on as the call does, and ends when it returns.
    have hend : m'.after m.starts = { m₁.afterCall handle with stack := [] } :=
      calc m'.after m.starts = m₁.run handle := perform_after m.scheduler m.world a m.starts
        _ = (m₁.afterCall handle).run handle := hrun.symm
        _ = { m₁.afterCall handle with stack := [] } := run_of_script_nil hback
    have hstarts : m.starts ++ m'.starts = m.starts ++ log :=
      (congrArg Machine.starts hend).trans hlog
    have hsame : m'.returned = (m₁.afterCall handle).returned := by
      change (m'.after m.starts).returned = _
      rw [hend]
    rw [hsame, hreturned, List.append_cancel_left hstarts]
    exact ⟨hsub, rfl, Nat.add_eq_left.trans List.length_eq_zero_iff⟩

/-- A callback calls another one that waits behind it, and schedules one that runs a loop itself. -/
theorem Moment.call_returned_calledBefore :
    let m : Machine Unit Unit := (initial ()).performAll (fun _ w => w)
      [.callSoon "a" [.callSoon "b" [.callSoon "c" [], .runPending], .invoke "d"],
        .callSoon "d" [], .callSoon "e" [], .invoke "e"]
    let m₁ : Machine Unit Unit := { m with stack := [.script [.runPending]], returned := 0 }
    let m₂ := m₁.afterCall fun _ w => w
    let m' := m.scheduler.perform (fun _ w => w) m.world .runPending
    (m'.returned = 4 ∧ (m₁.callStarts fun _ w => w) = [⟨0, .taskLoop⟩, ⟨3, .taskLoop⟩] ∧
        (m₁.callRepeats fun _ w => w) = [1, 2]) ∧
      (Moment (fun _ w => w) () m ∧ m.stack = [] ∧ Moment (fun _ w => w) () m₁) ∧
      (Later (fun _ w => w) m₁ m₂ ∧ m₂.stack = [.script []] ∧
        (∃ log, m₂.starts = m₁.starts ++ log ∧ (m₁.callStarts fun _ w => w).Sublist log) ∧
        m₂.returned = (m₁.callStarts fun _ w => w).length + (m₁.callRepeats fun _ w => w).length ∧
        (m₂.returned = (m₁.callStarts fun _ w => w).length ↔
          (m₁.callRepeats fun _ w => w) = [])) ∧
      (m₁.callStarts fun _ w => w).Sublist m'.starts ∧
      m'.returned = (m₁.callStarts fun _ w => w).length + (m₁.callRepeats fun _ w => w).length ∧
      (m'.returned = (m₁.callStarts fun _ w => w).length ↔ (m₁.callRepeats fun _ w => w) = []) := by
  intro m m₁ m₂ m'
  have hmoment : Moment (fun _ w => w) () m := later_performAll rfl _
  have hstack : m.stack = [] := performAll_stack rfl _
  have hmoment₁ : Moment (fun _ w => w) () m₁ := hmoment.trans (later_script hstack _)
  have hreturned : m'.returned = 4 := by
    decide +kernel
  have hstarts : (m₁.callStarts fun _ w => w) = [⟨0, .taskLoop⟩, ⟨3, .taskLoop⟩] := by
    decide +kernel
  have hrepeats : (m₁.callRepeats fun _ w => w) = [1, 2] := by
    decide +kernel
  exact ⟨⟨hreturned, hstarts, hrepeats⟩, ⟨hmoment, hstack, hmoment₁⟩,
    (Moment.call_returned hmoment₁ (.inl rfl)).1 [] [] rfl,
    (Moment.call_returned hmoment (.inl rfl)).2 hstack⟩

/-- A job that was called directly while it waited is counted, but not started again. -/
theorem call_returned_ne_starts :
    ¬ ∀ (m : Machine Unit Unit) (a : Action Unit), Moment (fun _ w => w) () m → m.stack = [] →
      (a = .runPending ∨ a = .runFrame) →
      let m₁ : Machine Unit Unit := { m with stack := [.script [a]], returned := 0 }
      (m.scheduler.perform (fun _ w => w) m.world a).returned =
        (m₁.callStarts fun _ w => w).length := by
  intro h
  let m : Machine Unit Unit :=
    (initial ()).performAll (fun _ w => w) [.callSoon "a" [], .invoke "a"]
  let m₁ : Machine Unit Unit := { m with stack := [.script [.runPending]], returned := 0 }
  have hreturned : (m.scheduler.perform (fun _ w => w) m.world .runPending).returned = 1 := by
    decide +kernel
  have hstarts : (m₁.callStarts fun _ w => w).length = 0 := by
    decide +kernel
  have hcall : (m.scheduler.perform (fun _ w => w) m.world .runPending).returned =
      (m₁.callStarts fun _ w => w).length :=
    h m .runPending (later_performAll rfl _) (performAll_stack rfl _) (.inl rfl)
  rw [hreturned, hstarts] at hcall
  cases hcall

end Machine

end Tablature
