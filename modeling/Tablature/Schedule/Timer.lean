import Tablature.Schedule.Machine

/-!
# Timers

A timer loop runs a scheduler on a clock. What is scheduled for the next turn is
due at once, and what is scheduled for the next frame is due after the frame
interval. The clock moves on from timer to timer; of two timers that are due
together the older one fires first.
-/

namespace Tablature

structure Timer where
  due : Float
  job : Nat

def Timer.before (t u : Timer) : Bool := t.due < u.due || (t.due == u.due && t.job < u.job)

def Timer.first? : List Timer → Option Timer
  | [] => none
  | t :: ts =>
    match first? ts with
    | none => some t
    | some u => if u.before t then some u else some t

theorem Timer.mem_of_first? {ts : List Timer} {t : Timer} (h : first? ts = some t) : t ∈ ts := by
  induction ts generalizing t with
  | nil => exact nomatch h
  | cons u ts ih =>
    simp only [first?] at h
    split at h
    · cases h
      exact .head _
    · rename_i v hv
      split at h
      · cases h
        exact .tail _ (ih hv)
      · cases h
        exact .head _

structure TimerLoop (ε σ : Type) where
  scheduler : Scheduler ε
  world : σ
  timers : List Timer
  now : Float
  /-- The time between two frames, in seconds. -/
  interval : Float
  starts : List Start

namespace TimerLoop

variable {ε σ : Type}

def frameInterval : Float := 1.0 / 60.0

def start (world : σ) (interval : Float) : TimerLoop ε σ := ⟨.empty, world, [], 0.0, interval, []⟩

def live (l : TimerLoop ε σ) : List Timer := l.timers.filter fun t => l.scheduler.isLive t.job

/-- Sets timers for the jobs that a machine left in its queues. -/
def absorb (l : TimerLoop ε σ) (m : Machine ε σ) : TimerLoop ε σ :=
  { l with
    scheduler := { m.scheduler with tasks := [], frames := [] }
    world := m.world
    timers := l.timers ++ m.scheduler.tasks.map (⟨l.now + 0.0, ·⟩) ++
      m.scheduler.frames.map (⟨l.now + l.interval, ·⟩)
    starts := l.starts ++ m.starts }

def perform (handle : ε → σ → σ) (l : TimerLoop ε σ) (a : Action ε) : TimerLoop ε σ :=
  l.absorb (l.scheduler.perform handle l.world a)

def fire (handle : ε → σ → σ) (l : TimerLoop ε σ) (t : Timer) : TimerLoop ε σ :=
  let l := { l with
    timers := l.timers.filter (·.job != t.job)
    now := if l.now < t.due then t.due else l.now }
  l.absorb (Machine.run handle (Machine.begin ⟨l.scheduler, l.world, [], [], 0⟩ t.job .timer))

def work (l : TimerLoop ε σ) : Nat := l.scheduler.work + l.timers.length

theorem work_absorb_le (l : TimerLoop ε σ) (m : Machine ε σ) :
    (l.absorb m).work ≤ m.work + l.timers.length := by
  simp only [absorb, work, Machine.work, Scheduler.work, List.length_append, List.length_map,
    List.length_nil]
  omega

theorem work_fire_lt (handle : ε → σ → σ) {l : TimerLoop ε σ} {t : Timer} (h : t ∈ l.timers) :
    (l.fire handle t).work < l.work := by
  have hlt : (l.timers.filter (·.job != t.job)).length < l.timers.length := by
    rw [List.length_filter_lt_length_iff_exists]
    exact ⟨t, h, by simp⟩
  unfold fire
  refine Nat.lt_of_le_of_lt (work_absorb_le _ _) ?_
  refine Nat.lt_of_le_of_lt (Nat.add_le_add_right (Machine.work_run_le handle _) _) ?_
  rw [Machine.work_begin]
  simp only [work, Machine.work, Activity.workAll]
  omega

/-- Fires the timers that are due up to `stop`, those set meanwhile included. -/
def advanceTo (handle : ε → σ → σ) (stop : Float) (l : TimerLoop ε σ) : TimerLoop ε σ :=
  match _h : Timer.first? (l.live.filter fun t => t.due ≤ stop) with
  | none => { l with now := stop }
  | some t => advanceTo handle stop (l.fire handle t)
termination_by l.work
decreasing_by
  exact work_fire_lt handle (List.mem_filter.mp (List.mem_filter.mp (Timer.mem_of_first? _h)).1).1

def advance (handle : ε → σ → σ) (l : TimerLoop ε σ) (seconds : Float) : TimerLoop ε σ :=
  l.advanceTo handle (l.now + seconds)

end TimerLoop

end Tablature
