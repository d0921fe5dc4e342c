import Tablature.Schedule.Scheduler

/-!
# What becomes of jobs

A job stays under its number for good, and once it is cancelled or done it remains
so, whatever happens to the scheduler.
-/

namespace Tablature

namespace Scheduler

variable {ε : Type}

@[simp] theorem nextJob_callSoon (s : Scheduler ε) (cb : Callback ε) :
    (s.callSoon cb).nextJob = s.nextJob + 1 := List.length_append

@[simp] theorem nextJob_requestFrame (s : Scheduler ε) (cb : Callback ε) :
    (s.requestFrame cb).nextJob = s.nextJob + 1 := List.length_append

def Cancelled (s : Scheduler ε) (id : Nat) : Prop :=
  ∃ j, s.jobs[id]? = some j ∧ j.cancelled = true

theorem Cancelled.isLive {s : Scheduler ε} {id : Nat} (h : s.Cancelled id) : s.isLive id = false := by
  obtain ⟨j, hj, hc⟩ := h
  simp [Scheduler.isLive, hj, hc]

theorem cancel_cancelled {s : Scheduler ε} {id : Nat} {j : Job ε} (h : s.jobs[id]? = some j) :
    (s.cancel id).Cancelled id :=
  ⟨{ j with cancelled := true }, by simp [Scheduler.cancel, h], rfl⟩

theorem isLive_iff {s : Scheduler ε} {id : Nat} :
    s.isLive id = true ↔ ∃ j, s.jobs[id]? = some j ∧ j.cancelled = false := by
  cases hj : s.jobs[id]? <;> simp [isLive, hj]

def IsOver (s : Scheduler ε) (id : Nat) : Prop :=
  ∃ j, s.jobs[id]? = some j ∧ (j.cancelled = true ∨ j.done = true)

/-- Every job is still there, and cancelled or done if it was. -/
def Grows (s s' : Scheduler ε) : Prop :=
  ∀ (id : Nat) (j : Job ε), s.jobs[id]? = some j →
    ∃ j' : Job ε, s'.jobs[id]? = some j' ∧ j'.callback = j.callback ∧
      (j.cancelled = true → j'.cancelled = true) ∧ (j.done = true → j'.done = true)

namespace Grows

theorem refl (s : Scheduler ε) : s.Grows s := fun _ j hj => ⟨j, hj, rfl, fun h => h, fun h => h⟩

theorem trans {s t u : Scheduler ε} (h : s.Grows t) (h' : t.Grows u) : s.Grows u := by
  intro id j hj
  obtain ⟨j', hj', hcb, hc, hd⟩ := h id j hj
  obtain ⟨j'', hj'', hcb', hc', hd'⟩ := h' id j' hj'
  exact ⟨j'', hj'', hcb'.trans hcb, hc' ∘ hc, hd' ∘ hd⟩

theorem addJob (s : Scheduler ε) (cb : Callback ε) : s.Grows (s.addJob cb) := by
  intro id j hj
  obtain ⟨hlt, -⟩ := List.getElem?_eq_some_iff.mp hj
  refine ⟨j, ?_, rfl, fun h => h, fun h => h⟩
  rw [Scheduler.addJob, List.getElem?_append_left hlt, hj]

theorem modify {f : Job ε → Job ε} (hcb : ∀ j, (f j).callback = j.callback)
    (hc : ∀ j, j.cancelled = true → (f j).cancelled = true)
    (hd : ∀ j, j.done = true → (f j).done = true) (s : Scheduler ε) (id : Nat) :
    s.Grows { s with jobs := s.jobs.modify id f } := by
  intro id' j hj
  by_cases hid : id = id'
  · exact ⟨f j, by simp [hid, hj], hcb j, hc j, hd j⟩
  · exact ⟨j, by simp [hid, hj], rfl, fun h => h, fun h => h⟩

theorem cancel (s : Scheduler ε) (id : Nat) : s.Grows (s.cancel id) :=
  modify (f := fun j => { j with cancelled := true }) (fun _ => rfl) (fun _ _ => rfl) (fun _ h => h) s id

theorem finish (s : Scheduler ε) (id : Nat) : s.Grows (s.finish id) :=
  modify (f := fun j => { j with done := true }) (fun _ => rfl) (fun _ h => h) (fun _ _ => rfl) s id

variable {s s' : Scheduler ε}

theorem cancelled (h : s.Grows s') {id : Nat} (hid : s.Cancelled id) : s'.Cancelled id := by
  obtain ⟨j, hj, hc⟩ := hid
  obtain ⟨j', hj', -, hc', -⟩ := h id j hj
  exact ⟨j', hj', hc' hc⟩

theorem nextJob_le (h : s.Grows s') : s.nextJob ≤ s'.nextJob := by
  refine Nat.le_of_not_lt fun hlt => ?_
  obtain ⟨j', hj', -⟩ := h s'.nextJob _ (List.getElem?_eq_getElem hlt)
  obtain ⟨hlt', -⟩ := List.getElem?_eq_some_iff.mp hj'
  exact Nat.lt_irrefl _ hlt'

theorem isOver (h : s.Grows s') {id : Nat} (hid : s.IsOver id) : s'.IsOver id := by
  obtain ⟨j, hj, hover⟩ := hid
  obtain ⟨j', hj', -, hc, hd⟩ := h id j hj
  exact ⟨j', hj', hover.imp hc hd⟩

end Grows

namespace Cancelled

variable {s : Scheduler ε} {id : Nat}

theorem callSoon (h : s.Cancelled id) (cb : Callback ε) : (s.callSoon cb).Cancelled id :=
  (Grows.addJob s cb).cancelled h

theorem requestFrame (h : s.Cancelled id) (cb : Callback ε) : (s.requestFrame cb).Cancelled id :=
  (Grows.addJob s cb).cancelled h

theorem cancel (h : s.Cancelled id) (id' : Nat) : (s.cancel id').Cancelled id :=
  (Grows.cancel s id').cancelled h

end Cancelled

end Scheduler

end Tablature
