import Tablature.Proofs.Schedule.Draining

/-!
# Jobs that have run and still wait

A job waits in one place at most, and a loop that starts it takes it from there. So a
job that has run while it waits was called directly.
-/

namespace Tablature

/-- No job waits twice, and a waiting job that has run was called directly. -/
structure Waitlist {ε : Type} (jobs : List (Job ε)) (waiting : List Nat) (starts : List Start) :
    Prop where
  once : waiting.Nodup
  known : ∀ id ∈ waiting, id < jobs.length
  direct : ∀ id ∈ waiting, ∀ j, jobs[id]? = some j → j.done = true → ⟨id, .direct⟩ ∈ starts

namespace Waitlist

variable {ε : Type} {jobs : List (Job ε)} {waiting waiting' : List Nat} {starts : List Start}
  {id : Nat}

theorem empty : Waitlist ([] : List (Job ε)) [] [] where
  once := .nil
  known := nofun
  direct := nofun

theorem addJob (h : Waitlist jobs waiting starts) (cb : Callback ε)
    (hperm : waiting'.Perm (jobs.length :: waiting)) :
    Waitlist (jobs ++ [⟨cb, false, false⟩]) waiting' starts where
  once := by
    refine hperm.nodup_iff.mpr (List.nodup_cons.mpr ⟨fun hid => ?_, h.once⟩)
    exact Nat.lt_irrefl _ (h.known _ hid)
  known id hid := by
    rw [List.length_append]
    rcases List.mem_cons.mp (hperm.mem_iff.mp hid) with rfl | hid
    · exact Nat.lt_succ_self _
    · exact Nat.lt_succ_of_lt (h.known id hid)
  direct id hid j hj hd := by
    rcases List.mem_cons.mp (hperm.mem_iff.mp hid) with rfl | hid
    · rw [List.getElem?_concat_length] at hj
      cases hj
      cases hd
    · rw [List.getElem?_append_left (h.known id hid)] at hj
      exact h.direct id hid j hj hd

theorem cancel (h : Waitlist jobs waiting starts) (id : Nat) :
    Waitlist (jobs.modify id fun j => { j with cancelled := true }) waiting starts where
  once := h.once
  known id' hid' := by
    rw [List.length_modify]
    exact h.known id' hid'
  direct id' hid' j' hj' hd' := by
    rw [List.getElem?_modify] at hj'
    obtain ⟨j, hj, rfl⟩ := Option.map_eq_some_iff.mp hj'
    refine h.direct id' hid' j hj ?_
    split at hd' <;> exact hd'

theorem take (h : Waitlist jobs waiting starts) (hperm : waiting.Perm (id :: waiting')) :
    Waitlist jobs waiting' starts ∧ id ∉ waiting' := by
  obtain ⟨hnot, honce⟩ := List.nodup_cons.mp (hperm.nodup_iff.mp h.once)
  have hsub : ∀ id' ∈ waiting', id' ∈ waiting := fun id' hid' =>
    hperm.mem_iff.mpr (List.mem_cons_of_mem _ hid')
  refine ⟨⟨honce, ?_, ?_⟩, hnot⟩
  · intro id' hid'
    exact h.known id' (hsub id' hid')
  · intro id' hid'
    exact h.direct id' (hsub id' hid')

theorem start (h : Waitlist jobs waiting starts) {cause : Cause}
    (hcause : cause = .direct ∨ id ∉ waiting) :
    Waitlist (jobs.modify id fun j => { j with done := true }) waiting
      (starts ++ [⟨id, cause⟩]) where
  once := h.once
  known id' hid' := by
    rw [List.length_modify]
    exact h.known id' hid'
  direct id' hid' j' hj' hd' := by
    by_cases hid : id = id'
    · subst hid
      cases hcause.resolve_right fun hnot => hnot hid'
      exact List.mem_append_right _ (List.mem_singleton_self _)
    · have hj : jobs[id']? = some j' := by simpa [hid] using hj'
      exact List.mem_append_left _ (h.direct id' hid' j' hj hd')

end Waitlist

namespace Machine

variable {ε σ : Type} {handle : ε → σ → σ} {m m' : Machine ε σ} {w : σ}

theorem begin_waitlist {waiting : List Nat} (h : Waitlist m.scheduler.jobs waiting m.starts)
    {id : Nat} {cause : Cause} (hcause : cause = .direct ∨ id ∉ waiting) :
    Waitlist (m.begin id cause).scheduler.jobs waiting (m.begin id cause).starts := by
  rcases begin_cases m id cause with ⟨hm, -⟩ | ⟨j, -, -, -, hm⟩
  · rw [hm]
    exact h
  · rw [hm]
    exact h.start hcause

theorem begin_waitlist_take {m₀ : Machine ε σ} {id : Nat}
    (h : Waitlist m₀.scheduler.jobs m₀.waiting m₀.starts)
    (hjobs : m.scheduler.jobs = m₀.scheduler.jobs) (hstarts : m.starts = m₀.starts)
    (hperm : m₀.waiting.Perm (id :: m.waiting)) (cause : Cause) :
    Waitlist (m.begin id cause).scheduler.jobs (m.begin id cause).waiting
      (m.begin id cause).starts := by
  obtain ⟨hwaiting, hnot⟩ := h.take hperm
  rw [begin_waiting]
  exact begin_waitlist (hjobs ▸ hstarts ▸ hwaiting) (.inr hnot)

theorem Step.waitlist (step : Step handle m m')
    (h : Waitlist m.scheduler.jobs m.waiting m.starts) :
    Waitlist m'.scheduler.jobs m'.waiting m'.starts := by
  cases step with
  | callSoon =>
    refine h.addJob _ ?_
    simp only [Machine.waiting, Scheduler.callSoon, Scheduler.addJob, List.append_assoc]
    exact List.perm_middle
  | requestFrame =>
    refine h.addJob _ ?_
    simp only [Machine.waiting, Scheduler.requestFrame, Scheduler.addJob, ← List.append_assoc]
    exact List.perm_append_comm.append_right _
  | cancel hid => exact h.cancel _
  | invoke hid =>
    rw [begin_waiting]
    refine begin_waitlist ?_ (.inl rfl)
    exact h
  | runFrame | idleFrame hframes =>
    rw [beginFrame_waiting]
    · exact h
    · rfl
  | task htasks | idleTask hframes htasks =>
    apply begin_waitlist_take h
    · rfl
    · rfl
    · simp only [Machine.waiting, htasks]
      exact .refl _
  | frame =>
    apply begin_waitlist_take h
    · rfl
    · rfl
    · exact List.perm_middle
  | _ => exact h

theorem Moment.waitlist (h : Moment handle w m) :
    Waitlist m.scheduler.jobs m.waiting m.starts := by
  induction h with
  | refl => exact .empty
  | tail _ next ih =>
    cases next with
    | step hstep => exact (step_of_step? hstep).waitlist ih
    | script actions => exact ih

end Machine

end Tablature
