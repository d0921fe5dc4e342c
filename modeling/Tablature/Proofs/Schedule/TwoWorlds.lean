import Tablature.Proofs.Schedule.TaskLoop

/-!
# One machine in two worlds

What a machine does next never depends on the outside world. So two runs of one
machine in related worlds go through the same schedule, and the worlds stay
related as long as every effect keeps them so.
-/

namespace Tablature

namespace Machine

variable {ε σ τ : Type} {R : σ → τ → Prop}

inductive Alike (R : σ → τ → Prop) : Machine ε σ → Machine ε τ → Prop where
  | intro {s : Scheduler ε} {w : σ} {v : τ} {stack : List (Activity ε)} {starts : List Start}
    {returned : Nat} (hworld : R w v) :
    Alike R ⟨s, w, stack, starts, returned⟩ ⟨s, v, stack, starts, returned⟩

namespace Alike

variable {m : Machine ε σ} {n : Machine ε τ}

theorem begin (h : Alike R m n) (id : Nat) (cause : Cause) :
    Alike R (m.begin id cause) (n.begin id cause) := by
  cases h with
  | intro hworld =>
    unfold Machine.begin
    dsimp only
    split
    · exact .intro hworld
    · split
      · exact .intro hworld
      · exact .intro hworld

theorem beginTask (h : Alike R m n) (id : Nat) (ids : List Nat) (count : Nat)
    (rest : List (Activity ε)) : Alike R (m.beginTask id ids count rest) (n.beginTask id ids count rest) := by
  cases h with
  | intro hworld => exact (Alike.intro hworld).begin id .taskLoop

section
variable {handle : ε → σ → σ} {handle' : ε → τ → τ}
  (hR : ∀ e w v, R w v → R (handle e w) (handle' e v))
include hR

theorem act (h : Alike R m n) (below rest : List (Activity ε)) (a : Action ε) :
    Alike R (m.act handle below rest a) (n.act handle' below rest a) := by
  cases h with
  | intro hworld =>
    cases a with
    | perform e => exact .intro (hR e _ _ hworld)
    | cancel label =>
      unfold Machine.act
      dsimp only
      split
      · exact .intro hworld
      · exact .intro hworld
    | invoke label =>
      unfold Machine.act
      dsimp only
      split
      · exact .intro hworld
      · exact (Alike.intro hworld).begin _ .direct
    | _ => exact .intro hworld

theorem step? (h : Alike R m n) : Option.Rel (Alike R) (m.step? handle) (n.step? handle') := by
  cases h with
  | intro hworld =>
    unfold Machine.step?
    dsimp only
    split
    · exact .none
    · exact .some (.intro hworld)
    · exact .some ((Alike.intro hworld).act hR _ _ _)
    · split
      · exact .some (.intro hworld)
      · exact .some ((Alike.intro hworld).beginTask _ _ _ _)
    · exact .some (.intro hworld)
    · exact .some ((Alike.intro hworld).begin _ _)
    · split
      · exact .some (.intro hworld)
      · exact .some ((Alike.intro hworld).beginTask _ _ _ _)
      · exact .some (.intro hworld)

theorem run (h : Alike R m n) : Alike R (m.run handle) (n.run handle') := by
  fun_induction Machine.run handle m generalizing n with
  | case1 m hm =>
    have hstep := h.step? hR
    rw [hm] at hstep
    cases hn : n.step? handle' with
    | some n' => rw [hn] at hstep; cases hstep
    | none => rwa [run_of_halted hn]
  | case2 m m' hm ih =>
    have hstep := h.step? hR
    rw [hm] at hstep
    cases hn : n.step? handle' with
    | none => rw [hn] at hstep; cases hstep
    | some n' =>
      rw [hn] at hstep
      rw [run_of_step? hn]
      cases hstep with
      | some hstep => exact ih hstep

end

end Alike

end Machine

theorem Scheduler.perform_alike {ε σ τ : Type} {R : σ → τ → Prop} {handle : ε → σ → σ}
    {handle' : ε → τ → τ} (hR : ∀ e w v, R w v → R (handle e w) (handle' e v)) (s : Scheduler ε)
    {w : σ} {v : τ} (h : R w v) (a : Action ε) :
    Machine.Alike R (s.perform handle w a) (s.perform handle' v a) :=
  (Machine.Alike.intro h).run hR

end Tablature
