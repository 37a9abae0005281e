/-!
Loops that take steps as long as there are any. Every step lowers the rank of
the state, so a loop comes to an end.
-/

namespace Stencil.Loop

variable {State Rank : Type}

/-- From one state on, steps lead to another in which there is none. -/
inductive Halts (step : State → Option State) : State → State → Prop where
  | done {state : State} (hStep : step state = none) : Halts step state state
  | next {state next last : State} (hStep : step state = some next)
      (rest : Halts step next last) : Halts step state last

variable [WellFoundedRelation Rank]

/-- The state in which no further step is taken. -/
def run (step : State → Option State) (rank : State → Rank)
    (hLower : ∀ state next, step state = some next →
      WellFoundedRelation.rel (rank next) (rank state)) (state : State) : State :=
  match _hStep : step state with
  | none => state
  | some next => run step rank hLower next
termination_by rank state
decreasing_by exact hLower state next _hStep

variable {step : State → Option State} {rank : State → Rank}
  {hLower : ∀ state next, step state = some next →
    WellFoundedRelation.rel (rank next) (rank state)} {state : State}

/-- The run of a loop ends where no step is left, after finitely many steps. -/
theorem halts_run : Halts step state (run step rank hLower state) := by
  fun_induction run step rank hLower state with
  | case1 state hStep => exact .done hStep
  | case2 state next hStep ih => exact .next hStep ih

/-- What holds at the start and is kept by every step holds in the end. -/
theorem run_keeps {motive : State → Prop} (hStart : motive state)
    (hStep : ∀ state next, motive state → step state = some next → motive next) :
    motive (run step rank hLower state) := by
  fun_induction run step rank hLower state with
  | case1 state hNext => exact hStart
  | case2 state next hNext ih => exact ih (hStep state next hStart hNext)

/-- A loop without a step to take stays where it is. -/
theorem run_of_step_eq_none (hStep : step state = none) : run step rank hLower state = state := by
  unfold run
  split
  next => rfl
  next next hNext => rw [hStep] at hNext; cases hNext

/-- The loop ends where there is no step. -/
theorem step_run : step (run step rank hLower state) = none := by
  fun_induction run step rank hLower state with
  | case1 state hStep => exact hStep
  | case2 state next hStep ih => exact ih

end Stencil.Loop
