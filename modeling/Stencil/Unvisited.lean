/-!
The measure behind every walk through shared and cyclic data: how many members
of a finite stock have not been visited yet. Visiting a new member lowers it.
-/

namespace Stencil

variable {α : Type} [DecidableEq α]

/-- How many members of `stock` do not occur in `visited`. -/
def unvisited (stock visited : List α) : Nat := stock.countP fun a => a ∉ visited

/-- Visiting leaves no more unvisited than before. -/
theorem unvisited_cons_le (stock visited : List α) (a : α) :
    unvisited stock (a :: visited) ≤ unvisited stock visited := by
  apply List.countP_mono_left
  intro b _ h
  simp only [List.mem_cons, not_or, decide_eq_true_eq] at h ⊢
  exact h.2

/-- Visiting something new leaves fewer unvisited. This is what walks terminate by. -/
theorem unvisited_cons_lt {stock visited : List α} {a : α}
    (hStock : a ∈ stock) (hNew : a ∉ visited) :
    unvisited stock (a :: visited) < unvisited stock visited := by
  induction stock with
  | nil => cases hStock
  | cons head rest ih =>
    have hLe := unvisited_cons_le rest visited a
    unfold unvisited at hLe ih ⊢
    rw [List.countP_cons, List.countP_cons]
    by_cases hHead : head = a
    · subst hHead
      rw [decide_eq_false (not_not_intro List.mem_cons_self), decide_eq_true hNew]
      exact Nat.lt_succ_of_le hLe
    · have hRest : a ∈ rest := (List.mem_cons.mp hStock).resolve_left (Ne.symm hHead)
      have hLt := ih hRest
      have hSame : decide (head ∉ a :: visited) = decide (head ∉ visited) := by
        simp [hHead]
      rw [hSame]
      omega

end Stencil
