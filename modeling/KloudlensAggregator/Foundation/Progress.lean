import Mathlib.Tactic
import KloudlensAggregator.Foundation.Run

/-!
# Progress

Two rules about measures of a state.  Where in every state short of a goal some step is
enabled that lowers the measure, the goal is reached.  Where every step lowers it, up
to what the step itself costs, no run is longer than the measure and the costs allow.
A measure that is a sum over the parts of a list changes with the part that moves.
-/

namespace KloudlensAggregator.Foundation

variable {state event : Type*} {step : state → event → Option state}

/-- The progress rule. -/
theorem exists_run_of_progress (Inv goal : state → Prop) (measure : state → Nat)
    (progress : ∀ s, Inv s → ¬ goal s → ∃ e t, step s e = some t ∧ Inv t ∧ measure t < measure s)
    {s : state} (initially : Inv s) :
    ∃ events t, run step s events = some t ∧ Inv t ∧ goal t ∧ events.length ≤ measure s := by
  induction hmeasure : measure s using Nat.strongRecOn generalizing s with
  | ind n ih =>
      by_cases hgoal : goal s
      · exact ⟨[], s, rfl, initially, hgoal, Nat.zero_le _⟩
      · obtain ⟨e, t, hstep, ht, hlt⟩ := progress s initially hgoal
        obtain ⟨events, last, hrun, hlast, hend, hlength⟩ := ih (measure t) (hmeasure ▸ hlt) ht rfl
        refine ⟨e :: events, last, run_cons_eq_some.mpr ⟨t, hstep, hrun⟩, hlast, hend, ?_⟩
        rw [List.length_cons]
        omega

/-- The bound rule. -/
theorem run_measure_le (Inv : state → Prop) (measure : state → Nat) (cost : event → Nat)
    (preserved : ∀ s e t, Inv s → step s e = some t → Inv t)
    (decreases : ∀ s e t, Inv s → step s e = some t → measure t < measure s + cost e)
    {s t : state} {events : List event} (initially : Inv s) (hrun : run step s events = some t) :
    events.length + measure t ≤ measure s + (events.map cost).sum := by
  induction events generalizing s with
  | nil =>
      cases hrun
      rw [List.length_nil, Nat.zero_add]
      exact Nat.le_add_right _ _
  | cons e events ih =>
      obtain ⟨next, hstep, hrest⟩ := run_cons_eq_some.mp hrun
      have hnext := ih (preserved s e next initially hstep) hrest
      have hfirst := decreases s e next initially hstep
      rw [List.length_cons, List.map_cons, List.sum_cons]
      omega

theorem sum_map_set {α : Type*} (f : α → Nat) {items : List α} {i : Nat} {old : α}
    (hold : items[i]? = some old) (new : α) :
    ((items.set i new).map f).sum + f old = (items.map f).sum + f new := by
  induction items generalizing i with
  | nil => simp at hold
  | cons first items ih =>
      cases i with
      | zero =>
          cases hold
          simp only [List.set_cons_zero, List.map_cons, List.sum_cons]
          omega
      | succ i =>
          have hrest := ih hold
          simp only [List.set_cons_succ, List.map_cons, List.sum_cons]
          omega

end KloudlensAggregator.Foundation
