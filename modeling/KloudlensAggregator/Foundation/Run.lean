import Mathlib.Data.List.Basic

/-!
# Runs of a partial step function

A system is a step function `state → event → Option state`, where `none` means
that the event is not enabled.  A run is a list of events.  The lemmas below
are the only induction over runs that the rest of the development uses.
-/

namespace KloudlensAggregator.Foundation

variable {state event : Type*}

def run (step : state → event → Option state) : state → List event → Option state
  | s, [] => some s
  | s, e :: events => (step s e).bind fun next => run step next events

@[simp] theorem run_nil (step : state → event → Option state) (s : state) :
    run step s [] = some s := rfl

theorem run_cons_eq_some {step : state → event → Option state} {s t : state}
    {e : event} {events : List event} :
    run step s (e :: events) = some t ↔
      ∃ next, step s e = some next ∧ run step next events = some t := by
  simp [run, Option.bind_eq_some_iff]

theorem run_append (step : state → event → Option state) (s : state)
    (first second : List event) :
    run step s (first ++ second) =
      (run step s first).bind fun t => run step t second := by
  induction first generalizing s with
  | nil => simp
  | cons e events ih =>
      simp only [List.cons_append, run]
      cases step s e with
      | none => rfl
      | some next => simpa using ih next

theorem run_append_eq_some {step : state → event → Option state} {s u : state}
    {first second : List event} :
    run step s (first ++ second) = some u ↔
      ∃ t, run step s first = some t ∧ run step t second = some u := by
  rw [run_append, Option.bind_eq_some_iff]

theorem run_singleton (step : state → event → Option state) (s : state)
    (e : event) : run step s [e] = step s e := by
  simp [run]

/-- The invariant rule: what every step preserves holds after every run. -/
theorem run_invariant {step : state → event → Option state} (Inv : state → Prop)
    (preserved : ∀ s e t, Inv s → step s e = some t → Inv t)
    {s t : state} {events : List event} (initially : Inv s)
    (hrun : run step s events = some t) : Inv t := by
  induction events generalizing s with
  | nil =>
      simp only [run_nil, Option.some.injEq] at hrun
      exact hrun ▸ initially
  | cons e events ih =>
      obtain ⟨next, hstep, hrest⟩ := run_cons_eq_some.mp hrun
      exact ih (preserved s e next initially hstep) hrest

theorem run_history {step : state → event → Option state}
    (Inv : List event → state → Prop)
    (preserved : ∀ past s e t, Inv past s → step s e = some t → Inv (past ++ [e]) t)
    {s t : state} {past events : List event} (initially : Inv past s)
    (hrun : run step s events = some t) : Inv (past ++ events) t := by
  induction events generalizing past s with
  | nil =>
      simp only [run_nil, Option.some.injEq] at hrun
      simpa [hrun] using initially
  | cons e events ih =>
      obtain ⟨next, hstep, hrest⟩ := run_cons_eq_some.mp hrun
      have hnext := ih (preserved past s e next initially hstep) hrest
      simpa using hnext

theorem run_flatMap {group : Type*} (step : state → event → Option state)
    (expand : group → List event) (s : state) (groups : List group) :
    run step s (groups.flatMap expand) = run (fun s g => run step s (expand g)) s groups := by
  induction groups generalizing s with
  | nil => rfl
  | cons g groups ih =>
      rw [List.flatMap_cons, run_append]
      simp only [run]
      congr 1
      funext t
      exact ih t

/-- The simulation rule: when each step is seen as a run of another system, each run is
seen as a run of that system. -/
theorem run_simulation {state' event' : Type*} {step : state → event → Option state}
    {step' : state' → event' → Option state'} (view : state → state')
    (label : event → List event')
    (simulates : ∀ s e t, step s e = some t → run step' (view s) (label e) = some (view t))
    {s t : state} {events : List event} (hrun : run step s events = some t) :
    run step' (view s) (events.flatMap label) = some (view t) := by
  induction events generalizing s with
  | nil =>
      cases hrun
      rfl
  | cons e events ih =>
      obtain ⟨next, hstep, hrest⟩ := run_cons_eq_some.mp hrun
      rw [List.flatMap_cons, run_append_eq_some]
      exact ⟨view next, simulates s e next hstep, ih hrest⟩

def trace (step : state → event → Option state) : state → List event → List state
  | s, [] => [s]
  | s, e :: events =>
      s :: match step s e with
        | none => []
        | some next => trace step next events

theorem trace_cons {step : state → event → Option state} {s next : state} {e : event}
    (hstep : step s e = some next) (events : List event) :
    trace step s (e :: events) = s :: trace step next events := by
  simp only [trace, hstep]

theorem head?_trace (step : state → event → Option state) (s : state) (events : List event) :
    (trace step s events).head? = some s := by
  cases events <;> rfl

def restrict (guard : state → event → Bool) (step : state → event → Option state) :
    state → event → Option state :=
  fun s e => if guard s e then step s e else none

theorem restrict_eq_some {guard : state → event → Bool}
    {step : state → event → Option state} {s t : state} {e : event} :
    restrict guard step s e = some t ↔ guard s e = true ∧ step s e = some t := by
  simp [restrict]

/-! ## Runs of a total step function -/

/-- Every event of the run meets the condition in the state it is taken in. -/
def Along (step : state → event → state) (cond : state → event → Prop) :
    state → List event → Prop
  | _, [] => True
  | s, e :: events => cond s e ∧ Along step cond (step s e) events

instance decidableAlong (step : state → event → state) (cond : state → event → Prop)
    [∀ s e, Decidable (cond s e)] (s : state) (events : List event) :
    Decidable (Along step cond s events) :=
  match events with
  | [] => inferInstanceAs (Decidable True)
  | e :: events =>
      have := decidableAlong step cond (step s e) events
      inferInstanceAs (Decidable (cond s e ∧ Along step cond (step s e) events))

theorem along_append {step : state → event → state} {cond : state → event → Prop} {s : state}
    {first second : List event} :
    Along step cond s (first ++ second) ↔
      Along step cond s first ∧ Along step cond (first.foldl step s) second := by
  induction first generalizing s with
  | nil => simp [Along]
  | cons e events ih => simp only [List.cons_append, Along, List.foldl_cons, ih, and_assoc]

theorem along_of_forall {step : state → event → state} {cond : state → event → Prop} {s : state}
    {events : List event} (h : ∀ s, ∀ e ∈ events, cond s e) : Along step cond s events := by
  induction events generalizing s with
  | nil => trivial
  | cons e events ih =>
      exact ⟨h s e List.mem_cons_self, ih fun s e he => h s e (List.mem_cons_of_mem _ he)⟩

theorem exists_of_not_along {step : state → event → state} {cond : state → event → Prop}
    {s : state} {events : List event} (h : ¬ Along step cond s events) :
    ∃ before e, before ++ [e] <+: events ∧ Along step cond s before ∧
      ¬ cond (before.foldl step s) e := by
  induction events generalizing s with
  | nil => exact absurd trivial h
  | cons e events ih =>
      by_cases hcond : cond s e
      · have hrest : ¬ Along step cond (step s e) events := fun hrest => h ⟨hcond, hrest⟩
        obtain ⟨before, last, hinitial, halong, hnot⟩ := ih hrest
        exact ⟨e :: before, last, List.cons_prefix_cons.mpr ⟨rfl, hinitial⟩,
          ⟨hcond, halong⟩, hnot⟩
      · exact ⟨[], e, ⟨events, rfl⟩, trivial, hcond⟩

theorem along_invariant {step : state → event → state} {cond : state → event → Prop}
    (Inv : state → Prop) (preserved : ∀ s e, Inv s → cond s e → Inv (step s e)) {s : state}
    {events : List event} (initially : Inv s) (h : Along step cond s events) :
    Inv (events.foldl step s) := by
  induction events generalizing s with
  | nil => exact initially
  | cons e events ih => exact ih (preserved s e initially h.1) h.2

end KloudlensAggregator.Foundation
