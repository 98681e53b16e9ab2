import KloudlensAggregator.Foundation.Run

/-!
# Chores on a ticker

A goroutine that waits for the ticks of a ticker and does a chore at each, beside the
other users of a shared state.  The channel of a ticker holds one tick: while the
goroutine is busy, further ticks are dropped.  Time passes by a step of its own, which
is where the timing comes in: ticks are sent when they are due, and none waits in the
channel for more than `late`.
-/

namespace KloudlensAggregator.Foundation

variable {σ ε : Type*}

/-- The chore, and what others do to the state, at the time it is done.  A ticker with
an interval that is not positive does not exist. -/
structure Routine (σ ε : Type*) where
  interval : Int
  interval_pos : 0 < interval
  late : Nat
  act : σ → Int → ε → Option σ
  chore : σ → Int → Option σ

structure Janitor (σ : Type*) where
  state : σ
  now : Int
  /-- When the next tick is due. -/
  next : Int
  /-- When the tick in the channel was sent. -/
  waiting : Option Int
  /-- When the chore was last done, or the ticker made. -/
  served : Int
  done : Bool
  returned : Bool

inductive JanitorEvent (ε : Type*) where
  | act (e : ε)
  | pass (time : Int)
  | send
  | receive
  /-- The context is cancelled. -/
  | cancel
  | leave

namespace Janitor

variable {rt : Routine σ ε} {j k : Janitor σ}

def start (rt : Routine σ ε) (state : σ) (now : Int) : Janitor σ :=
  ⟨state, now, now + rt.interval, none, now, false, false⟩

/-- Time passes up to the next tick, and not beyond the patience of one that waits. -/
def mayPass (rt : Routine σ ε) (j : Janitor σ) (time : Int) : Bool :=
  j.now ≤ time &&
    (j.returned || (time ≤ j.next && j.waiting.all fun sent => time ≤ sent + rt.late))

def step (rt : Routine σ ε) (j : Janitor σ) : JanitorEvent ε → Option (Janitor σ)
  | .act e => (rt.act j.state j.now e).map fun state => { j with state := state }
  | .pass time => if j.mayPass rt time then some { j with now := time } else none
  | .send =>
      if j.now = j.next ∧ j.returned = false then
        some { j with
          next := j.next + rt.interval
          -- a full channel drops the tick
          waiting := j.waiting.or (some j.now) }
      else none
  | .receive =>
      if j.returned then none
      else
        j.waiting.bind fun _ =>
          (rt.chore j.state j.now).map fun state =>
            { j with state := state, waiting := none, served := j.now }
  | .cancel => some { j with done := true }
  | .leave => if j.done ∧ j.returned = false then some { j with returned := true } else none

/-- Since the chore was last done at most one tick was due. -/
structure Punctual (rt : Routine σ ε) (j : Janitor σ) : Prop where
  served_le : j.served ≤ j.now
  now_le : j.returned = false → j.now ≤ j.next
  next_le : j.returned = false → j.next ≤ j.now + rt.interval
  idle : j.returned = false → j.waiting = none → j.next ≤ j.served + rt.interval
  sent : j.returned = false → ∀ sent, j.waiting = some sent →
    sent ≤ j.served + rt.interval ∧ j.now ≤ sent + rt.late

theorem punctual_start (rt : Routine σ ε) (state : σ) (now : Int) :
    (start rt state now).Punctual rt := by
  have hpos := rt.interval_pos
  refine ⟨Int.le_refl _, fun _ => ?_, fun _ => Int.le_refl _, fun _ _ => Int.le_refl _, ?_⟩
  · simp only [start]
    omega
  · intro _ sent hsent
    cases hsent

theorem mayPass_iff {time : Int} :
    j.mayPass rt time = true ↔ j.now ≤ time ∧ (j.returned = true ∨
      (time ≤ j.next ∧ ∀ sent, j.waiting = some sent → time ≤ sent + rt.late)) := by
  cases hwaiting : j.waiting <;> simp [mayPass, hwaiting]

theorem Punctual.step {e : JanitorEvent ε} (h : j.Punctual rt) (hstep : j.step rt e = some k) :
    k.Punctual rt := by
  have hpos := rt.interval_pos
  cases e with
  | act e =>
      obtain ⟨state, -, rfl⟩ := Option.map_eq_some_iff.mp hstep
      exact ⟨h.served_le, h.now_le, h.next_le, h.idle, h.sent⟩
  | pass time =>
      simp only [Janitor.step] at hstep
      split at hstep
      · rename_i hpass
        cases hstep
        obtain ⟨hforward, hbefore⟩ := mayPass_iff.mp hpass
        refine ⟨Int.le_trans h.served_le hforward, fun hlive => ?_, fun hlive => ?_, h.idle,
          fun hlive sent hsent => ?_⟩
        all_goals
          dsimp only at hlive ⊢
          rw [hlive] at hbefore
          obtain ⟨hdue, hpatience⟩ := hbefore.resolve_left Bool.false_ne_true
        · exact hdue
        · have hnext := h.next_le hlive
          omega
        · exact ⟨(h.sent hlive sent hsent).1, hpatience sent hsent⟩
      · cases hstep
  | send =>
      simp only [Janitor.step] at hstep
      split at hstep
      · rename_i hdue
        cases hstep
        refine ⟨h.served_le, fun _ => ?_, fun _ => ?_, fun _ hnone => ?_,
          fun hlive sent hsent => ?_⟩
        · dsimp only
          omega
        · dsimp only
          omega
        · simp at hnone
        · dsimp only at hlive hsent ⊢
          cases hwaiting : j.waiting with
          | none =>
              rw [hwaiting] at hsent
              cases hsent
              have hidle := h.idle hlive hwaiting
              omega
          | some earlier =>
              rw [hwaiting] at hsent
              cases hsent
              exact h.sent hlive _ hwaiting
      · cases hstep
  | receive =>
      simp only [Janitor.step] at hstep
      split at hstep
      · cases hstep
      · obtain ⟨sent, -, hserve⟩ := Option.bind_eq_some_iff.mp hstep
        obtain ⟨state, -, rfl⟩ := Option.map_eq_some_iff.mp hserve
        refine ⟨Int.le_refl _, h.now_le, h.next_le, fun hlive _ => h.next_le hlive, ?_⟩
        intro _ sent hsent
        cases hsent
  | cancel =>
      cases hstep
      exact ⟨h.served_le, h.now_le, h.next_le, h.idle, h.sent⟩
  | leave =>
      simp only [Janitor.step] at hstep
      split at hstep
      · cases hstep
        refine ⟨h.served_le, ?_, ?_, ?_, ?_⟩ <;> rintro ⟨⟩
      · cases hstep

theorem Punctual.now_le_served (h : j.Punctual rt) (hlive : j.returned = false) :
    j.now ≤ j.served + rt.interval + rt.late := by
  cases hwaiting : j.waiting with
  | none =>
      have hnow := h.now_le hlive
      have hidle := h.idle hlive hwaiting
      omega
  | some sent =>
      obtain ⟨hsent, hnow⟩ := h.sent hlive sent hwaiting
      omega

/-- The invariant rule: a property of the state, of the time and of the time the chore was
last done. -/
theorem run_invariant (Inv : Int → Int → σ → Prop)
    (passes : ∀ served now later s, Inv served now s → now ≤ later → Inv served later s)
    (acts : ∀ served now s e t, served ≤ now → Inv served now s → rt.act s now e = some t →
      Inv served now t)
    (chores : ∀ served now s t, Inv served now s → rt.chore s now = some t → Inv now now t)
    {state : σ} {now : Int} {events : List (JanitorEvent ε)} (initially : Inv now now state)
    (hrun : run (step rt) (start rt state now) events = some j) :
    j.Punctual rt ∧ Inv j.served j.now j.state := by
  apply Foundation.run_invariant
    (fun j : Janitor σ => j.Punctual rt ∧ Inv j.served j.now j.state) _
    ⟨punctual_start rt state now, initially⟩ hrun
  rintro j e k ⟨hpunctual, hinv⟩ hstep
  refine ⟨hpunctual.step hstep, ?_⟩
  cases e with
  | act e =>
      obtain ⟨state, hact, rfl⟩ := Option.map_eq_some_iff.mp hstep
      exact acts _ _ _ _ _ hpunctual.served_le hinv hact
  | pass time =>
      simp only [step] at hstep
      split at hstep
      · rename_i hpass
        cases hstep
        exact passes _ _ _ _ hinv (mayPass_iff.mp hpass).1
      · cases hstep
  | send =>
      simp only [step] at hstep
      split at hstep <;> cases hstep
      exact hinv
  | receive =>
      simp only [step] at hstep
      split at hstep
      · cases hstep
      · obtain ⟨sent, -, hserve⟩ := Option.bind_eq_some_iff.mp hstep
        obtain ⟨state, hchore, rfl⟩ := Option.map_eq_some_iff.mp hserve
        exact chores _ _ _ _ hinv hchore
  | cancel =>
      cases hstep
      exact hinv
  | leave =>
      simp only [step] at hstep
      split at hstep <;> cases hstep
      exact hinv

end Janitor

end KloudlensAggregator.Foundation
