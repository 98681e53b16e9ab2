import KloudlensAggregator.Aggregator.Lifecycle
import KloudlensAggregator.Foundation.Progress

/-!
# `Run` returns

Once the context is cancelled, `Run` waits for the stream loops, closes the channel,
waits for the writer and flushes the cursors.  None of these waits can last: the send
into the channel never blocks, so that a loop always comes back to `Recv`, and the
writer empties the channel whatever is in it.
-/

namespace KloudlensAggregator.Aggregator

open KloudlensAggregator.Foundation

/-! ## The work that is left -/

def LoopPhase.work : LoopPhase → Nat
  | .receiving => 0
  | .received _ => 4
  | .saved _ => 3

def FanIn.work (s : FanIn) : Nat :=
  (s.loops.map fun l => l.phase.work).sum + 2 * s.ch.length + s.writing.toList.length

def RunPhase.work : RunPhase → Nat
  | .running => 4
  | .joining => 3
  | .closed => 2
  | .drained => 1
  | .returned => 0

/-- What a step adds from outside, with one for the step itself. -/
def FanInEvent.cost : FanInEvent → Nat
  | .start _ _ => 2
  | .recv _ _ => 5
  | .flush _ => 1
  | _ => 0

def LifecycleEvent.cost : LifecycleEvent → Nat
  | .fan e => e.cost
  | .cancel => 1
  | .depart _ => 1
  | _ => 0

namespace FanIn

variable {s t : FanIn}

theorem work_setPhase {i : Nat} {l : StreamLoop} (hl : s.loops[i]? = some l) (phase : LoopPhase) :
    (s.setPhase i l phase).work + l.phase.work = s.work + phase.work := by
  have hsum : ((s.loops.set i { l with phase := phase }).map fun l => l.phase.work).sum +
      l.phase.work = (s.loops.map fun l => l.phase.work).sum + phase.work :=
    sum_map_set (fun l => l.phase.work) hl { l with phase := phase }
  simp only [work, setPhase]
  omega

private theorem work_offer_le (s : FanIn) (d : Delivery) : (s.offer d).work ≤ s.work + 2 := by
  unfold offer
  split
  · simp only [work, List.length_append, List.length_singleton]
    omega
  · simp [work]

theorem work_flush {order : List (Sigma fun _ : String => PersistedCursor)}
    (hstep : s.step (.flush order) = some t) : t.work = s.work ∧ t.loops = s.loops := by
  rcases flush_of_step hstep with ⟨-, rfl⟩ | ⟨-, -, rfl⟩
  · exact ⟨rfl, rfl⟩
  · exact ⟨rfl, rfl⟩

theorem work_step {e : FanInEvent} (hstep : s.step e = some t) :
    (∃ agent stream, e = .start agent stream ∧ t.work = s.work ∧
      t.loops.length = s.loops.length + 1) ∨
    (t.work < s.work + e.cost ∧ t.loops.length = s.loops.length) := by
  cases e with
  | start agent stream =>
      cases hstep
      exact .inl ⟨agent, stream, rfl, by simp [work, LoopPhase.work], by simp⟩
  | recv i env =>
      obtain ⟨l, hl, hphase, rfl⟩ := recv_of_step hstep
      have hwork := work_setPhase hl (.received env)
      simp only [hphase, LoopPhase.work] at hwork
      refine .inr ⟨?_, by simp [setPhase]⟩
      change (s.setPhase i l (.received env)).work < s.work + 5
      omega
  | save i =>
      obtain ⟨l, env, hl, hphase, rfl⟩ := save_of_step hstep
      have hwork := work_setPhase hl (.saved env)
      simp only [hphase, LoopPhase.work] at hwork
      refine .inr ⟨?_, by simp [setPhase]⟩
      change (s.setPhase i l (.saved env)).work < s.work + 0
      omega
  | enqueue i =>
      obtain ⟨l, env, hl, hphase, rfl⟩ := enqueue_of_step hstep
      have hwork := work_setPhase hl .receiving
      have hoffer := work_offer_le (s.setPhase i l .receiving) ⟨l.agent, l.stream, env⟩
      simp only [hphase, LoopPhase.work] at hwork
      refine .inr ⟨by simp only [FanInEvent.cost]; omega, ?_⟩
      unfold offer
      split <;> simp [setPhase]
  | dequeue =>
      obtain ⟨d, rest, hwriting, hch, rfl⟩ := dequeue_of_step hstep
      refine .inr ⟨?_, rfl⟩
      simp only [work, FanInEvent.cost, hwriting, hch, List.length_cons, Option.toList_some,
        Option.toList_none, List.length_nil]
      omega
  | write resolvers now =>
      obtain ⟨d, hwriting, rfl⟩ := Option.map_eq_some_iff.mp hstep
      refine .inr ⟨?_, rfl⟩
      simp only [work, finish, FanInEvent.cost, hwriting, Option.toList_some, Option.toList_none,
        List.length_cons, List.length_nil]
      omega
  | flush order =>
      obtain ⟨hwork, hloops⟩ := work_flush hstep
      exact .inr ⟨by rw [hwork]; exact Nat.lt_succ_self _, by rw [hloops]⟩

end FanIn

namespace Lifecycle

variable {s t : Lifecycle}

def unended (s : Lifecycle) : Finset Nat := Finset.range s.fan.loops.length \ s.ended.toFinset

def work (s : Lifecycle) : Nat := s.fan.work + s.unended.card + s.phase.work

def oneReturn (s : Lifecycle) : LifecycleEvent → Bool
  | .loopReturn i => !s.ended.contains i
  | _ => true

def onceStep : Lifecycle → LifecycleEvent → Option Lifecycle := restrict oneReturn step

private theorem card_unended_return {i : Nat} (hlt : i < s.fan.loops.length)
    (hended : i ∉ s.ended) :
    (unended { s with ended := i :: s.ended }).card + 1 = s.unended.card := by
  have hmem : i ∈ s.unended := by simp [unended, hlt, hended]
  have herase : unended { s with ended := i :: s.ended } = s.unended.erase i := by
    simp only [unended, List.toFinset_cons, Finset.sdiff_insert]
  rw [herase, Finset.card_erase_add_one hmem]

private theorem card_unended_le {fan : FanIn} (h : fan.loops.length = s.fan.loops.length + 1) :
    (unended { s with fan := fan }).card ≤ s.unended.card + 1 := by
  have hsubset : unended { s with fan := fan } ⊆ insert s.fan.loops.length s.unended := by
    intro i hi
    simp only [unended, h, Finset.mem_sdiff, Finset.mem_range, Finset.mem_insert] at hi ⊢
    rcases Nat.lt_succ_iff_lt_or_eq.mp hi.1 with hlt | heq
    · exact .inr ⟨hlt, hi.2⟩
    · exact .inl heq
  exact (Finset.card_le_card hsubset).trans (Finset.card_insert_le _ _)

private theorem work_fan {e : FanInEvent} {fan : FanIn} (hstep : s.fan.step e = some fan) :
    work { s with fan := fan } < s.work + e.cost := by
  rcases FanIn.work_step hstep with ⟨agent, stream, rfl, hwork, hlength⟩ | ⟨hwork, hlength⟩
  · have hcard := card_unended_le hlength
    simp only [work, FanInEvent.cost]
    omega
  · have hunended : unended { s with fan := fan } = s.unended := by simp only [unended, hlength]
    simp only [work, hunended]
    omega

theorem work_step {e : LifecycleEvent} (hstep : s.onceStep e = some t) :
    t.work < s.work + e.cost := by
  obtain ⟨hone, hstep⟩ := restrict_eq_some.mp hstep
  cases e with
  | fan e =>
      simp only [step] at hstep
      split at hstep
      · obtain ⟨fan, hfan, rfl⟩ := Option.map_eq_some_iff.mp hstep
        exact work_fan hfan
      · cases hstep
  | cancel =>
      cases hstep
      exact Nat.lt_succ_self _
  | depart i =>
      simp only [step] at hstep
      split at hstep
      · cases hstep
        exact Nat.lt_succ_self _
      · cases hstep
  | loopReturn i =>
      simp only [step] at hstep
      split at hstep
      · rename_i hready
        cases hstep
        have hlt : i < s.fan.loops.length := by
          by_contra hge
          rw [List.getElem?_eq_none (by omega)] at hready
          cases hready.2
        have hcard := card_unended_return hlt (by simpa [oneReturn] using hone)
        simp only [work, LifecycleEvent.cost] at hcard ⊢
        omega
      · cases hstep
  | leave =>
      simp only [step] at hstep
      split at hstep
      · rename_i hready
        cases hstep
        simp only [work, unended, LifecycleEvent.cost, hready.2, RunPhase.work]
        omega
      · cases hstep
  | closeChannel =>
      simp only [step] at hstep
      split at hstep
      · rename_i hready
        cases hstep
        simp only [work, unended, LifecycleEvent.cost, hready.2, RunPhase.work]
        omega
      · cases hstep
  | writerReturn =>
      simp only [step] at hstep
      split at hstep
      · rename_i hready
        cases hstep
        simp only [work, unended, LifecycleEvent.cost, hready.2, RunPhase.work]
        omega
      · cases hstep
  | finish order =>
      simp only [step] at hstep
      split at hstep
      · rename_i hready
        cases order with
        | none =>
            cases hstep
            simp only [work, unended, LifecycleEvent.cost, hready, RunPhase.work]
            omega
        | some order =>
            obtain ⟨fan, hfan, rfl⟩ := Option.map_eq_some_iff.mp hstep
            obtain ⟨hwork, hloops⟩ := FanIn.work_flush hfan
            simp only [work, unended, LifecycleEvent.cost, hwork, hloops, hready, RunPhase.work]
            omega
      · cases hstep

/-! ## No wait lasts -/

def own : LifecycleEvent → Bool
  | .fan (.save _) => true
  | .fan (.enqueue _) => true
  | .fan .dequeue => true
  | .fan (.write _ _) => true
  | .loopReturn _ => true
  | .leave => true
  | .closeChannel => true
  | .writerReturn => true
  | .finish _ => true
  | _ => false

private theorem cost_own {e : LifecycleEvent} (h : own e = true) : e.cost = 0 := by
  cases e with
  | fan e => cases e <;> first | rfl | cases h
  | _ => first | rfl | cases h

theorem onceStep_of_own {e : LifecycleEvent} (hstep : s.step e = some t)
    (hone : s.oneReturn e = true) : s.onceStep e = some t :=
  restrict_eq_some.mpr ⟨hone, hstep⟩

theorem exists_fan_step {e : FanInEvent} (hown : own (.fan e) = true) (hadmits : s.admits e = true)
    (hfan : (s.fan.step e).isSome = true) : ∃ e t, own e = true ∧ s.onceStep e = some t := by
  obtain ⟨fan, hfan⟩ := Option.isSome_iff_exists.mp hfan
  refine ⟨.fan e, { s with fan := fan }, hown, onceStep_of_own ?_ rfl⟩
  rw [step, if_pos hadmits, hfan]
  rfl

private theorem exists_step_of_unended (hcancelled : s.cancelled = true) {i : Nat}
    (hi : i ∈ s.unended) : ∃ e t, own e = true ∧ s.onceStep e = some t := by
  -- A loop that has not returned can go on: what it holds it saves and sends, and at `Recv`
  -- it learns of the cancellation.
  simp only [unended, Finset.mem_sdiff, Finset.mem_range, List.mem_toFinset] at hi
  obtain ⟨hlt, hended⟩ := hi
  have hl := List.getElem?_eq_getElem hlt
  cases hphase : s.fan.loops[i].phase with
  | receiving =>
      refine ⟨.loopReturn i, { s with ended := i :: s.ended }, rfl, onceStep_of_own ?_ ?_⟩
      · simp [step, ctxDone, hcancelled, hl, hphase]
      · simpa [oneReturn] using hended
  | received env =>
      have hsave : (s.fan.step (.save i)).isSome = true := by simp [FanIn.step, hl, hphase]
      exact exists_fan_step rfl rfl hsave
  | saved env =>
      have hsend : (s.fan.step (.enqueue i)).isSome = true := by simp [FanIn.step, hl, hphase]
      exact exists_fan_step rfl rfl hsend

private theorem exists_step_of_closed (hphase : s.phase = .closed) :
    ∃ e t, own e = true ∧ s.onceStep e = some t := by
  cases hwriting : s.fan.writing with
  | some d =>
      have hwrite : (s.fan.step (.write ⟨none, none, none⟩ 0)).isSome = true := by
        simp [FanIn.step, hwriting]
      exact exists_fan_step rfl rfl hwrite
  | none =>
      cases hch : s.fan.ch with
      | cons d rest =>
          have hdequeue : (s.fan.step .dequeue).isSome = true := by
            simp [FanIn.step, hwriting, hch]
          exact exists_fan_step rfl rfl hdequeue
      | nil =>
          refine ⟨.writerReturn, { s with phase := .drained }, rfl, onceStep_of_own ?_ rfl⟩
          simp [step, hwriting, hch, hphase]

private theorem exists_own_step (hcancelled : s.cancelled = true)
    (hreturned : s.phase ≠ .returned) :
    ∃ e t, own e = true ∧ s.onceStep e = some t := by
  cases hphase : s.phase with
  | running =>
      refine ⟨.leave, { s with phase := .joining }, rfl, onceStep_of_own ?_ rfl⟩
      simp [step, hcancelled, hphase]
  | joining =>
      rcases s.unended.eq_empty_or_nonempty with hempty | ⟨i, hi⟩
      · refine ⟨.closeChannel, { s with phase := .closed }, rfl, onceStep_of_own ?_ rfl⟩
        have hall : s.allEnded = true := by
          rw [unended, Finset.sdiff_eq_empty_iff_subset] at hempty
          rw [allEnded, List.all_eq_true]
          intro i hi
          have hmem := hempty (Finset.mem_range.mpr (List.mem_range.mp hi))
          simpa using hmem
        simp [step, hall, hphase]
      · exact exists_step_of_unended hcancelled hi
  | closed => exact exists_step_of_closed hphase
  | drained =>
      refine ⟨.finish none, { s with phase := .returned }, rfl, onceStep_of_own ?_ rfl⟩
      simp [step, hphase]
  | returned => exact absurd hphase hreturned

theorem cancelled_of_step {e : LifecycleEvent} (hstep : s.onceStep e = some t)
    (hcancelled : s.cancelled = true) : t.cancelled = true := by
  obtain ⟨-, hstep⟩ := restrict_eq_some.mp hstep
  cases e with
  | fan e =>
      simp only [step] at hstep
      split at hstep
      · obtain ⟨fan, -, rfl⟩ := Option.map_eq_some_iff.mp hstep
        exact hcancelled
      · cases hstep
  | cancel =>
      cases hstep
      rfl
  | finish order =>
      simp only [step] at hstep
      split at hstep
      · cases order with
        | none =>
            cases hstep
            exact hcancelled
        | some order =>
            obtain ⟨fan, -, rfl⟩ := Option.map_eq_some_iff.mp hstep
            exact hcancelled
      · cases hstep
  | _ =>
      simp only [step] at hstep
      split at hstep
      · cases hstep
        exact hcancelled
      · cases hstep

def ownStep : Lifecycle → LifecycleEvent → Option Lifecycle := restrict (fun _ => own) onceStep

theorem exists_ownStep (hcancelled : s.cancelled = true) (hreturned : s.phase ≠ .returned) :
    ∃ e t, s.ownStep e = some t ∧ t.cancelled = true ∧ t.work < s.work := by
  obtain ⟨e, t, hown, hstep⟩ := exists_own_step hcancelled hreturned
  have hwork := work_step hstep
  rw [cost_own hown] at hwork
  exact ⟨e, t, restrict_eq_some.mpr ⟨hown, hstep⟩, cancelled_of_step hstep hcancelled, hwork⟩

/-- Once the context is cancelled, `Run` is never stuck and returns within the work that is
left, to which only what comes in from outside can add. -/
theorem run_returns (hcancelled : s.cancelled = true) :
    (∃ more t, run ownStep s more = some t ∧ t.phase = .returned ∧ more.length ≤ s.work) ∧
    ∀ more t, run onceStep s more = some t →
      more.length + t.work ≤ s.work + (more.map LifecycleEvent.cost).sum ∧
        (t.phase = .returned ∨ ∃ e next, t.ownStep e = some next) := by
  constructor
  · obtain ⟨more, t, hmore, -, hreturned, hlength⟩ := exists_run_of_progress
      (fun s => s.cancelled = true) (fun s => s.phase = .returned) work
      (fun s hs hnot => exists_ownStep hs hnot) hcancelled
    exact ⟨more, t, hmore, hreturned, hlength⟩
  · intro more t hmore
    have hbound := run_measure_le (fun _ => True) work LifecycleEvent.cost
      (fun _ _ _ _ _ => trivial) (fun _ _ _ _ hstep => work_step hstep) trivial hmore
    have ht := run_invariant (fun s : Lifecycle => s.cancelled = true)
      (fun _ _ _ hs hstep => cancelled_of_step hstep hs) hcancelled hmore
    refine ⟨hbound, ?_⟩
    by_cases hreturned : t.phase = .returned
    · exact .inl hreturned
    · obtain ⟨e, next, hstep, -, -⟩ := exists_ownStep ht hreturned
      exact .inr ⟨e, next, hstep⟩

theorem run_returns_inFlight : ∃ s,
    run step (new 1 60 none) [.fan (.start "agent-a" "intent"), .fan (.recv 0 (FanIn.numbered 1)),
      .fan (.save 0), .fan (.enqueue 0), .fan (.recv 0 (FanIn.numbered 2)), .cancel] = some s ∧
      s.work = 11 ∧
      ∃ more t, run ownStep s more = some t ∧ t.phase = .returned ∧ more.length ≤ 11 := by
  have hvalues : (run step (new 1 60 none) [.fan (.start "agent-a" "intent"),
      .fan (.recv 0 (FanIn.numbered 1)), .fan (.save 0), .fan (.enqueue 0),
      .fan (.recv 0 (FanIn.numbered 2)), .cancel]).map (fun s => (s.work, s.cancelled)) =
        some (11, true) := by
    decide +kernel
  obtain ⟨s, hs, heq⟩ := Option.map_eq_some_iff.mp hvalues
  simp only [Prod.mk.injEq] at heq
  obtain ⟨more, t, hmore, hreturned, hlength⟩ := (run_returns heq.2).1
  exact ⟨s, hs, heq.1, more, t, hmore, hreturned, heq.1 ▸ hlength⟩

end Lifecycle

end KloudlensAggregator.Aggregator
