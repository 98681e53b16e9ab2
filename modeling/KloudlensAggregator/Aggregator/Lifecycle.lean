import KloudlensAggregator.Aggregator.Emit
import KloudlensAggregator.Aggregator.Merge

/-!
# The shutdown of Run

`Run` waits for its context, joins the goroutines of the agents, closes the merge
channel, waits until the writer has drained it and flushes the cursors.  A run of
this system is a run of the fan-in with the steps of `Run` in between.
-/

namespace KloudlensAggregator.Aggregator

open KloudlensAggregator.Foundation
open KloudlensAggregator.Envwal
open KloudlensAggregator.ClusterPeers

inductive RunPhase where
  /-- Up to the end of `reconcileLoop`, or of the wait for the context. -/
  | running
  | joining
  | closed
  | drained
  | returned
  deriving DecidableEq, Repr

/-- `departed` are the goroutines whose endpoint left the fleet, `ended` those that
have returned. -/
structure Lifecycle where
  fan : FanIn
  cancelled : Bool
  departed : List Nat
  ended : List Nat
  phase : RunPhase

inductive LifecycleEvent where
  | fan (e : FanInEvent)
  | cancel
  | depart (i : Nat)
  | loopReturn (i : Nat)
  | leave
  | closeChannel
  | writerReturn
  /-- The last `Flush`, whose error is ignored. -/
  | finish (order : Option (List (Sigma fun _ : String => PersistedCursor)))

def LifecycleEvent.fanEvents : LifecycleEvent → List FanInEvent
  | .fan e => [e]
  | .finish (some order) => [.flush order]
  | _ => []

namespace Lifecycle

def new (queueDepth : Nat) (ttl : Int) (file : CursorFile) : Lifecycle :=
  { fan := FanIn.new queueDepth ttl file
    cancelled := false
    departed := []
    ended := []
    phase := .running }

def ctxDone (s : Lifecycle) (i : Nat) : Bool := s.cancelled || s.departed.contains i

def allEnded (s : Lifecycle) : Bool :=
  (List.range s.fan.loops.length).all fun i => s.ended.contains i

def admits (s : Lifecycle) : FanInEvent → Bool
  | .start _ _ => s.phase = .running
  | .recv i _ => !s.ended.contains i
  | _ => true

def step (s : Lifecycle) : LifecycleEvent → Option Lifecycle
  | .fan e =>
      if s.admits e then (s.fan.step e).map fun fan => { s with fan := fan } else none
  | .cancel => some { s with cancelled := true }
  | .depart i =>
      if s.phase = .running ∧ i < s.fan.loops.length then
        some { s with departed := i :: s.departed }
      else none
  | .loopReturn i =>
      -- `streamLoop` looks at its context once `Recv` has failed.
      if s.ctxDone i ∧ s.fan.loops[i]?.map StreamLoop.phase = some .receiving then
        some { s with ended := i :: s.ended }
      else none
  | .leave =>
      if s.cancelled ∧ s.phase = .running then some { s with phase := .joining } else none
  | .closeChannel =>
      if s.allEnded ∧ s.phase = .joining then some { s with phase := .closed } else none
  | .writerReturn =>
      if (s.fan.ch = [] ∧ s.fan.writing = none) ∧ s.phase = .closed then
        some { s with phase := .drained }
      else none
  | .finish order =>
      if s.phase = .drained then
        match order with
        | none => some { s with phase := .returned }
        | some order =>
            (s.fan.step (.flush order)).map fun fan => { s with fan := fan, phase := .returned }
      else none

variable {s t : Lifecycle}

private theorem fan_of_step {e : LifecycleEvent} (h : s.step e = some t) :
    run FanIn.step s.fan e.fanEvents = some t.fan := by
  cases e with
  | fan e =>
      simp only [step] at h
      split at h
      · obtain ⟨fan, hfan, rfl⟩ := Option.map_eq_some_iff.mp h
        exact (run_singleton _ _ _).trans hfan
      · cases h
  | finish order =>
      simp only [step] at h
      split at h
      · cases order with
        | none =>
            cases h
            rfl
        | some order =>
            obtain ⟨fan, hfan, rfl⟩ := Option.map_eq_some_iff.mp h
            exact (run_singleton _ _ _).trans hfan
      · cases h
  | cancel =>
      cases h
      rfl
  | _ =>
      simp only [step] at h
      split at h
      · cases h
        rfl
      · cases h

private theorem fan_run {queueDepth : Nat} {ttl : Int} {file : CursorFile}
    {events : List LifecycleEvent}
    (hrun : run step (new queueDepth ttl file) events = some s) :
    run FanIn.step (FanIn.new queueDepth ttl file) (events.flatMap LifecycleEvent.fanEvents) =
      some s.fan :=
  run_simulation Lifecycle.fan LifecycleEvent.fanEvents (fun _ _ _ h => fan_of_step h) hrun

/-! ## Nothing is left behind -/

/-- A goroutine that has returned holds nothing; the channel is closed when all have
returned, and the writer returns when it is empty. -/
structure Orderly (s : Lifecycle) : Prop where
  ended : ∀ i ∈ s.ended, s.fan.loops[i]?.map StreamLoop.phase = some .receiving
  closed : s.phase ≠ .running → s.phase ≠ .joining → s.allEnded = true
  drained : s.phase = .drained ∨ s.phase = .returned → s.fan.ch = [] ∧ s.fan.writing = none

theorem Orderly.inHands_eq_nil (h : s.Orderly) (hall : s.allEnded = true) :
    s.fan.inHands = [] := by
  apply List.filterMap_eq_nil_iff.mpr
  intro l hl
  obtain ⟨i, hi⟩ := List.getElem?_of_mem hl
  obtain ⟨hlt, -⟩ := List.getElem?_eq_some_iff.mp hi
  simp only [allEnded, List.all_eq_true, List.mem_range, List.contains_iff_mem] at hall
  have hphase := h.ended i (hall i hlt)
  rw [hi] at hphase
  cases hphase : l.phase <;> simp_all [StreamLoop.held]

theorem Orderly.not_ended (h : s.Orderly) {i : Nat} {l : StreamLoop}
    (hl : s.fan.loops[i]? = some l) (hphase : l.phase ≠ .receiving) : i ∉ s.ended := by
  intro hi
  have hidle := h.ended i hi
  rw [hl, Option.map_some, Option.some.injEq] at hidle
  exact hphase hidle

theorem Orderly.not_closed (h : s.Orderly) {i : Nat} {l : StreamLoop}
    (hl : s.fan.loops[i]? = some l) (hi : i ∉ s.ended) :
    s.phase = .running ∨ s.phase = .joining := by
  by_contra hopen
  rw [not_or] at hopen
  have hall := h.closed hopen.1 hopen.2
  simp only [allEnded, List.all_eq_true, List.mem_range, List.contains_iff_mem] at hall
  obtain ⟨hlt, -⟩ := List.getElem?_eq_some_iff.mp hl
  exact hi (hall i hlt)

theorem Orderly.move (h : s.Orderly) {fan : FanIn} {i : Nat} {l m : StreamLoop}
    (hl : s.fan.loops[i]? = some l) (hi : i ∉ s.ended)
    (hloops : fan.loops = s.fan.loops.set i m) : Orderly { s with fan := fan } := by
  have hopen := h.not_closed hl hi
  refine ⟨?_, ?_, ?_⟩
  · intro j hj
    have hij : i ≠ j := fun heq => hi (heq ▸ hj)
    simp only [hloops, List.getElem?_set_ne hij]
    exact h.ended j hj
  · intro hrunning hjoining
    exact absurd hopen (not_or.mpr ⟨hrunning, hjoining⟩)
  · intro hdrained
    rcases hopen with hphase | hphase <;> simp [hphase] at hdrained

theorem Orderly.fan_step (h : s.Orderly) {e : FanInEvent} {fan : FanIn}
    (hadmits : s.admits e = true) (hstep : s.fan.step e = some fan) :
    Orderly { s with fan := fan } := by
  cases e with
  | start agent stream =>
      simp only [admits, decide_eq_true_eq] at hadmits
      cases hstep
      refine ⟨?_, fun hrunning => absurd hadmits hrunning, ?_⟩
      · intro i hi
        have hidle := h.ended i hi
        obtain ⟨l, hl, -⟩ := Option.map_eq_some_iff.mp hidle
        obtain ⟨hlt, -⟩ := List.getElem?_eq_some_iff.mp hl
        simpa only [List.getElem?_append_left hlt] using hidle
      · intro hdrained
        simp [hadmits] at hdrained
  | recv i env =>
      obtain ⟨l, hl, -, rfl⟩ := FanIn.recv_of_step hstep
      simp only [admits, Bool.not_eq_true', List.contains_eq_mem, decide_eq_false_iff_not]
        at hadmits
      exact h.move hl hadmits rfl
  | save i =>
      obtain ⟨l, env, hl, hphase, rfl⟩ := FanIn.save_of_step hstep
      exact h.move hl (h.not_ended hl (by simp [hphase])) rfl
  | enqueue i =>
      obtain ⟨l, env, hl, hphase, rfl⟩ := FanIn.enqueue_of_step hstep
      have hi := h.not_ended hl (by simp [hphase])
      unfold FanIn.offer
      split <;> exact h.move hl hi rfl
  | dequeue =>
      obtain ⟨d, rest, -, hch, rfl⟩ := FanIn.dequeue_of_step hstep
      refine ⟨h.ended, h.closed, ?_⟩
      intro hdrained
      have hempty := (h.drained hdrained).1
      rw [hch] at hempty
      cases hempty
  | write resolvers now =>
      obtain ⟨d, hwriting, rfl⟩ := Option.map_eq_some_iff.mp hstep
      exact ⟨h.ended, h.closed, fun hdrained => ⟨(h.drained hdrained).1, rfl⟩⟩
  | flush order =>
      rcases FanIn.flush_of_step hstep with ⟨-, rfl⟩ | ⟨-, -, rfl⟩ <;>
        exact ⟨h.ended, h.closed, h.drained⟩

theorem Orderly.step {e : LifecycleEvent} (h : s.Orderly) (hstep : s.step e = some t) :
    t.Orderly := by
  cases e with
  | cancel =>
      cases hstep
      exact ⟨h.ended, h.closed, h.drained⟩
  | fan e =>
      simp only [Lifecycle.step] at hstep
      split at hstep
      · rename_i hadmits
        obtain ⟨fan, hfan, rfl⟩ := Option.map_eq_some_iff.mp hstep
        exact h.fan_step hadmits hfan
      · cases hstep
  | depart i =>
      simp only [Lifecycle.step] at hstep
      split at hstep <;> cases hstep
      exact ⟨h.ended, h.closed, h.drained⟩
  | loopReturn i =>
      simp only [Lifecycle.step] at hstep
      split at hstep <;> cases hstep
      rename_i hreturn
      refine ⟨?_, ?_, h.drained⟩
      · intro j hj
        rcases List.mem_cons.mp hj with rfl | hold
        · exact hreturn.2
        · exact h.ended j hold
      · intro hrunning hjoining
        have hall := h.closed hrunning hjoining
        simp only [allEnded, List.all_eq_true, List.mem_range, List.contains_iff_mem] at hall ⊢
        exact fun j hj => List.mem_cons_of_mem _ (hall j hj)
  | leave =>
      simp only [Lifecycle.step] at hstep
      split at hstep <;> cases hstep
      exact ⟨h.ended, fun _ hjoining => absurd rfl hjoining, by simp⟩
  | closeChannel =>
      simp only [Lifecycle.step] at hstep
      split at hstep <;> cases hstep
      rename_i hclose
      exact ⟨h.ended, fun _ _ => hclose.1, by simp⟩
  | writerReturn =>
      simp only [Lifecycle.step] at hstep
      split at hstep <;> cases hstep
      rename_i hreturn
      exact ⟨h.ended, fun _ _ => h.closed (by simp [hreturn.2]) (by simp [hreturn.2]),
        fun _ => hreturn.1⟩
  | finish order =>
      simp only [Lifecycle.step] at hstep
      split at hstep
      · rename_i hphase
        have hall : s.allEnded = true := h.closed (by simp [hphase]) (by simp [hphase])
        have hempty := h.drained (Or.inl hphase)
        cases order with
        | none =>
            cases hstep
            exact ⟨h.ended, fun _ _ => hall, fun _ => hempty⟩
        | some order =>
            obtain ⟨fan, hfan, rfl⟩ := Option.map_eq_some_iff.mp hstep
            rcases FanIn.flush_of_step hfan with ⟨-, rfl⟩ | ⟨-, -, rfl⟩ <;>
              exact ⟨h.ended, fun _ _ => hall, fun _ => hempty⟩
      · cases hstep

theorem orderly_run {queueDepth : Nat} {ttl : Int} {file : CursorFile}
    {events : List LifecycleEvent}
    (hrun : run step (new queueDepth ttl file) events = some s) : s.Orderly := by
  refine run_invariant Orderly (fun s e t h hstep => h.step hstep) ?_ hrun
  exact ⟨fun i hi => absurd hi List.not_mem_nil, fun hrunning => absurd rfl hrunning,
    by simp [new]⟩

theorem Orderly.returned (h : s.Orderly) (hphase : s.phase = .returned) :
    s.fan.inHands = [] ∧ s.fan.ch = [] ∧ s.fan.writing = none := by
  have hall : s.allEnded = true := h.closed (by simp [hphase]) (by simp [hphase])
  exact ⟨h.inHands_eq_nil hall, h.drained (Or.inr hphase)⟩

/-! ## The fan-in from the start to the end of Run -/

def Emits (s : Lifecycle) (calls : List (EmitCall EventEnvelope)) : Prop :=
  calls.map (fun call => (call.agent, call.envelope)) =
    s.fan.emitted.map fun pair => (pair.1, some pair.2)

theorem Emits.length_eq {calls : List (EmitCall EventEnvelope)} (h : s.Emits calls) :
    calls.length = s.fan.emitted.length := by
  simpa using congrArg List.length h

theorem run_accounts_for_received (queueDepth : Nat) (ttl : Int) (file : CursorFile)
    (events : List LifecycleEvent) (s : Lifecycle)
    (hrun : run step (new queueDepth ttl file) events = some s) :
    s.fan.Conserved ∧
    (s.fan.inHands = [] → s.fan.writing = none →
      s.fan.received.Perm
          (s.fan.dropped ++ s.fan.ch ++ s.fan.consumed ++ s.fan.upstream) ∧
        s.fan.received.length = s.fan.dropped.length + s.fan.ch.length +
          s.fan.consumed.length + s.fan.upstream.length) ∧
    (s.phase = .returned → s.fan.inHands = [] ∧ s.fan.ch = [] ∧ s.fan.writing = none) ∧
    (∃ tagged, FanIn.InOrder (events.flatMap LifecycleEvent.fanEvents) s.fan tagged) ∧
    (∀ steps : List FanIn.MergeStep,
      events.flatMap LifecycleEvent.fanEvents = steps.flatMap FanIn.MergeStep.events →
      s.fan.inHands = [] ∧ s.fan.writing = none ∧
        ∀ agent stream, (FanIn.ofPair agent stream s.fan.upstream).Sublist
          (FanIn.ofPair agent stream s.fan.received)) ∧
    ∃ turns, s.fan.Wrote turns ∧
      ∀ (pj : ProtoJson EventEnvelope) (world : World EventEnvelope) calls, s.Emits calls →
        (∀ out ∈ (Writer.new world).emitAll pj calls, out.failed = false) →
        ∃ seqs, ((Writer.new world).emitAll pj calls).map Emission.seq = seqs ∧
          seqs = List.range' (Writer.new world).nextSeq s.fan.emitted.length ∧
          ∀ before turn after edge, turns = before ++ turn :: after → turn.edge = some edge →
            s.fan.EdgeAt seqs turn edge (before.flatMap Turn.calls).length := by
  have hfan := fan_run hrun
  have hconserved := FanIn.conserved_run hfan
  obtain ⟨turns, hwrote⟩ := FanIn.wrote_run hfan
  refine ⟨hconserved, hconserved.accounts, (orderly_run hrun).returned, FanIn.inOrder_run hfan,
    ?_, turns, hwrote, ?_⟩
  · intro steps hsteps
    rw [hsteps] at hfan
    have hsettled := FanIn.settled_run hfan
    exact ⟨hsettled.inHands_eq_nil, hsettled.writing, hsettled.pair_order⟩
  · intro pj world calls hemits hok
    have hseqs := (Writer.new world).emitAll_consecutive pj calls hok
    rw [hemits.length_eq] at hseqs
    refine ⟨_, hseqs, rfl, ?_⟩
    rintro before turn after edge rfl hedge
    exact hwrote.edgeAt hedge _

def intentOf (kind : String) (attributes : List (String × String)) : EventEnvelope :=
  ⟨none, .intent ⟨kind, attributes, none, 0, []⟩⟩

def joinedThenStopped : List LifecycleEvent :=
  [.fan (.start "agent-a" "intent"), .fan (.start "agent-b" "intent"),
    .fan (.recv 0 (intentOf kindListenerAdvertise [("addr", "10.0.0.5:80")])), .fan (.save 0),
    .fan (.enqueue 0), .fan .dequeue, .fan (.write ⟨none, none, none⟩ 0),
    .fan (.recv 1 (intentOf kindNetworkExchange [(attrPeer, "10.0.0.5:80")])), .fan (.save 1),
    .fan (.enqueue 1), .fan (.recv 0 (intentOf "ProcessStart" [])), .fan (.save 0),
    .fan (.enqueue 0), .cancel, .leave, .loopReturn 0, .loopReturn 1, .closeChannel,
    .fan .dequeue, .fan (.write ⟨none, none, none⟩ 0), .writerReturn, .finish none]

theorem run_accounts_for_joinedThenStopped :
    ∃ s, run step (new 1 60 none) joinedThenStopped = some s ∧ s.phase = .returned ∧
      s.fan.received.length = 3 ∧ s.fan.dropped.length = 1 ∧ s.fan.consumed.length = 1 ∧
      s.fan.emitted.length = 2 ∧ s.fan.peers.xnodeJoins = 1 ∧ s.fan.ch = [] := by
  have hvalues : (run step (new 1 60 none) joinedThenStopped).map (fun s =>
      (s.phase, s.fan.received.length, s.fan.dropped.length, s.fan.consumed.length,
        s.fan.emitted.length, s.fan.peers.xnodeJoins)) = some (.returned, 3, 1, 1, 2, 1) := by
    decide +kernel
  obtain ⟨s, hrun, hvalues⟩ := Option.map_eq_some_iff.mp hvalues
  simp only [Prod.mk.injEq] at hvalues
  obtain ⟨hphase, hreceived, hdropped, hconsumed, hemitted, hjoins⟩ := hvalues
  have haccounts := run_accounts_for_received 1 60 none joinedThenStopped s hrun
  exact ⟨s, hrun, hphase, hreceived, hdropped, hconsumed, hemitted, hjoins,
    (haccounts.2.2.1 hphase).2.1⟩

end Lifecycle

end KloudlensAggregator.Aggregator
