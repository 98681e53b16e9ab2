import KloudlensAggregator.Aggregator.Discovered
import KloudlensAggregator.Discovery.Mirror
import KloudlensAggregator.Foundation.Progress

/-!
# From the API server to the fleet

The emissions of the watcher go through a channel to a goroutine of
`startK8sDiscovery`, which hands them on through a second channel to
`reconcileLoop`.  Both channels hold four.  A cancellation may strike anywhere.
-/

namespace KloudlensAggregator.Aggregator

open KloudlensAggregator.Foundation
open KloudlensAggregator.Discovery
open KloudlensAggregator.Discovery.EndpointSlice

/-! ## The model -/

inductive BridgePhase where
  | receiving
  | sending (conv : List AgentEndpoint)
  /-- It has closed the second channel. -/
  | returned
  deriving DecidableEq

inductive ReconcilePhase where
  | selecting
  /-- The channel is closed, and the loop waits for the cancellation. -/
  | waiting
  | returned
  deriving DecidableEq

structure Pipeline where
  cancelled : Bool
  src : List (List Endpoint)
  srcClosed : Bool
  bridge : BridgePhase
  out : List (List AgentEndpoint)
  loop : ReconcilePhase
  fleet : Fleet
  emitted : List (List Endpoint)
  reconciled : List (List AgentEndpoint)

inductive PipelineEvent where
  /-- `emit` sends; where it picks the cancellation instead, nothing happens. -/
  | emit (eps : List Endpoint)
  | closeSource
  | convert
  | forward
  /-- The bridge picks the cancellation. -/
  | abandon
  | bridgeEnd
  | reconcile (activeOrder : List (Sigma fun _ : String => Nat))
      (wantOrder : List (Sigma fun _ : String => AgentEndpoint))
  | outClosed
  | loopReturn
  | cancel

def channelCapacity : Nat := 4

namespace Pipeline

def start (agents : List AgentEndpoint) : Pipeline :=
  ⟨false, [], false, .receiving, [], .selecting, Fleet.seed agents, [], []⟩

def step (p : Pipeline) : PipelineEvent → Option Pipeline
  | .emit eps =>
      if p.srcClosed = false ∧ p.src.length < channelCapacity then
        some { p with src := p.src ++ [eps], emitted := p.emitted ++ [eps] }
      else none
  | .closeSource => if p.cancelled then some { p with srcClosed := true } else none
  | .convert =>
      match p.bridge, p.src with
      | .receiving, eps :: rest =>
          some { p with src := rest, bridge := .sending (agentEndpoints eps) }
      | _, _ => none
  | .forward =>
      match p.bridge with
      | .sending conv =>
          if p.out.length < channelCapacity then
            some { p with bridge := .receiving, out := p.out ++ [conv] }
          else none
      | _ => none
  | .abandon =>
      match p.bridge with
      | .sending _ => if p.cancelled then some { p with bridge := .returned } else none
      | _ => none
  | .bridgeEnd =>
      match p.bridge, p.src with
      | .receiving, [] => if p.srcClosed then some { p with bridge := .returned } else none
      | _, _ => none
  | .reconcile activeOrder wantOrder =>
      match p.loop, p.out with
      | .selecting, eps :: rest =>
          (p.fleet.reconcileFleet ⟨eps, activeOrder, wantOrder⟩).map fun fleet =>
            { p with out := rest, fleet := fleet, reconciled := p.reconciled ++ [eps] }
      | _, _ => none
  | .outClosed =>
      match p.loop, p.out, p.bridge with
      | .selecting, [], .returned => some { p with loop := .waiting }
      | _, _, _ => none
  | .loopReturn =>
      if p.cancelled ∧ p.loop ≠ .returned then some { p with loop := .returned } else none
  | .cancel => some { p with cancelled := true }

/-! ## Order -/

def held (p : Pipeline) : List (List AgentEndpoint) :=
  match p.bridge with
  | .sending conv => [conv]
  | _ => []

def Drained (p : Pipeline) : Prop := p.src = [] ∧ p.bridge = .receiving ∧ p.out = []

instance : DecidablePred Drained := fun p =>
  inferInstanceAs (Decidable (p.src = [] ∧ p.bridge = .receiving ∧ p.out = []))

/-- The emissions come through in their order, and none is lost before the cancellation. -/
structure Ordered (agents : List AgentEndpoint) (p : Pipeline) : Prop where
  queued : p.bridge ≠ .returned →
    p.reconciled ++ p.out ++ p.held ++ p.src.map agentEndpoints = p.emitted.map agentEndpoints
  initial : p.reconciled ++ p.out <+: p.emitted.map agentEndpoints
  live : p.cancelled = false →
    p.srcClosed = false ∧ p.bridge ≠ .returned ∧ p.loop = .selecting
  fleet : ∃ emissions, run Fleet.reconcileFleet (Fleet.seed agents) emissions = some p.fleet ∧
    emissions.map FleetEmission.eps = p.reconciled

namespace Ordered

variable {agents : List AgentEndpoint} {p q : Pipeline}

theorem start (agents : List AgentEndpoint) : (start agents).Ordered agents :=
  ⟨fun _ => rfl, List.prefix_refl _, fun _ => ⟨rfl, by simp [Pipeline.start], rfl⟩,
    [], rfl, rfl⟩

theorem step (h : p.Ordered agents) {event : PipelineEvent} (hstep : p.step event = some q) :
    q.Ordered agents := by
  cases event with
  | emit eps =>
      simp only [Pipeline.step] at hstep
      split at hstep
      · cases hstep
        refine ⟨fun hbridge => ?_, ?_, h.live, h.fleet⟩
        · have hqueued := h.queued hbridge
          change p.reconciled ++ p.out ++ p.held ++ (p.src ++ [eps]).map agentEndpoints =
            (p.emitted ++ [eps]).map agentEndpoints
          rw [List.map_append, List.map_append, ← hqueued]
          simp
        · rw [List.map_append]
          exact h.initial.trans (List.prefix_append _ _)
      · cases hstep
  | closeSource =>
      simp only [Pipeline.step] at hstep
      split at hstep
      · rename_i hcancelled
        cases hstep
        exact ⟨h.queued, h.initial, by simp [hcancelled], h.fleet⟩
      · cases hstep
  | convert =>
      simp only [Pipeline.step] at hstep
      split at hstep
      · rename_i eps rest hbridge hsrc
        cases hstep
        refine ⟨fun _ => ?_, h.initial, ?_, h.fleet⟩
        · have hqueued := h.queued (by simp [hbridge])
          simp only [held, hbridge, hsrc, List.append_nil, List.map_cons] at hqueued
          rw [← hqueued]
          simp [held]
        · intro hlive
          exact ⟨(h.live hlive).1, by simp, (h.live hlive).2.2⟩
      · cases hstep
  | forward =>
      simp only [Pipeline.step] at hstep
      split at hstep
      · rename_i conv hbridge
        split at hstep
        · cases hstep
          have hqueued := h.queued (by simp [hbridge])
          simp only [held, hbridge] at hqueued
          refine ⟨fun _ => ?_, ?_, ?_, h.fleet⟩
          · rw [← hqueued]
            simp [held]
          · rw [← hqueued]
            exact ⟨p.src.map agentEndpoints, by simp⟩
          · intro hlive
            exact ⟨(h.live hlive).1, by simp, (h.live hlive).2.2⟩
        · cases hstep
      · cases hstep
  | abandon =>
      simp only [Pipeline.step] at hstep
      split at hstep
      · split at hstep
        · rename_i hcancelled
          cases hstep
          exact ⟨by simp, h.initial, by simp [hcancelled], h.fleet⟩
        · cases hstep
      · cases hstep
  | bridgeEnd =>
      simp only [Pipeline.step] at hstep
      split at hstep
      · split at hstep
        · rename_i hclosed
          cases hstep
          refine ⟨by simp, h.initial, ?_, h.fleet⟩
          intro hlive
          simp [(h.live hlive).1] at hclosed
        · cases hstep
      · cases hstep
  | reconcile activeOrder wantOrder =>
      simp only [Pipeline.step] at hstep
      split at hstep
      · rename_i eps rest hloop hout
        obtain ⟨fleet, hfleet, rfl⟩ := Option.map_eq_some_iff.mp hstep
        obtain ⟨emissions, hrun, heps⟩ := h.fleet
        refine ⟨fun hbridge => ?_, ?_, h.live, emissions ++ [⟨eps, activeOrder, wantOrder⟩], ?_, ?_⟩
        · have hqueued := h.queued hbridge
          rw [hout] at hqueued
          rw [← hqueued]
          simp [held]
        · have hinitial := h.initial
          rw [hout] at hinitial
          simpa using hinitial
        · rw [run_append_eq_some]
          exact ⟨p.fleet, hrun, by rw [run_singleton, hfleet]⟩
        · simp [heps]
      · cases hstep
  | outClosed =>
      simp only [Pipeline.step] at hstep
      split at hstep
      · rename_i hloop hout hbridge
        cases hstep
        refine ⟨h.queued, h.initial, ?_, h.fleet⟩
        intro hlive
        exact absurd hbridge (h.live hlive).2.1
      · cases hstep
  | loopReturn =>
      simp only [Pipeline.step] at hstep
      split at hstep
      · rename_i hcancelled
        cases hstep
        exact ⟨h.queued, h.initial, by simp [hcancelled.1], h.fleet⟩
      · cases hstep
  | cancel =>
      cases hstep
      exact ⟨h.queued, h.initial, by simp, h.fleet⟩

theorem run {events : List PipelineEvent}
    (hrun : Foundation.run Pipeline.step (Pipeline.start agents) events = some p) :
    p.Ordered agents :=
  run_invariant (Ordered agents) (fun _ _ _ h hstep => h.step hstep) (.start agents) hrun

theorem reconciled_eq (h : p.Ordered agents) (hlive : p.cancelled = false) (hdrained : p.Drained) :
    p.reconciled = p.emitted.map agentEndpoints := by
  obtain ⟨hsrc, hbridge, hout⟩ := hdrained
  have hqueued := h.queued (h.live hlive).2.1
  simpa [held, hsrc, hbridge, hout] using hqueued

end Ordered

/-! ## Draining -/

def moves : PipelineEvent → Bool
  | .convert => true
  | .forward => true
  | .reconcile _ _ => true
  | _ => false

def innerStep : Pipeline → PipelineEvent → Option Pipeline := restrict (fun _ => moves) step

def work (p : Pipeline) : Nat := 3 * p.src.length + 2 * p.held.length + p.out.length

theorem work_innerStep {p q : Pipeline} {event : PipelineEvent}
    (hstep : p.innerStep event = some q) :
    q.work + 1 = p.work ∧ q.cancelled = p.cancelled ∧ q.emitted = p.emitted := by
  obtain ⟨hmoves, hstep⟩ := restrict_eq_some.mp hstep
  cases event with
  | convert =>
      simp only [step] at hstep
      split at hstep
      · rename_i eps rest hbridge hsrc
        cases hstep
        refine ⟨?_, rfl, rfl⟩
        simp only [work, held, hbridge, hsrc, List.length_cons, List.length_nil]
        omega
      · cases hstep
  | forward =>
      simp only [step] at hstep
      split at hstep
      · rename_i conv hbridge
        split at hstep
        · cases hstep
          refine ⟨?_, rfl, rfl⟩
          simp only [work, held, hbridge, List.length_append, List.length_cons, List.length_nil]
          omega
        · cases hstep
      · cases hstep
  | reconcile activeOrder wantOrder =>
      simp only [step] at hstep
      split at hstep
      · rename_i eps rest hloop hout
        obtain ⟨fleet, -, rfl⟩ := Option.map_eq_some_iff.mp hstep
        refine ⟨?_, rfl, rfl⟩
        simp only [work, held, hout, List.length_cons]
        omega
      · cases hstep
  | emit eps => cases hmoves
  | closeSource => cases hmoves
  | abandon => cases hmoves
  | bridgeEnd => cases hmoves
  | outClosed => cases hmoves
  | loopReturn => cases hmoves
  | cancel => cases hmoves

private theorem exists_reconcileFleet (f : Fleet) (eps : List AgentEndpoint) :
    ∃ activeOrder wantOrder g, f.reconcileFleet ⟨eps, activeOrder, wantOrder⟩ = some g :=
  ⟨f.active.entries, (wantOf eps).entries, _, if_pos ⟨.refl _, .refl _⟩⟩

theorem Ordered.exists_innerStep {agents : List AgentEndpoint} {p : Pipeline}
    (h : p.Ordered agents) (hlive : p.cancelled = false) (hdrained : ¬ p.Drained) :
    ∃ event q, p.innerStep event = some q := by
  -- Where something is under way, one of the goroutines can move it: the last channel that
  -- is not empty has a free reader.
  obtain ⟨-, hbridge, hloop⟩ := h.live hlive
  cases hout : p.out with
  | cons eps rest =>
      obtain ⟨activeOrder, wantOrder, g, hg⟩ := exists_reconcileFleet p.fleet eps
      have hstep : p.step (.reconcile activeOrder wantOrder) =
          some { p with out := rest, fleet := g, reconciled := p.reconciled ++ [eps] } := by
        simp only [Pipeline.step, hloop, hout, hg, Option.map_some]
      exact ⟨_, _, restrict_eq_some.mpr ⟨rfl, hstep⟩⟩
  | nil =>
      cases hphase : p.bridge with
      | returned => exact absurd hphase hbridge
      | sending conv =>
          have hstep : p.step .forward = some { p with bridge := .receiving, out := [conv] } := by
            simp only [Pipeline.step, hphase, hout]
            rfl
          exact ⟨_, _, restrict_eq_some.mpr ⟨rfl, hstep⟩⟩
      | receiving =>
          cases hsrc : p.src with
          | nil => exact absurd ⟨hsrc, hphase, hout⟩ hdrained
          | cons eps rest =>
              have hstep : p.step .convert =
                  some { p with src := rest, bridge := .sending (agentEndpoints eps) } := by
                simp only [Pipeline.step, hphase, hsrc]
              exact ⟨_, _, restrict_eq_some.mpr ⟨rfl, hstep⟩⟩

private structure Moving (agents : List AgentEndpoint) (emitted : List (List Endpoint))
    (p : Pipeline) : Prop where
  ordered : p.Ordered agents
  live : p.cancelled = false
  emitted : p.emitted = emitted

private theorem Moving.innerStep {agents : List AgentEndpoint} {emitted : List (List Endpoint)}
    {p q : Pipeline} (h : p.Moving agents emitted) {event : PipelineEvent}
    (hstep : p.innerStep event = some q) : q.Moving agents emitted := by
  obtain ⟨-, hcancelled, hemitted⟩ := work_innerStep hstep
  exact ⟨h.ordered.step (restrict_eq_some.mp hstep).2, hcancelled.trans h.live,
    hemitted.trans h.emitted⟩

/-- What is under way comes to the fleet within as many steps as there is work, whichever
goroutine is scheduled, as long as nothing new is emitted. -/
theorem pipeline_drains {agents : List AgentEndpoint} {events : List PipelineEvent} {p : Pipeline}
    (hrun : run step (start agents) events = some p) (hlive : p.cancelled = false) :
    (∃ moved q, run innerStep p moved = some q ∧ q.Drained ∧ moved.length ≤ p.work) ∧
      (∀ moved q, run innerStep p moved = some q → moved.length ≤ p.work ∧
        (q.Drained ∨ ∃ event next, q.innerStep event = some next)) ∧
      (∀ moved q, run innerStep p moved = some q → q.Drained →
        q.emitted = p.emitted ∧ q.reconciled = q.emitted.map agentEndpoints) := by
  have hmoving : p.Moving agents p.emitted := ⟨Ordered.run hrun, hlive, rfl⟩
  have hkept : ∀ {moved q}, run innerStep p moved = some q → q.Moving agents p.emitted :=
    run_invariant (Moving agents p.emitted) (fun _ _ _ h hstep => h.innerStep hstep) hmoving
  refine ⟨?_, ?_, ?_⟩
  · obtain ⟨moved, q, hmoved, -, hdrained, hlength⟩ := exists_run_of_progress
      (Moving agents p.emitted) Drained work
      (fun s hs hnot => by
        obtain ⟨event, t, hstep⟩ := hs.ordered.exists_innerStep hs.live hnot
        have hwork := (work_innerStep hstep).1
        exact ⟨event, t, hstep, hs.innerStep hstep, by omega⟩)
      hmoving
    exact ⟨moved, q, hmoved, hdrained, hlength⟩
  · intro moved q hmoved
    have hbound := run_measure_le (Moving agents p.emitted) work (fun _ => 0)
      (fun _ _ _ h hstep => h.innerStep hstep)
      (fun s event t _ hstep => by
        have hwork := (work_innerStep hstep).1
        omega)
      hmoving hmoved
    have hq := hkept hmoved
    have hcost : (moved.map fun _ => 0).sum = 0 := by simp
    refine ⟨by omega, ?_⟩
    by_cases hdrained : q.Drained
    · exact .inl hdrained
    · exact .inr (hq.ordered.exists_innerStep hq.live hdrained)
  · intro moved q hmoved hdrained
    have hq := hkept hmoved
    exact ⟨hq.emitted, hq.ordered.reconciled_eq hq.live hdrained⟩

theorem pipeline_drains_twoEmissions :
    ∃ p, run step (start []) [.emit [], .convert, .emit []] = some p ∧ p.work = 5 ∧
      ∃ moved q, run innerStep p moved = some q ∧ q.Drained ∧ moved.length ≤ 5 ∧
        q.reconciled = [[], []] := by
  have hvalues : (run step (start []) [.emit [], .convert, .emit []]).map
      (fun p => (p.work, p.cancelled, p.emitted)) = some (5, false, [[], []]) := by
    decide +kernel
  obtain ⟨p, hp, heq⟩ := Option.map_eq_some_iff.mp hvalues
  simp only [Prod.mk.injEq] at heq
  obtain ⟨hwork, hlive, hemitted⟩ := heq
  obtain ⟨⟨moved, q, hmoved, hdrained, hlength⟩, -, hreconciled⟩ := pipeline_drains hp hlive
  obtain ⟨hsame, hall⟩ := hreconciled moved q hmoved hdrained
  refine ⟨p, hp, hwork, moved, q, hmoved, hdrained, hwork ▸ hlength, ?_⟩
  rw [hall, hsame, hemitted]
  rfl

end Pipeline

/-! ## The fleet of a version -/

/-- There is one run for each agent of the cluster, and none besides. -/
def Fleet.Covers (f : Fleet) (targetPort : Int32) (objects : String → Option SliceObject) :
    Prop :=
  ∀ name, (f.subscribed name).length ≤ 1 ∧
    (f.subscribed name ≠ [] ↔ ∃ key slice addr, objects key = some slice ∧
      addr ∈ agentsOf targetPort slice ∧ name = slice.name ++ "/" ++ addr)

namespace Fleet

variable {f g : Fleet}

theorem Tracked.run {emissions : List FleetEmission} (h : f.Tracked)
    (hrun : Foundation.run Fleet.reconcileFleet f emissions = some g) : g.Tracked :=
  run_invariant Tracked (fun _ _ _ h hstep => (h.reconcileFleet hstep).1) h hrun

theorem Tracked.addrAt_of_last {emissions : List FleetEmission} {last : FleetEmission}
    (h : f.Tracked)
    (hrun : Foundation.run Fleet.reconcileFleet f (emissions ++ [last]) = some g)
    (name : String) : g.addrAt name = none ↔ addrOf last.eps name = none := by
  obtain ⟨before, hbefore, hlast⟩ := run_append_eq_some.mp hrun
  rw [run_singleton] at hlast
  have haddr := ((h.run hbefore).reconcileFleet hlast).2.2.2 name
  rw [haddr]
  split
  · simp [*]
  · simp [*]

end Fleet

theorem Pipeline.Ordered.addrAt {agents : List AgentEndpoint} {p : Pipeline} (h : p.Ordered agents)
    (hnodup : (agents.map AgentEndpoint.name).Nodup) :
    p.fleet.Tracked ∧ (p.reconciled = [] ∧ p.fleet = Fleet.seed agents ∨
      ∃ before last, p.reconciled = before ++ [last] ∧
        ∀ name, p.fleet.addrAt name = none ↔ addrOf last name = none) := by
  obtain ⟨emissions, hrun, heps⟩ := h.fleet
  have hseed := (Fleet.tracked_seed hnodup).1
  refine ⟨hseed.run hrun, ?_⟩
  rcases List.eq_nil_or_concat emissions with rfl | ⟨before, last, rfl⟩
  · rw [run_nil, Option.some_inj] at hrun
    exact .inl ⟨heps.symm, hrun.symm⟩
  · rw [List.concat_eq_append] at hrun heps
    refine .inr ⟨before.map FleetEmission.eps, last.eps, ?_, hseed.addrAt_of_last hrun⟩
    rw [← heps, List.map_append]
    rfl

end KloudlensAggregator.Aggregator
