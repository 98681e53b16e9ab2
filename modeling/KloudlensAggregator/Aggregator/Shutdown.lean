import KloudlensAggregator.Aggregator.FanOut
import KloudlensAggregator.Aggregator.Lifecycle

/-!
# Subscribers and the end of Run

`Run` and the `Subscribe` calls of the re-export server side by side.  The channel of a
subscriber is closed by its own `Subscribe` alone, after it has left the set; `Run`
closes none.  After the end of `Run` a call that is still registered waits for an
envelope that nobody can send.
-/

namespace KloudlensAggregator.Aggregator

open KloudlensAggregator.Foundation

structure Server where
  life : Lifecycle
  out : FanOut

inductive ServerEvent where
  | life (e : LifecycleEvent)
  | out (e : FanOutEvent)

def ServerEvent.lifeEvents : ServerEvent → List LifecycleEvent
  | .life e => [e]
  | .out _ => []

def ServerEvent.outEvents : ServerEvent → List FanOutEvent
  | .life _ => []
  | .out e => [e]

namespace Server

def new (queueDepth : Nat) (ttl : Int) (file : CursorFile) : Server :=
  ⟨Lifecycle.new queueDepth ttl file, FanOut.new⟩

/-- The writer ends its turn when its broadcasts are done, and broadcasts within a turn. -/
def admits (s : Server) : ServerEvent → Bool
  | .life (.fan (.write _ _)) => s.out.broadcasting.isNone
  | .out (.broadcast _ _) => s.life.fan.writing.isSome
  | _ => true

def step (s : Server) (e : ServerEvent) : Option Server :=
  if s.admits e then
    match e with
    | .life e => (s.life.step e).map fun life => { s with life := life }
    | .out e => (s.out.step e).map fun out => { s with out := out }
  else none

/-- After the end of `Run` the channel of every registered subscriber is closed. -/
def StreamsEnded (s : Server) : Prop :=
  s.life.phase = .returned → ∀ sub ∈ s.out.subs, sub.stage = .registered → 0 < sub.closes

variable {s t : Server}

theorem parts_of_step {e : ServerEvent} (h : s.step e = some t) :
    s.admits e = true ∧ run Lifecycle.step s.life e.lifeEvents = some t.life ∧
      run FanOut.step s.out e.outEvents = some t.out := by
  unfold step at h
  split at h
  · rename_i hadmits
    refine ⟨hadmits, ?_⟩
    cases e with
    | life e =>
        obtain ⟨life, hlife, rfl⟩ := Option.map_eq_some_iff.mp h
        exact ⟨(run_singleton _ _ _).trans hlife, rfl⟩
    | out e =>
        obtain ⟨out, hout, rfl⟩ := Option.map_eq_some_iff.mp h
        exact ⟨rfl, (run_singleton _ _ _).trans hout⟩
  · cases h

section Runs

variable {queueDepth : Nat} {ttl : Int} {file : CursorFile} {events : List ServerEvent}

private theorem life_run (hrun : run step (new queueDepth ttl file) events = some s) :
    run Lifecycle.step (Lifecycle.new queueDepth ttl file)
      (events.flatMap ServerEvent.lifeEvents) = some s.life :=
  run_simulation Server.life ServerEvent.lifeEvents (fun _ _ _ h => (parts_of_step h).2.1) hrun

private theorem out_run (hrun : run step (new queueDepth ttl file) events = some s) :
    run FanOut.step FanOut.new (events.flatMap ServerEvent.outEvents) = some s.out :=
  run_simulation Server.out ServerEvent.outEvents (fun _ _ _ h => (parts_of_step h).2.2) hrun

private theorem no_broadcast_after_return
    (hrun : run step (new queueDepth ttl file) events = some s)
    (hphase : s.life.phase = .returned) (ev : LiveEnvelope) (order : List Nat) :
    s.step (.out (.broadcast ev order)) = none := by
  obtain ⟨-, -, hwriting⟩ := (Lifecycle.orderly_run (life_run hrun)).returned hphase
  simp [step, admits, hwriting]

end Runs

theorem streams_end_iff (queueDepth : Nat) (ttl : Int) (file : CursorFile)
    (events : List ServerEvent) (s : Server)
    (hrun : run step (new queueDepth ttl file) events = some s) :
    s.StreamsEnded ↔
      (s.life.phase = .returned → ∀ sub ∈ s.out.subs, sub.stage ≠ .registered) := by
  have hsound := FanOut.sound_run (out_run hrun)
  apply forall_congr'
  intro _
  apply forall_congr'
  intro sub
  apply forall_congr'
  intro hmem
  obtain ⟨i, hi⟩ := List.getElem?_of_mem hmem
  have hcloses := (hsound.consistent i sub hi).closes
  constructor
  · intro hclosed hstage
    have hpos := hclosed hstage
    rw [hcloses, hstage] at hpos
    exact absurd hpos (by decide)
  · intro hleft hstage
    exact absurd hstage hleft

def stoppedWithClient : List ServerEvent :=
  [.out (.register 1), .life .cancel, .life .leave, .life .closeChannel, .life .writerReturn,
    .life (.finish none)]

theorem stream_left_waiting :
    ∃ s, run step (new 1 60 none) stoppedWithClient = some s ∧ s.life.phase = .returned ∧
      (∃ sub, s.out.subs[0]? = some sub ∧ sub.stage = .registered ∧ sub.closes = 0) ∧
      ¬ s.StreamsEnded ∧ (s.step (.out (.receive 0))).isNone = true ∧
      ∀ ev order, s.step (.out (.broadcast ev order)) = none := by
  have hvalues : (run step (new 1 60 none) stoppedWithClient).map (fun s => (s.life.phase,
      s.out.subs[0]?.map fun sub => (sub.stage, sub.closes),
      (s.step (.out (.receive 0))).isNone)) = some (.returned, some (.registered, 0), true) := by
    decide +kernel
  obtain ⟨s, hrun, hvalues⟩ := Option.map_eq_some_iff.mp hvalues
  simp only [Prod.mk.injEq] at hvalues
  obtain ⟨hphase, hsub, hreceive⟩ := hvalues
  obtain ⟨sub, hsub, hstate⟩ := Option.map_eq_some_iff.mp hsub
  obtain ⟨hstage, hcloses⟩ := Prod.mk.inj hstate
  refine ⟨s, hrun, hphase, ⟨sub, hsub, hstage, hcloses⟩, ?_, hreceive,
    no_broadcast_after_return hrun hphase⟩
  intro hended
  have hpos := hended hphase sub (List.mem_of_getElem? hsub) hstage
  omega

def stoppedWithoutClient : List ServerEvent :=
  [.out (.register 1), .life .cancel, .out (.remove 0), .life .leave, .out (.fold 0),
    .life .closeChannel, .out (.close 0), .life .writerReturn, .life (.finish none)]

theorem streams_end_stoppedWithoutClient :
    ∃ s, run step (new 1 60 none) stoppedWithoutClient = some s ∧ s.life.phase = .returned ∧
      s.StreamsEnded := by
  have hvalues : (run step (new 1 60 none) stoppedWithoutClient).map (fun s => (s.life.phase,
      s.out.subs.map LiveSubscriber.stage)) = some (.returned, [.closed]) := by
    decide +kernel
  obtain ⟨s, hrun, hvalues⟩ := Option.map_eq_some_iff.mp hvalues
  obtain ⟨hphase, hstages⟩ := Prod.mk.inj hvalues
  refine ⟨s, hrun, hphase, (streams_end_iff 1 60 none stoppedWithoutClient s hrun).mpr ?_⟩
  intro _ sub hmem hstage
  have hclosed := List.mem_map_of_mem (f := LiveSubscriber.stage) hmem
  rw [hstages, hstage] at hclosed
  exact absurd hclosed (by decide)

end Server

end KloudlensAggregator.Aggregator
