import Mathlib.Data.List.Basic

/-!
# Envelopes and subscriptions

The parts of `pb.EventEnvelope` and `pb.SubscribeRequest` that the aggregator
reads, and the two tests that decide whether a subscription is sent an envelope.
-/

namespace KloudlensAggregator.Aggregator

structure Cursor where
  nodeId : String
  stream : String
  seq : Nat
  deriving DecidableEq, Repr

structure EventMeta where
  nodeName : String
  namespace_ : String
  pod : String
  container : String
  containerId : String
  image : String
  deriving DecidableEq, Repr

structure IntentEvent where
  kind : String
  attributes : List (String × String)
  eventMeta : Option EventMeta
  severity : Int
  contributingEventIds : List String
  deriving DecidableEq, Repr

structure DeviationEvent where
  kind : String
  eventMeta : Option EventMeta
  deriving DecidableEq, Repr

structure RawSyscall where
  syscallName : String
  category : String
  eventMeta : Option EventMeta
  severity : Int
  deriving DecidableEq, Repr

/-- The oneof of the envelope; the variants below `rawSyscall` carry nothing
that the aggregator reads. -/
inductive Payload where
  | intent (event : IntentEvent)
  | deviation (event : DeviationEvent)
  | rawSyscall (event : RawSyscall)
  | graphEdge
  | lifecycle
  | audit
  | other
  deriving DecidableEq, Repr

structure EventEnvelope where
  cursor : Option Cursor
  payload : Payload
  deriving DecidableEq, Repr

structure EventFilter where
  kinds : List String
  namespaces : List String
  pods : List String
  minSeverity : Int
  deriving DecidableEq, Repr

structure SubscribeRequest where
  streams : List String
  cursor : Option Cursor
  filter : Option EventFilter
  deriving DecidableEq, Repr

def SubscribeRequest.streamName (request : SubscribeRequest) : String :=
  request.streams.headD ""

def streamMatches (want : String) (env : EventEnvelope) : Bool :=
  if want = "" then true
  else
    match env.payload with
    | .intent _ => want == "intent"
    | .deviation _ => want == "deviation"
    | .graphEdge => want == "graph_edge"
    | .lifecycle => want == "lifecycle"
    | .audit => want == "audit"
    | _ => false

/-- An empty list of a filter selects everything. -/
def selects (wanted : List String) (value : String) : Bool :=
  wanted.isEmpty || wanted.contains value

def metaPasses (f : EventFilter) : Option EventMeta → Bool
  | none => true
  | some m => selects f.namespaces m.namespace_ && selects f.pods m.pod

def severityPasses (f : EventFilter) (severity : Int) : Bool :=
  f.minSeverity == 0 || f.minSeverity ≤ severity

def envelopePassesFilter (env : EventEnvelope) : Option EventFilter → Bool
  | none => true
  | some f =>
      match env.payload with
      | .intent event =>
          selects f.kinds event.kind && metaPasses f event.eventMeta &&
            severityPasses f event.severity
      | .deviation event => selects f.kinds event.kind && metaPasses f event.eventMeta
      | .rawSyscall event =>
          (selects f.kinds event.syscallName || selects f.kinds event.category) &&
            metaPasses f event.eventMeta && severityPasses f event.severity
      | _ => true

def SubscribeRequest.accepts (request : SubscribeRequest) (env : EventEnvelope) : Bool :=
  streamMatches request.streamName env && envelopePassesFilter env request.filter

def stampCursor (aggregatorId : String) (env : EventEnvelope) (seq : Nat)
    (streamName : String) : EventEnvelope :=
  { env with cursor := some ⟨aggregatorId, streamName, seq⟩ }

end KloudlensAggregator.Aggregator
