import KloudlensAggregator.Aggregator.Envelope
import KloudlensAggregator.ClusterPeers.History

/-!
# Listeners and edges on the wire

The intents that advertise and withdraw a listener, and the edge that is built
from a join.  A withdraw with the attributes and the pod of an advertise retires
the entry that the advertise made.
-/

namespace KloudlensAggregator.ClusterPeers

open KloudlensAggregator.Foundation
open KloudlensAggregator.Aggregator

def kindListenerAdvertise : String := "ListenerAdvertise"

def kindListenerWithdraw : String := "ListenerWithdraw"

def kindNetworkExchange : String := "NetworkExchange"

def kindClusterPeerEdge : String := "ClusterPeerEdge"

def attrPeer : String := "peer"

def attrPeerPID : String := "peer_pid"

def attrOf (ev : IntentEvent) (name : String) : String := (ev.attributes.lookup name).getD ""

/-- The getters of a message that is missing answer with empty texts. -/
def metaOf (ev : IntentEvent) : EventMeta := ev.eventMeta.getD ⟨"", "", "", "", "", ""⟩

def listenerFromAdvertise (ev : IntentEvent) : Option Listener :=
  if ev.kind ≠ kindListenerAdvertise then none
  else if attrOf ev "addr" = "" then none
  else
    some
      { addr := attrOf ev "addr"
        port := attrOf ev "port"
        pid := attrOf ev "pid"
        process := attrOf ev "process"
        wildcard := attrOf ev "wildcard" == "true"
        nodeName := (metaOf ev).nodeName
        namespace_ := (metaOf ev).namespace_
        pod := (metaOf ev).pod
        container := (metaOf ev).container
        containerId := (metaOf ev).containerId
        image := (metaOf ev).image
        service := ⟨"", ""⟩
        replicaAmbiguous := false
        replicaCount := 0
        expires := 0 }

/-- Only the fields that `Remove` looks at are set. -/
def listenerFromWithdraw (ev : IntentEvent) : Option Listener :=
  if ev.kind ≠ kindListenerWithdraw then none
  else if attrOf ev "addr" = "" then none
  else
    some
      { addr := attrOf ev "addr"
        port := attrOf ev "port"
        pid := ""
        process := ""
        wildcard := attrOf ev "wildcard" == "true"
        nodeName := ""
        namespace_ := (metaOf ev).namespace_
        pod := (metaOf ev).pod
        container := ""
        containerId := ""
        image := ""
        service := ⟨"", ""⟩
        replicaAmbiguous := false
        replicaCount := 0
        expires := 0 }

def peerEdge (src : IntentEvent) (l : Listener) (how : How) (connectorNode : String) :
    IntentEvent :=
  let attribution :=
    if connectorNode ≠ "" ∧ l.nodeName = connectorNode then "same-node" else "cross-node"
  let service := if l.service.toText ≠ "" then [("peer_service", l.service.toText)] else []
  let replicas :=
    if l.replicaAmbiguous then
      [("peer_replica_ambiguous", "true"), ("peer_replica_count", itoa l.replicaCount)]
    else []
  { kind := kindClusterPeerEdge
    attributes :=
      [("addr", attrOf src attrPeer), ("peer_pid", l.pid), ("peer_process", l.process),
        ("peer_pod", l.pod), ("peer_namespace", l.namespace_), ("peer_container", l.container),
        ("peer_image", l.image), ("peer_node", l.nodeName), ("attribution", attribution),
        ("via", how.via)] ++ service ++ replicas
    eventMeta := src.eventMeta
    severity := src.severity
    contributingEventIds := src.contributingEventIds }

private theorem key_listenerFromWithdraw {advertise withdraw : IntentEvent} {l w : Listener}
    (hattributes : withdraw.attributes = advertise.attributes)
    (hmeta : withdraw.eventMeta = advertise.eventMeta)
    (hl : listenerFromAdvertise advertise = some l)
    (hw : listenerFromWithdraw withdraw = some w) : w.key = l.key := by
  have hattribute : ∀ name, attrOf withdraw name = attrOf advertise name := by
    intro name
    rw [attrOf, hattributes, attrOf]
  have hmetaOf : metaOf withdraw = metaOf advertise := by
    rw [metaOf, hmeta, metaOf]
  simp only [listenerFromAdvertise, Option.ite_none_left_eq_some, Option.some.injEq] at hl
  simp only [listenerFromWithdraw, Option.ite_none_left_eq_some, Option.some.injEq, hattribute,
    hmetaOf] at hw
  obtain ⟨-, -, rfl⟩ := hl
  obtain ⟨-, -, rfl⟩ := hw
  rfl

theorem peerEdge_kind (src : IntentEvent) (l : Listener) (how : How) (connectorNode : String) :
    (peerEdge src l how connectorNode).kind ≠ kindNetworkExchange ∧
      listenerFromAdvertise (peerEdge src l how connectorNode) = none ∧
      listenerFromWithdraw (peerEdge src l how connectorNode) = none := by
  have hkind : (peerEdge src l how connectorNode).kind = kindClusterPeerEdge := rfl
  refine ⟨?_, ?_, ?_⟩
  · rw [hkind]
    decide
  · simp [listenerFromAdvertise, hkind, kindClusterPeerEdge, kindListenerAdvertise]
  · simp [listenerFromWithdraw, hkind, kindClusterPeerEdge, kindListenerWithdraw]

theorem entry_withdrawn (r : Registry) {advertise withdraw : IntentEvent} {l w : Listener}
    {key : Key} (hattributes : withdraw.attributes = advertise.attributes)
    (hmeta : withdraw.eventMeta = advertise.eventMeta)
    (hl : listenerFromAdvertise advertise = some l)
    (hw : listenerFromWithdraw withdraw = some w) (hkey : l.key = some key) :
    (r.remove w).entry key = none := by
  rw [Registry.entry_remove, key_listenerFromWithdraw hattributes hmeta hl hw, hkey]
  simp

end KloudlensAggregator.ClusterPeers
