import KloudlensAggregator.Aggregator.FanIn
import KloudlensAggregator.ClusterPeers.Replicas

/-!
# Edges to a Service

The edge to a Service with several live replicas carries the data of the replica whose
backend comes first.  Process, image, Service and number of replicas are the same for
each of them.  Whether the edge crosses nodes depends on the node of that one replica.
-/

namespace KloudlensAggregator.Aggregator

open KloudlensAggregator.Foundation
open KloudlensAggregator.ClusterPeers

/-- The attributes of an edge that are not those of a single replica. -/
def asserted : List String :=
  ["attribution", "via", "peer_process", "peer_image", "peer_service", "peer_replica_ambiguous",
    "peer_replica_count"]

def SameAssertions : Option IntentEvent → Option IntentEvent → Prop
  | none, none => True
  | some edge, some edge' =>
      ∀ name ∈ asserted, edge.attributes.lookup name = edge'.attributes.lookup name
  | _, _ => False

theorem SameAssertions.refl (edge : Option IntentEvent) : SameAssertions edge edge := by
  cases edge with
  | none => trivial
  | some edge => exact fun _ _ => rfl

def withBackends (env : Resolvers) (backends : List String) (svc : ServiceRef) : Resolvers :=
  { env with svc := some fun _ => some (backends, svc) }

/-- The connecting side is on the node of the listener, and known to be. -/
def SameNode (connectorNode : String) (l : Listener) : Prop :=
  connectorNode ≠ "" ∧ l.nodeName = connectorNode

def Eligible (ev : IntentEvent) : Prop :=
  ev.kind = kindNetworkExchange ∧ attrOf ev attrPeer ≠ "" ∧ ev.attributes.lookup attrPeerPID = none

/-! ## The edge of one join -/

theorem lookup_attribution (src : IntentEvent) (l : Listener) (how : How) (node : String) :
    (peerEdge src l how node).attributes.lookup "attribution" =
      some (if node ≠ "" ∧ l.nodeName = node then "same-node" else "cross-node") := by
  simp [peerEdge, List.lookup_cons]

theorem lookup_attribution_eq_iff {src : IntentEvent} {l l' : Listener} {how : How}
    {node : String} :
    (peerEdge src l how node).attributes.lookup "attribution" =
        (peerEdge src l' how node).attributes.lookup "attribution" ↔
      (SameNode node l ↔ SameNode node l') := by
  rw [lookup_attribution, lookup_attribution, Option.some.injEq]
  unfold SameNode
  split <;> split <;> simp_all

private theorem sameAssertions_peerEdge {src : IntentEvent} {l l' : Listener} {how : How}
    {node : String}
    (hprocess : l.process = l'.process) (himage : l.image = l'.image)
    (hservice : l.service = l'.service) (hambiguous : l.replicaAmbiguous = l'.replicaAmbiguous)
    (hcount : l.replicaCount = l'.replicaCount) (hnode : SameNode node l ↔ SameNode node l') :
    SameAssertions (some (peerEdge src l how node)) (some (peerEdge src l' how node)) := by
  intro name hname
  by_cases hattribution : name = "attribution"
  · subst hattribution
    exact lookup_attribution_eq_iff.mpr hnode
  · simp only [asserted, List.mem_cons, List.not_mem_nil, or_false] at hname
    rcases hname with rfl | rfl | rfl | rfl | rfl | rfl | rfl
    · exact absurd rfl hattribution
    all_goals simp [peerEdge, List.lookup_cons, hprocess, himage, hservice, hambiguous, hcount]

namespace Peers

variable {p : Peers} {env : Resolvers} {now : Int} {envelope : EventEnvelope}
  {backends : List String} {svc : ServiceRef}

theorem joinPeer_of_eligible {resolvers : Resolvers} {ev : IntentEvent}
    (hpayload : envelope.payload = .intent ev) (heligible : Eligible ev) :
    (p.joinPeer resolvers now envelope).1 =
      (p.registry.join resolvers (attrOf ev attrPeer) now).map fun answer =>
        peerEdge ev answer.1 answer.2 (metaOf ev).nodeName := by
  obtain ⟨hkind, hpeer, hpid⟩ := heligible
  simp only [joinPeer, hpayload, hkind, hpeer, hpid]
  cases p.registry.join resolvers (attrOf ev attrPeer) now <;> simp

theorem joinPeer_of_not_eligible {resolvers : Resolvers}
    (h : ∀ ev, envelope.payload = .intent ev → ¬ Eligible ev) :
    (p.joinPeer resolvers now envelope).1 = none := by
  unfold joinPeer
  split
  · rename_i ev hpayload
    by_cases hkind : ev.kind = kindNetworkExchange
    · by_cases hpeer : attrOf ev attrPeer = ""
      · simp [hkind, hpeer]
      · have hpid : ev.attributes.lookup attrPeerPID ≠ none :=
          fun hpid => h ev hpayload ⟨hkind, hpeer, hpid⟩
        rw [if_neg (not_not.mpr hkind), if_neg hpeer,
          if_pos (Option.isSome_iff_ne_none.mpr hpid)]
    · simp [hkind]
  · rfl

theorem join_withBackends (r : Registry) (env : Resolvers) (backends : List String)
    (svc : ServiceRef) (addr : String) (now : Int) :
    r.join (withBackends env backends svc) addr now =
      match r.liveExact env addr now with
      | some l => some (l, .direct)
      | none =>
          match r.joinEndpointslice env addr now with
          | some l => some (l, .endpointslice)
          | none =>
              match r.resolveVIP env backends svc now with
              | some l => some (l, .serviceVIP)
              | none =>
                  match r.liveWild env addr now with
                  | some l => some (l, .wildcard)
                  | none => none := rfl

/-! ## Any order of the backends -/

def oneOf (svc : ServiceRef) (count : Nat) (l : Listener) : Listener :=
  { l with service := svc, replicaAmbiguous := true, replicaCount := count }

theorem liveListeners_perm {r : Registry} {backends' : List String}
    (hperm : backends'.Perm backends) :
    (r.liveListeners env now backends').Perm (r.liveListeners env now backends) :=
  hperm.filterMap _

theorem oneWorkload_perm {listeners listeners' : List Listener}
    (hperm : listeners.Perm listeners') : OneWorkload listeners ↔ OneWorkload listeners' := by
  simp only [OneWorkload, hperm.mem_iff]

private theorem resolveVIP_of_perm {r : Registry} {backends' : List String} (svc : ServiceRef)
    (htwo : 2 ≤ (r.liveListeners env now backends).length)
    (hone : OneWorkload (r.liveListeners env now backends)) (hperm : backends'.Perm backends) :
    ∃ l rest, r.liveListeners env now backends' = l :: rest ∧
      r.resolveVIP env backends' svc now =
        some (oneOf svc (r.liveListeners env now backends).length l) := by
  have hlive : (r.liveListeners env now backends').Perm (r.liveListeners env now backends) :=
    liveListeners_perm hperm
  rw [← oneWorkload_perm hlive] at hone
  rw [← hlive.length_eq] at htwo ⊢
  rcases heq : r.liveListeners env now backends' with _ | ⟨l, _ | ⟨other, others⟩⟩
  · simp [heq] at htwo
  · simp [heq] at htwo
  · refine ⟨l, other :: others, rfl, ?_⟩
    rw [← heq]
    exact Registry.resolveVIP_of_oneWorkload heq hone

private theorem exists_perm_first {r : Registry} {l : Listener}
    (hl : l ∈ r.liveListeners env now backends) :
    ∃ backends', backends'.Perm backends ∧
      ∃ rest, r.liveListeners env now backends' = l :: rest := by
  obtain ⟨b, hb, hlive⟩ := List.mem_filterMap.mp hl
  obtain ⟨before, after, rfl⟩ := List.append_of_mem hb
  exact ⟨b :: (before ++ after), List.perm_middle.symm,
    r.liveListeners env now (before ++ after), List.filterMap_cons_some hlive⟩

theorem joinPeer_of_oneWorkload {ev : IntentEvent} {backends' : List String} (svc : ServiceRef)
    (hpayload : envelope.payload = .intent ev) (heligible : Eligible ev)
    (hexact : p.registry.liveExact env (attrOf ev attrPeer) now = none)
    (hslice : p.registry.joinEndpointslice env (attrOf ev attrPeer) now = none)
    (htwo : 2 ≤ (p.registry.liveListeners env now backends).length)
    (hone : OneWorkload (p.registry.liveListeners env now backends))
    (hperm : backends'.Perm backends) :
    ∃ l rest, p.registry.liveListeners env now backends' = l :: rest ∧
      (p.joinPeer (withBackends env backends' svc) now envelope).1 =
        some (peerEdge ev (oneOf svc (p.registry.liveListeners env now backends).length l)
          .serviceVIP (metaOf ev).nodeName) := by
  obtain ⟨l, rest, hfirst, hresolve⟩ := resolveVIP_of_perm svc htwo hone hperm
  refine ⟨l, rest, hfirst, ?_⟩
  rw [joinPeer_of_eligible hpayload heligible, join_withBackends]
  simp only [hexact, hslice, hresolve, Option.map_some]

private theorem joinPeer_withBackends_eq {backends₁ backends₂ : List String} (svc : ServiceRef)
    (hperm₁ : backends₁.Perm backends) (hperm₂ : backends₂.Perm backends)
    (hdiffer : ∀ ev, envelope.payload = .intent ev → Eligible ev →
      p.registry.liveExact env (attrOf ev attrPeer) now = none →
      p.registry.joinEndpointslice env (attrOf ev attrPeer) now = none →
        ¬ OneWorkload (p.registry.liveListeners env now backends)) :
    (p.joinPeer (withBackends env backends₁ svc) now envelope).1 =
      (p.joinPeer (withBackends env backends₂ svc) now envelope).1 := by
  by_cases heligible : ∃ ev, envelope.payload = .intent ev ∧ Eligible ev
  · obtain ⟨ev, hpayload, heligible⟩ := heligible
    rw [joinPeer_of_eligible hpayload heligible, joinPeer_of_eligible hpayload heligible,
      join_withBackends, join_withBackends]
    cases hexact : p.registry.liveExact env (attrOf ev attrPeer) now with
    | some l => rfl
    | none =>
        cases hslice : p.registry.joinEndpointslice env (attrOf ev attrPeer) now with
        | some l => rfl
        | none =>
            have hmiss : ∀ backends', backends'.Perm backends →
                p.registry.resolveVIP env backends' svc now = none := by
              intro backends' hperm
              apply Registry.resolveVIP_of_not_oneWorkload
              rw [oneWorkload_perm (liveListeners_perm hperm)]
              exact hdiffer ev hpayload heligible hexact hslice
            simp only [hmiss _ hperm₁, hmiss _ hperm₂]
  · have hnone : ∀ ev, envelope.payload = .intent ev → ¬ Eligible ev :=
      fun ev hpayload h => heligible ⟨ev, hpayload, h⟩
    rw [joinPeer_of_not_eligible hnone, joinPeer_of_not_eligible hnone]

/-- The edges to a Service with two live replicas or more assert the same in any order of
its backends, exactly if the replicas lie on one side of the connecting node, where they
are asked at all and are of one workload. -/
theorem edge_order_free_iff (p : Peers) (env : Resolvers) (now : Int) (envelope : EventEnvelope)
    (backends : List String) (svc : ServiceRef)
    (htwo : 2 ≤ (p.registry.liveListeners env now backends).length) :
    (∀ backends₁ backends₂, backends₁.Perm backends → backends₂.Perm backends →
      SameAssertions (p.joinPeer (withBackends env backends₁ svc) now envelope).1
        (p.joinPeer (withBackends env backends₂ svc) now envelope).1) ↔
      ∀ ev, envelope.payload = .intent ev → Eligible ev →
        p.registry.liveExact env (attrOf ev attrPeer) now = none →
        p.registry.joinEndpointslice env (attrOf ev attrPeer) now = none →
        OneWorkload (p.registry.liveListeners env now backends) →
        ∀ l ∈ p.registry.liveListeners env now backends,
          ∀ l' ∈ p.registry.liveListeners env now backends,
            (SameNode (metaOf ev).nodeName l ↔ SameNode (metaOf ev).nodeName l') := by
  constructor
  · intro hsame ev hpayload heligible hexact hslice hone l hl l' hl'
    have hedge : ∀ l ∈ p.registry.liveListeners env now backends, ∃ backends',
        backends'.Perm backends ∧ (p.joinPeer (withBackends env backends' svc) now envelope).1 =
          some (peerEdge ev (oneOf svc (p.registry.liveListeners env now backends).length l)
            .serviceVIP (metaOf ev).nodeName) := by
      intro l hl
      obtain ⟨backends', hperm, rest, hfirst⟩ := exists_perm_first hl
      obtain ⟨base, _, hbase, hjoin⟩ :=
        joinPeer_of_oneWorkload svc hpayload heligible hexact hslice htwo hone hperm
      rw [hfirst] at hbase
      cases hbase
      exact ⟨backends', hperm, hjoin⟩
    obtain ⟨backends₁, hperm₁, hedge₁⟩ := hedge l hl
    obtain ⟨backends₂, hperm₂, hedge₂⟩ := hedge l' hl'
    have hattribution := hsame backends₁ backends₂ hperm₁ hperm₂
    rw [hedge₁, hedge₂] at hattribution
    have hlookup := hattribution "attribution" (by simp [asserted])
    rw [lookup_attribution_eq_iff] at hlookup
    exact hlookup
  · intro hnode backends₁ backends₂ hperm₁ hperm₂
    by_cases hvip : ∃ ev, envelope.payload = .intent ev ∧ Eligible ev ∧
        p.registry.liveExact env (attrOf ev attrPeer) now = none ∧
        p.registry.joinEndpointslice env (attrOf ev attrPeer) now = none ∧
        OneWorkload (p.registry.liveListeners env now backends)
    · obtain ⟨ev, hpayload, heligible, hexact, hslice, hone⟩ := hvip
      obtain ⟨l₁, rest₁, hfirst₁, hjoin₁⟩ :=
        joinPeer_of_oneWorkload svc hpayload heligible hexact hslice htwo hone hperm₁
      obtain ⟨l₂, rest₂, hfirst₂, hjoin₂⟩ :=
        joinPeer_of_oneWorkload svc hpayload heligible hexact hslice htwo hone hperm₂
      have hmem₁ := (liveListeners_perm hperm₁).mem_iff.mp (hfirst₁ ▸ List.mem_cons_self)
      have hmem₂ := (liveListeners_perm hperm₂).mem_iff.mp (hfirst₂ ▸ List.mem_cons_self)
      obtain ⟨hprocess, himage⟩ := hone l₁ hmem₁ l₂ hmem₂
      rw [hjoin₁, hjoin₂]
      exact sameAssertions_peerEdge hprocess himage rfl rfl rfl
        (hnode ev hpayload heligible hexact hslice hone l₁ hmem₁ l₂ hmem₂)
    · have heq := joinPeer_withBackends_eq (p := p) svc hperm₁ hperm₂
        fun ev hpayload heligible hexact hslice hone =>
          hvip ⟨ev, hpayload, heligible, hexact, hslice, hone⟩
      rw [heq]
      exact .refl _

def exchangeFrom (nodeName : String) : EventEnvelope :=
  ⟨none, .intent ⟨kindNetworkExchange, [(attrPeer, "10.96.0.1:80")],
    some ⟨nodeName, "shop", "client", "", "", ""⟩, 1, []⟩⟩

def replicasOn (nodeName nodeName' : String) : Peers where
  registry := ((newRegistry 0).observe 0
    { bareListener "10.0.0.1:8080" false "shop" "web-1" with process := "web", nodeName }).observe 0
    { bareListener "10.0.0.2:8080" false "shop" "web-2" with
      process := "web", nodeName := nodeName' }
  xnodeJoins := 0
  xnodeMisses := 0
  vipJoins := 0

theorem edge_order_free_other_node :
    2 ≤ ((replicasOn "node-b" "node-b").registry.liveListeners ⟨none, none, none⟩ 1
        ["10.0.0.1:8080", "10.0.0.2:8080"]).length ∧
      ∀ backends₁ backends₂, backends₁.Perm ["10.0.0.1:8080", "10.0.0.2:8080"] →
        backends₂.Perm ["10.0.0.1:8080", "10.0.0.2:8080"] →
        SameAssertions
          ((replicasOn "node-b" "node-b").joinPeer
            (withBackends ⟨none, none, none⟩ backends₁ ⟨"shop", "web"⟩) 1 (exchangeFrom "node-a")).1
          ((replicasOn "node-b" "node-b").joinPeer
            (withBackends ⟨none, none, none⟩ backends₂ ⟨"shop", "web"⟩) 1
              (exchangeFrom "node-a")).1 := by
  have htwo : 2 ≤ ((replicasOn "node-b" "node-b").registry.liveListeners ⟨none, none, none⟩ 1
      ["10.0.0.1:8080", "10.0.0.2:8080"]).length := by decide +kernel
  refine ⟨htwo, (edge_order_free_iff _ _ _ _ _ _ htwo).mpr ?_⟩
  intro ev hpayload heligible hexact hslice hone l hl l' hl'
  cases hpayload
  have hnodes : ∀ l ∈ (replicasOn "node-b" "node-b").registry.liveListeners ⟨none, none, none⟩ 1
      ["10.0.0.1:8080", "10.0.0.2:8080"], l.nodeName ≠ "node-a" := by decide +kernel
  exact iff_of_false (fun h => hnodes l hl h.2) (fun h => hnodes l' hl' h.2)

theorem edge_depends_on_order :
    let p := replicasOn "node-a" "node-b"
    let edge (backends : List String) := (p.joinPeer
      (withBackends ⟨none, none, none⟩ backends ⟨"shop", "web"⟩) 1 (exchangeFrom "node-a")).1
    let asserts (backends : List String) := (edge backends).map fun e =>
      (e.attributes.lookup "attribution", e.attributes.lookup "peer_replica_ambiguous",
        e.attributes.lookup "peer_replica_count")
    asserts ["10.0.0.1:8080", "10.0.0.2:8080"] = some (some "same-node", some "true", some "2") ∧
      asserts ["10.0.0.2:8080", "10.0.0.1:8080"] =
        some (some "cross-node", some "true", some "2") := by
  decide +kernel

end Peers

end KloudlensAggregator.Aggregator
