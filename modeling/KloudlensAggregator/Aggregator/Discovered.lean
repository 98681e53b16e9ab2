import KloudlensAggregator.Aggregator.Fleet
import KloudlensAggregator.Discovery.EndpointSlice

/-!
# Agents found by discovery

`startK8sDiscovery` hands the endpoints of `flatten` to the aggregator as they are.
An address that stands in two slices gives two endpoints with two names, and a run
for each.
-/

namespace KloudlensAggregator.Aggregator

open KloudlensAggregator.Foundation
open KloudlensAggregator.Discovery.EndpointSlice

def agentEndpoints (eps : List Endpoint) : List AgentEndpoint :=
  eps.map fun e => ⟨e.name, e.addr⟩

def Fleet.OneRunPerHost (f : Fleet) : Prop :=
  ∀ (i j : Nat) (r r' : EndpointRun), f.runs[i]? = some r → f.runs[j]? = some r' →
    r.cancelled = false → r'.cancelled = false → hostText r.addr = hostText r'.addr → i = j

/-- A name that stands in both lists stands for one host. -/
def SameHosts (known : List AgentEndpoint) (eps : List Endpoint) : Prop :=
  ∀ ep ∈ known, ∀ e ∈ eps, ep.name = e.name → hostText ep.addr = e.host

/-- Sorted strictly by address, each ready address once and nothing else. -/
structure ListedOnce (state : GoMap String SliceObject) (targetPort : Int32)
    (eps : List Endpoint) : Prop where
  sorted : eps.Pairwise fun e e' => e.addr < e'.addr
  once : ∀ slice ∈ RangeOrder.forwards.values state, ∀ addr ∈ agentsOf targetPort slice,
    ∃! e, e ∈ eps ∧ e.host = some addr
  only : ∀ e ∈ eps, ∃ slice ∈ RangeOrder.forwards.values state,
    ∃ addr ∈ agentsOf targetPort slice, e = endpointAt slice (pickPort slice targetPort) addr

section Discovered

variable {order : RangeOrder String SliceObject} {sort : AddrSort}
  {state : GoMap String SliceObject} {targetPort : Int32}

private theorem listedOnce_flatten (hdistinct : DistinctAgents state targetPort) :
    ListedOnce state targetPort (flatten order sort state targetPort) where
  sorted := flatten_strictly_sorted hdistinct
  once := by
    intro slice hslice addr haddr
    have hmem : endpointAt slice (pickPort slice targetPort) addr ∈
        flatten order sort state targetPort := mem_flatten.mpr ⟨slice, hslice, addr, haddr, rfl⟩
    refine ⟨_, ⟨hmem, host_endpointAt slice _ addr⟩, ?_⟩
    rintro e ⟨he, hhost⟩
    exact eq_of_host_eq hdistinct he hmem (hhost.trans (host_endpointAt slice _ addr).symm)
  only := fun _ he => mem_flatten.mp he

private theorem distinctAgents_of_listedOnce
    (h : ListedOnce state targetPort (flatten order sort state targetPort)) :
    DistinctAgents state targetPort := by
  have hinj : ∀ e ∈ flatten order sort state targetPort,
      ∀ e' ∈ flatten order sort state targetPort, e.host = e'.host → e = e' := by
    intro e he e' he' hhost
    obtain ⟨slice, hslice, addr, haddr, heq⟩ := h.only e he
    have hfound : e.host = some addr := by
      rw [heq]
      exact host_endpointAt slice _ addr
    exact (h.once slice hslice addr haddr).unique ⟨he, hfound⟩ ⟨he', hhost ▸ hfound⟩
  have hnodup : (flatten order sort state targetPort).Nodup := by
    refine h.sorted.imp ?_
    rintro e e' hlt rfl
    exact lt_irrefl _ hlt
  exact nodup_host_flatten_iff.mp (hnodup.map_on hinj)

theorem mem_of_addrOf {eps : List AgentEndpoint} {name addr : String}
    (h : addrOf eps name = some addr) : (⟨name, addr⟩ : AgentEndpoint) ∈ eps := by
  obtain ⟨ep, hep, rfl⟩ := Option.map_eq_some_iff.mp h
  have hname := List.find?_some hep
  rw [decide_eq_true_eq] at hname
  rw [← hname]
  exact List.mem_reverse.mp (List.mem_of_find?_eq_some hep)

structure Fleet.Known (known : List AgentEndpoint) (f : Fleet) : Prop where
  tracked : f.Tracked
  addrAt : ∀ name addr, f.addrAt name = some addr → (⟨name, addr⟩ : AgentEndpoint) ∈ known

namespace Fleet.Known

variable {known agents : List AgentEndpoint} {f g : Fleet}

theorem seed (h : (agents.map AgentEndpoint.name).Nodup) : (Fleet.seed agents).Known agents := by
  obtain ⟨htracked, haddr⟩ := Fleet.tracked_seed h
  refine ⟨htracked, fun name addr hat => mem_of_addrOf ?_⟩
  rw [← haddr, hat]

theorem reconcileFleet (h : f.Known known) {e : FleetEmission}
    (hstep : f.reconcileFleet e = some g) : g.Known (known ++ e.eps) := by
  obtain ⟨htracked, -, -, hnext⟩ := h.tracked.reconcileFleet hstep
  refine ⟨htracked, fun name addr hat => ?_⟩
  rw [hnext name] at hat
  split at hat
  · cases hat
  · rcases Option.or_eq_some_iff.mp hat with hkept | ⟨-, hnew⟩
    · exact List.mem_append_left _ (h.addrAt name addr hkept)
    · exact List.mem_append_right _ (mem_of_addrOf hnew)

theorem run {emissions : List FleetEmission} (h : f.Known known)
    (hrun : Foundation.run Fleet.reconcileFleet f emissions = some g) :
    g.Known (known ++ emissions.flatMap FleetEmission.eps) := by
  induction emissions generalizing f known with
  | nil =>
      cases hrun
      rwa [List.flatMap_nil, List.append_nil]
  | cons e emissions ih =>
      obtain ⟨middle, hstep, hrest⟩ := run_cons_eq_some.mp hrun
      have hlast := ih (h.reconcileFleet hstep) hrest
      rwa [List.append_assoc] at hlast

private theorem exists_endpoint_of_run (h : f.Known known) {eps : List Endpoint}
    {e : FleetEmission} (heps : e.eps = agentEndpoints eps) (hsame : SameHosts known eps)
    (hstep : f.reconcileFleet e = some g) {i : Nat} {r : EndpointRun}
    (hrun : g.runs[i]? = some r) (hlive : r.cancelled = false) :
    ∃ e ∈ eps, e.name = r.name ∧ hostText r.addr = e.host := by
  obtain ⟨htracked, -, -, hnext⟩ := h.tracked.reconcileFleet hstep
  have hat : g.addrAt r.name = some r.addr := by
    simp [Fleet.addrAt, htracked.live i r hrun hlive, hrun]
  rw [hnext r.name, heps] at hat
  cases hwant : addrOf (agentEndpoints eps) r.name with
  | none =>
      rw [hwant] at hat
      cases hat
  | some addr =>
      obtain ⟨e, he, heq⟩ := List.mem_map.mp (mem_of_addrOf hwant)
      obtain ⟨hname, haddr⟩ := AgentEndpoint.mk.inj heq
      rw [hwant, if_neg (by simp)] at hat
      refine ⟨e, he, hname, ?_⟩
      rcases Option.or_eq_some_iff.mp hat with hkept | ⟨-, hnew⟩
      · exact hsame _ (h.addrAt _ _ hkept) e he hname.symm
      · rw [← Option.some.inj hnew, ← haddr]
        rfl

private theorem oneRunPerHost (h : f.Known known) {eps : List Endpoint} {e : FleetEmission}
    (heps : e.eps = agentEndpoints eps) (hsame : SameHosts known eps)
    (hhosts : ∀ e ∈ eps, ∀ e' ∈ eps, e.host = e'.host → e = e')
    (hstep : f.reconcileFleet e = some g) : g.OneRunPerHost := by
  have htracked := (h.tracked.reconcileFleet hstep).1
  intro i j r r' hrun hrun' hlive hlive' hhost
  obtain ⟨e, he, hname, hfound⟩ := h.exists_endpoint_of_run heps hsame hstep hrun hlive
  obtain ⟨e', he', hname', hfound'⟩ := h.exists_endpoint_of_run heps hsame hstep hrun' hlive'
  have hsame' : e = e' := hhosts e he e' he' (by rw [← hfound, ← hfound', hhost])
  have hi := htracked.live i r hrun hlive
  rw [← hname, hsame', hname', htracked.live j r' hrun' hlive'] at hi
  exact (Option.some.inj hi).symm

end Fleet.Known

/-- Discovery lists each agent once, in whatever order it goes through the slices, and the
fleet has one run for each host however it came about, exactly if no ready address stands in
the slices twice. -/
theorem flatten_lists_once_iff (state : GoMap String SliceObject) (targetPort : Int32) :
    (∀ order sort, ListedOnce state targetPort (flatten order sort state targetPort) ∧
      (∀ order' sort',
        flatten order' sort' state targetPort = flatten order sort state targetPort) ∧
      ∀ (agents : List AgentEndpoint) (emissions : List FleetEmission) activeOrder wantOrder f,
        (agents.map AgentEndpoint.name).Nodup →
        SameHosts (agents ++ emissions.flatMap FleetEmission.eps)
          (flatten order sort state targetPort) →
        run Fleet.reconcileFleet (Fleet.seed agents) (emissions ++
          [⟨agentEndpoints (flatten order sort state targetPort), activeOrder, wantOrder⟩]) =
            some f →
          f.OneRunPerHost) ↔
      DistinctAgents state targetPort := by
  constructor
  · intro h
    exact distinctAgents_of_listedOnce (h .forwards .insertion).1
  · intro hdistinct order sort
    refine ⟨listedOnce_flatten hdistinct, fun _ _ => flatten_order_free hdistinct, ?_⟩
    intro agents emissions activeOrder wantOrder f hnodup hsame hrun
    obtain ⟨before, hbefore, hlast⟩ := run_append_eq_some.mp hrun
    rw [run_singleton] at hlast
    refine ((Fleet.Known.seed hnodup).run hbefore).oneRunPerHost rfl hsame ?_ hlast
    intro e he e' he' hhost
    exact eq_of_host_eq hdistinct he he' hhost

private theorem takeWhile_name {name rest : List Char} (h : '/' ∉ name) :
    (name ++ '/' :: rest).takeWhile (· ≠ '/') = name := by
  rw [List.takeWhile_append_of_pos, List.takeWhile_cons_of_neg, List.append_nil]
  · simp
  · intro c hc
    exact decide_eq_true fun heq => h (heq ▸ hc)

/-- The name of a Kubernetes object has no slash in it, so the name of an endpoint says what
its host is. -/
theorem sameHosts_flatten {state' : GoMap String SliceObject}
    {order' : RangeOrder String SliceObject} {sort' : AddrSort}
    (hplain : ∀ slice ∈ RangeOrder.forwards.values state, '/' ∉ slice.name.toList)
    (hplain' : ∀ slice ∈ RangeOrder.forwards.values state', '/' ∉ slice.name.toList) :
    SameHosts (agentEndpoints (flatten order' sort' state' targetPort))
      (flatten order sort state targetPort) := by
  intro ep hep e he hname
  obtain ⟨e', he', rfl⟩ := List.mem_map.mp hep
  obtain ⟨slice', hslice', addr', -, rfl⟩ := mem_flatten.mp he'
  obtain ⟨slice, hslice, addr, -, rfl⟩ := mem_flatten.mp he
  have hlists : slice'.name.toList ++ '/' :: addr'.toList =
      slice.name.toList ++ '/' :: addr.toList := by
    have hchars := congrArg String.toList hname
    simpa [endpointAt] using hchars
  have hslices : slice'.name.toList = slice.name.toList := by
    have hsplit := congrArg (List.takeWhile (· ≠ '/')) hlists
    rwa [takeWhile_name (hplain' _ hslice'), takeWhile_name (hplain _ hslice)] at hsplit
  have haddr : addr'.toList = addr.toList := by
    rw [hslices] at hlists
    exact (List.cons.inj (List.append_cancel_left hlists)).2
  change (endpointAt slice' _ addr').host = (endpointAt slice _ addr).host
  rw [host_endpointAt, host_endpointAt, String.toList_inj.mp haddr]

end Discovered

def movedAgent : GoMap String SliceObject :=
  (AList.singleton "agents-b" ⟨"agents-b", [⟨7443, "grpc"⟩], [⟨["10.0.0.5"], some true, none⟩]⟩
    ).insert "agents-a" ⟨"agents-a", [⟨7443, "grpc"⟩], [⟨["10.0.0.5"], some true, none⟩]⟩

theorem flatten_lists_agent_twice :
    flatten .forwards .insertion movedAgent 7443 =
        [⟨"agents-a/10.0.0.5", "10.0.0.5:7443"⟩, ⟨"agents-b/10.0.0.5", "10.0.0.5:7443"⟩] ∧
      flatten .backwards .insertion movedAgent 7443 =
        [⟨"agents-b/10.0.0.5", "10.0.0.5:7443"⟩, ⟨"agents-a/10.0.0.5", "10.0.0.5:7443"⟩] ∧
      ∃ f, (Fleet.seed []).reconcileFleet
          ⟨agentEndpoints (flatten .forwards .insertion movedAgent 7443), [],
            [⟨"agents-a/10.0.0.5", ⟨"agents-a/10.0.0.5", "10.0.0.5:7443"⟩⟩,
              ⟨"agents-b/10.0.0.5", ⟨"agents-b/10.0.0.5", "10.0.0.5:7443"⟩⟩]⟩ = some f ∧
        f.runs = [⟨"agents-a/10.0.0.5", "10.0.0.5:7443", false⟩,
          ⟨"agents-b/10.0.0.5", "10.0.0.5:7443", false⟩] := by
  refine ⟨by decide +kernel, by decide +kernel, ?_⟩
  have hruns : ((Fleet.seed []).reconcileFleet
      ⟨agentEndpoints (flatten .forwards .insertion movedAgent 7443), [],
        [⟨"agents-a/10.0.0.5", ⟨"agents-a/10.0.0.5", "10.0.0.5:7443"⟩⟩,
          ⟨"agents-b/10.0.0.5", ⟨"agents-b/10.0.0.5", "10.0.0.5:7443"⟩⟩]⟩).map Fleet.runs =
      some [⟨"agents-a/10.0.0.5", "10.0.0.5:7443", false⟩,
        ⟨"agents-b/10.0.0.5", "10.0.0.5:7443", false⟩] := by
    decide +kernel
  exact Option.map_eq_some_iff.mp hruns

end KloudlensAggregator.Aggregator
