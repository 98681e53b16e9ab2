import KloudlensAggregator.ClusterPeers.Ownership

/-!
# The port that was connected to

An exact entry of the address a connect names always answers.  A wildcard bind of the
pod on the port of the connect comes last: when the pod serves a single other target
port and a listener is live there, `Join` folds the connect to that listener.
-/

namespace KloudlensAggregator.ClusterPeers

open KloudlensAggregator.Foundation
open KloudlensAggregator.Discovery

namespace Registry

variable {r : Registry} {idx : PodEndpointIndex} {svc : ServiceIndex} {now : Int}
  {connectAddr host port : String}

/-- The connect is folded to the single target port of the pod, another one than `port`,
and this listener is live there. -/
def FoldsTo (r : Registry) (idx : PodEndpointIndex) (svc : ServiceIndex) (now : Int)
    (connectAddr host port : String) (l : Listener) : Prop :=
  ∃ target, (idx.ports.lookup host).getD [] = [target] ∧ target ≠ port ∧
    idx.resolvePodAddr connectAddr = some (host ++ ":" ++ target) ∧
    r.liveAt (wired idx svc) now (host ++ ":" ++ target) = some l

private theorem joinEndpointslice_wired (r : Registry) (idx : PodEndpointIndex)
    (svc : ServiceIndex) (connectAddr : String) (now : Int) :
    r.joinEndpointslice (wired idx svc) connectAddr now =
      (idx.resolvePodAddr connectAddr).bind (r.liveAt (wired idx svc) now) := by
  simp only [joinEndpointslice, wired]
  cases idx.resolvePodAddr connectAddr <;> rfl

private theorem resolvePodAddr_of_ne {podAddr : String}
    (hsplit : splitHostPort connectAddr = some (host, port))
    (hresolve : idx.resolvePodAddr connectAddr = some podAddr) (hne : podAddr ≠ connectAddr) :
    ∃ target, (idx.ports.lookup host).getD [] = [target] ∧ target ≠ port ∧
      podAddr = host ++ ":" ++ target := by
  simp only [PodEndpointIndex.resolvePodAddr, hsplit] at hresolve
  split at hresolve
  · cases hresolve
    exact absurd rfl hne
  · split at hresolve
    · cases hresolve
    · split at hresolve
      · cases hresolve
        exact absurd rfl hne
      · rename_i hport
        split at hresolve
        · rename_i target htarget
          cases hresolve
          refine ⟨target, htarget, ?_, rfl⟩
          rintro rfl
          rw [htarget] at hport
          exact hport List.mem_cons_self
        · cases hresolve

private theorem liveWild_of_own {ns pod : String} {own : Listener}
    (hsplit : splitHostPort connectAddr = some (host, port)) (hport : port ≠ "")
    (hpod : idx.podForIP host = some (ns, pod))
    (hown : r.liveEntry now (.wild (":" ++ port) (podIdent ns pod)) = some own) :
    r.liveWild (wired idx svc) connectAddr now = some own := by
  rw [liveWild_eq, hsplit]
  simp only [hport, if_false, wired, hpod, liveWildPod_eq, hown]

theorem join_prefers_connected_port (r : Registry) (idx : PodEndpointIndex) (svc : ServiceIndex)
    (now : Int) (connectAddr host port : String)
    (hsplit : splitHostPort connectAddr = some (host, port)) (hport : port ≠ "") :
    (∀ l, r.liveEntry now (.exact connectAddr) = some l →
      stillOwns (wired idx svc) l connectAddr = true →
      r.join (wired idx svc) connectAddr now = some (l, .direct)) ∧
    ∀ ns pod own, idx.podForIP host = some (ns, pod) →
      r.liveEntry now (.wild (":" ++ port) (podIdent ns pod)) = some own →
      r.liveExact (wired idx svc) connectAddr now = none →
      (∀ l, r.FoldsTo idx svc now connectAddr host port l →
        r.join (wired idx svc) connectAddr now = some (l, .endpointslice)) ∧
      ((∀ l, ¬ r.FoldsTo idx svc now connectAddr host port l) →
        r.joinServiceVIP (wired idx svc) connectAddr now = none →
        ∃ how, r.join (wired idx svc) connectAddr now = some (own, how)) := by
  refine ⟨?_, ?_⟩
  · intro l hlive howns
    have hexact : r.liveExact (wired idx svc) connectAddr now = some l := by
      rw [liveExact_eq, hlive, Option.filter_some, howns, if_pos rfl]
    simp only [join, hexact]
  intro ns pod own hpod hown hexact
  have hwild : r.liveWild (wired idx svc) connectAddr now = some own :=
    liveWild_of_own hsplit hport hpod hown
  constructor
  · rintro l ⟨target, -, -, hresolve, hlive⟩
    have hslice : r.joinEndpointslice (wired idx svc) connectAddr now = some l := by
      rw [joinEndpointslice_wired, hresolve, Option.bind_some, hlive]
    simp only [join, hexact, hslice]
  · intro hunfolded hservice
    cases hresolve : idx.resolvePodAddr connectAddr with
    | none =>
        have hslice : r.joinEndpointslice (wired idx svc) connectAddr now = none := by
          rw [joinEndpointslice_wired, hresolve, Option.bind_none]
        exact ⟨.wildcard, by simp only [join, hexact, hslice, hservice, hwild]⟩
    | some podAddr =>
        by_cases hsame : podAddr = connectAddr
        · subst hsame
          have hslice : r.joinEndpointslice (wired idx svc) podAddr now = some own := by
            rw [joinEndpointslice_wired, hresolve, Option.bind_some]
            simp only [liveAt, hexact, hwild]
          exact ⟨.endpointslice, by simp only [join, hexact, hslice]⟩
        · have hslice : r.joinEndpointslice (wired idx svc) connectAddr now = none := by
            rw [joinEndpointslice_wired, hresolve, Option.bind_some,
              Option.eq_none_iff_forall_ne_some]
            intro l hlive
            obtain ⟨target, htarget, hne, rfl⟩ := resolvePodAddr_of_ne hsplit hresolve hsame
            exact hunfolded l ⟨target, htarget, hne, hresolve, hlive⟩
          exact ⟨.wildcard, by simp only [join, hexact, hslice, hservice, hwild]⟩

/-! ## A pod with two listeners -/

def twoListeners : Registry :=
  run 60 [(0, .observe (bareListener "0.0.0.0:8080" true "ns" "web")),
    (0, .observe (bareListener "0.0.0.0:9090" true "ns" "web"))]

def servesOne : PodEndpointIndex :=
  newPodEndpointIndex.replace [⟨"10.0.0.5", [8080], "ns", "web"⟩]

def servesBoth : PodEndpointIndex :=
  newPodEndpointIndex.replace [⟨"10.0.0.5", [8080, 9090], "ns", "web"⟩]

theorem join_folds_to_other_port :
    servesOne.podForIP "10.0.0.5" = some ("ns", "web") ∧
      (twoListeners.liveEntry 1 (.wild ":9090" (podIdent "ns" "web"))).map Listener.addr =
        some "0.0.0.0:9090" ∧
      (twoListeners.join (wired servesOne newServiceIndex) "10.0.0.5:9090" 1).map
        (fun p => (p.1.addr, p.2)) = some ("0.0.0.0:8080", .endpointslice) := by
  decide +kernel

theorem join_prefers_connected_port_servesBoth :
    ∃ own how, own.addr = "0.0.0.0:9090" ∧
      twoListeners.join (wired servesBoth newServiceIndex) "10.0.0.5:9090" 1 = some (own, how) := by
  have hown : (twoListeners.liveEntry 1 (.wild ":9090" (podIdent "ns" "web"))).map Listener.addr =
      some "0.0.0.0:9090" := by
    decide +kernel
  have hports : (servesBoth.ports.lookup "10.0.0.5").getD [] = ["8080", "9090"] := by
    decide +kernel
  obtain ⟨own, hown, haddr⟩ := Option.map_eq_some_iff.mp hown
  obtain ⟨-, hwild⟩ := join_prefers_connected_port twoListeners servesBoth newServiceIndex 1
    "10.0.0.5:9090" "10.0.0.5" "9090" (by decide +kernel) (by decide)
  obtain ⟨-, hjoin⟩ := hwild "ns" "web" own (by decide +kernel) hown (by decide +kernel)
  obtain ⟨how, hjoin⟩ := hjoin (by
    rintro l ⟨target, htarget, -⟩
    rw [hports] at htarget
    exact absurd htarget (by simp)) (by decide +kernel)
  exact ⟨own, how, haddr, hjoin⟩

end Registry

end KloudlensAggregator.ClusterPeers
