import KloudlensAggregator.Foundation.GoMap
import KloudlensAggregator.Foundation.HostPort

/-!
# The pod endpoint index

Which pod owns an address, and on which target ports it serves.  Both halves are
replaced as a whole, one from EndpointSlices and one from the pods themselves.
-/

namespace KloudlensAggregator.Discovery

open KloudlensAggregator.Foundation

structure PodRef where
  namespace_ : String
  pod : String
  deriving DecidableEq, Repr

structure PodIdentity where
  ip : String
  namespace_ : String
  pod : String
  deriving DecidableEq, Repr

structure PodEndpointEntry where
  ip : String
  ports : List Int32
  namespace_ : String
  pod : String
  deriving DecidableEq, Repr

/-- What `Replace` builds.  The ports are written by `strconv.Itoa`. -/
structure Endpoints where
  addrs : GoMap String Unit
  ports : GoMap String (List String)
  byIP : GoMap String PodRef
  numeric : ∀ ip, ∀ port ∈ (ports.lookup ip).getD [], ∃ p : Int32, port = itoa p.toInt

structure PodEndpointIndex extends Endpoints where
  podIP : GoMap String PodRef

namespace Endpoints

def empty : Endpoints := ⟨∅, ∅, ∅, by simp⟩

def addPort (ip : String) (m : Endpoints) (p : Int32) : Endpoints :=
  let known := (m.ports.lookup ip).getD []
  { m with
    addrs := m.addrs.insert (ip ++ ":" ++ itoa p.toInt) ()
    ports := if itoa p.toInt ∈ known then m.ports
      else m.ports.insert ip (known ++ [itoa p.toInt])
    numeric := by
      intro ip' port hport
      split at hport
      · exact m.numeric ip' port hport
      · by_cases hip : ip' = ip
        · subst hip
          rw [AList.lookup_insert, Option.getD_some, List.mem_append, List.mem_singleton] at hport
          rcases hport with hknown | rfl
          · exact m.numeric ip' port hknown
          · exact ⟨p, rfl⟩
        · rw [AList.lookup_insert_ne hip] at hport
          exact m.numeric ip' port hport }

def add (m : Endpoints) (e : PodEndpointEntry) : Endpoints :=
  let m := e.ports.foldl (addPort e.ip) m
  if e.pod ≠ "" then { m with byIP := m.byIP.insert e.ip ⟨e.namespace_, e.pod⟩ } else m

end Endpoints

def newPodEndpointIndex : PodEndpointIndex := { Endpoints.empty with podIP := ∅ }

namespace PodEndpointIndex

def replacePodIdentities (idx : PodEndpointIndex) (pods : List PodIdentity) : PodEndpointIndex :=
  { idx with
    podIP := pods.foldl (fun m p =>
      if p.ip = "" ∨ p.pod = "" then m else m.insert p.ip ⟨p.namespace_, p.pod⟩) ∅ }

def replace (idx : PodEndpointIndex) (entries : List PodEndpointEntry) : PodEndpointIndex :=
  { idx with toEndpoints := entries.foldl Endpoints.add Endpoints.empty }

def resolvePodAddr (idx : PodEndpointIndex) (connectAddr : String) : Option String :=
  match splitHostPort connectAddr with
  | none => none
  | some (host, port) =>
      if (idx.addrs.lookup connectAddr).isSome then some connectAddr
      else
        let ports := (idx.ports.lookup host).getD []
        if ports.length = 0 then none
        else if port ∈ ports then some connectAddr
        else
          match ports with
          | [target] => some (host ++ ":" ++ target)
          | _ => none

def podForIP (idx : PodEndpointIndex) (ip : String) : Option (String × String) :=
  match idx.byIP.lookup ip with
  | some ref => some (ref.namespace_, ref.pod)
  | none => (idx.podIP.lookup ip).map fun ref => (ref.namespace_, ref.pod)

@[simp] theorem replacePodIdentities_toEndpoints (idx : PodEndpointIndex)
    (pods : List PodIdentity) :
    (idx.replacePodIdentities pods).toEndpoints = idx.toEndpoints := rfl

theorem resolvePodAddr_host {idx : PodEndpointIndex} {connectAddr podAddr host port : String}
    (hresolve : idx.resolvePodAddr connectAddr = some podAddr)
    (hsplit : splitHostPort podAddr = some (host, port)) :
    ∃ connectPort, splitHostPort connectAddr = some (host, connectPort) := by
  unfold resolvePodAddr at hresolve
  split at hresolve
  · cases hresolve
  · rename_i connectHost connectPort hconnect
    dsimp only at hresolve
    split at hresolve
    · cases hresolve
      exact ⟨port, hsplit⟩
    · split at hresolve
      · cases hresolve
      · split at hresolve
        · cases hresolve
          exact ⟨port, hsplit⟩
        · split at hresolve
          · rename_i target hports
            cases hresolve
            obtain ⟨p, rfl⟩ := idx.numeric connectHost target (by rw [hports]; simp)
            obtain ⟨rfl, -⟩ := splitHostPort_joined hconnect (colon_not_mem_itoa _) hsplit
            exact ⟨connectPort, hconnect⟩
          · cases hresolve

example :
    let idx := newPodEndpointIndex.replace [⟨"10.0.0.1", [8080], "shop", "web"⟩]
    idx.resolvePodAddr "10.0.0.1:80" = some "10.0.0.1:8080" ∧
      idx.podForIP "10.0.0.1" = some ("shop", "web") ∧
      idx.resolvePodAddr "10.0.0.2:80" = none := by
  decide +kernel

end PodEndpointIndex

end KloudlensAggregator.Discovery
