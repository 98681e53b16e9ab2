import KloudlensAggregator.Foundation.GoMap
import KloudlensAggregator.Foundation.HostPort

/-!
# The service index

Services by cluster address and their EndpointSlices by name, and the resolution
of a cluster address and port to the addresses of the ready pods behind it.
-/

namespace KloudlensAggregator.Discovery

open KloudlensAggregator.Foundation

structure SvcPortRef where
  port : Int32
  name : String
  deriving DecidableEq, Repr

structure ServiceEntry where
  namespace_ : String
  name : String
  ports : List SvcPortRef
  deriving DecidableEq, Repr

structure SliceGroup where
  ports : GoMap String Int32
  podIPs : List String

structure ServiceIndex where
  services : GoMap String ServiceEntry
  slices : GoMap String SliceGroup

def newServiceIndex : ServiceIndex := ⟨∅, ∅⟩

namespace ServiceIndex

def setServices (idx : ServiceIndex) (m : GoMap String ServiceEntry) : ServiceIndex :=
  { idx with services := m }

def setSlices (idx : ServiceIndex) (m : GoMap String SliceGroup) : ServiceIndex :=
  { idx with slices := m }

/-- The addresses of the backends, and the namespace and name of the Service. -/
def resolveVIP (idx : ServiceIndex) (addr : String) : Option (List String × String × String) := do
  let (host, portStr) ← splitHostPort addr
  let port ← atoi portStr
  let svc ← idx.services.lookup host
  let portRef ← svc.ports.find? fun p => p.port.toInt = port
  let group ← idx.slices.lookup (svc.namespace_ ++ "/" ++ svc.name)
  let targetPort ← group.ports.lookup portRef.name
  if targetPort = 0 ∨ group.podIPs.length = 0 then none
  else
    some (group.podIPs.map fun ip => ip ++ ":" ++ itoa targetPort.toInt, svc.namespace_, svc.name)

theorem resolveVIP_eq_some {idx : ServiceIndex} {addr : String}
    {answer : List String × String × String} :
    idx.resolveVIP addr = some answer ↔
      ∃ host portStr port svc portRef group targetPort,
        splitHostPort addr = some (host, portStr) ∧ atoi portStr = some port ∧
        idx.services.lookup host = some svc ∧
        svc.ports.find? (fun p => p.port.toInt = port) = some portRef ∧
        idx.slices.lookup (svc.namespace_ ++ "/" ++ svc.name) = some group ∧
        group.ports.lookup portRef.name = some targetPort ∧
        targetPort ≠ 0 ∧ group.podIPs ≠ [] ∧
        (group.podIPs.map fun ip => ip ++ ":" ++ itoa targetPort.toInt, svc.namespace_, svc.name) =
          answer := by
  simp only [resolveVIP, bind, Option.bind_eq_some_iff, Option.ite_none_left_eq_some,
    Option.some.injEq, not_or, List.length_eq_zero_iff, Prod.exists]
  grind

end ServiceIndex

end KloudlensAggregator.Discovery
