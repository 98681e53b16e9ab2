import Mathlib.Data.List.Sort
import Mathlib.Data.String.Basic
import KloudlensAggregator.Foundation.GoMap
import KloudlensAggregator.Foundation.HostPort

/-!
# The agents behind a Service

`flatten` turns the slices of the agents' Service into a list of endpoints sorted by
address.  Go ranges over the slices in any order, and `sort.Slice` is not stable.
-/

namespace KloudlensAggregator.Discovery.EndpointSlice

open KloudlensAggregator.Foundation

structure Endpoint where
  name : String
  addr : String
  deriving DecidableEq, Repr

structure SlicePort where
  port : Int32
  name : String

structure SliceEndpoint where
  addresses : List String
  ready : Option Bool
  terminating : Option Bool

structure SliceObject where
  name : String
  ports : List SlicePort
  endpoints : List SliceEndpoint

def pickPort (s : SliceObject) (want : Int32) : Int32 :=
  match s.ports with
  | [] => 0
  | first :: _ =>
      if want = 0 then first.port
      else
        match s.ports.find? fun p => p.port = want with
        | some p => p.port
        | none => 0

def endpointReady (ep : SliceEndpoint) : Bool :=
  match ep.ready with
  | none =>
      match ep.terminating with
      | none => true
      | some terminating => !terminating
  | some ready => ready

def endpointAt (slice : SliceObject) (port : Int32) (addr : String) : Endpoint :=
  ⟨slice.name ++ "/" ++ addr, addr ++ ":" ++ itoa port.toInt⟩

def endpointsOf (targetPort : Int32) (slice : SliceObject) : List Endpoint :=
  let port := pickPort slice targetPort
  if port = 0 then []
  else
    slice.endpoints.flatMap fun ep =>
      if endpointReady ep then ep.addresses.map (endpointAt slice port) else []

/-- Any way `sort.Slice` may arrange endpoints by address. -/
structure AddrSort where
  sort : List Endpoint → List Endpoint
  perm : ∀ endpoints, (sort endpoints).Perm endpoints
  sorted : ∀ endpoints, (sort endpoints).Pairwise fun e e' => e.addr ≤ e'.addr

def AddrSort.insertion : AddrSort where
  sort := List.insertionSort fun e e' => e.addr ≤ e'.addr
  perm := List.perm_insertionSort _
  sorted := by
    have htotal : Std.Total fun e e' : Endpoint => e.addr ≤ e'.addr :=
      ⟨fun e e' => le_total e.addr e'.addr⟩
    have htrans : IsTrans Endpoint fun e e' => e.addr ≤ e'.addr :=
      ⟨fun _ _ _ => le_trans⟩
    exact List.pairwise_insertionSort _

def flatten (order : RangeOrder String SliceObject) (sort : AddrSort)
    (state : GoMap String SliceObject) (targetPort : Int32) : List Endpoint :=
  sort.sort ((order.values state).flatMap (endpointsOf targetPort))

/-! ## Ready addresses -/

def agentsOf (targetPort : Int32) (slice : SliceObject) : List String :=
  if pickPort slice targetPort = 0 then []
  else slice.endpoints.flatMap fun ep => if endpointReady ep then ep.addresses else []

def hostText (addr : String) : Option String :=
  (splitLastColon addr.toList).map fun split => String.ofList split.1

def Endpoint.host (e : Endpoint) : Option String := hostText e.addr

@[simp] theorem host_endpointAt (slice : SliceObject) (port : Int32) (addr : String) :
    (endpointAt slice port addr).host = some addr := by
  have hlist : (endpointAt slice port addr).addr.toList =
      addr.toList ++ ':' :: (itoa port.toInt).toList := by
    simp [endpointAt]
  rw [Endpoint.host, hostText, hlist, splitLastColon_append (colon_not_mem_itoa _), Option.map_some,
    String.ofList_toList]

theorem endpointsOf_eq (targetPort : Int32) (slice : SliceObject) :
    endpointsOf targetPort slice =
      (agentsOf targetPort slice).map (endpointAt slice (pickPort slice targetPort)) := by
  unfold endpointsOf agentsOf
  dsimp only
  by_cases hport : pickPort slice targetPort = 0
  · simp [hport]
  · rw [if_neg hport, if_neg hport, List.map_flatMap]
    refine List.flatMap_congr fun ep _ => ?_
    split <;> simp

section Flatten

variable {order order' : RangeOrder String SliceObject} {sort sort' : AddrSort}
  {state : GoMap String SliceObject} {targetPort : Int32} {e e' : Endpoint}

theorem flatten_perm (order order' : RangeOrder String SliceObject) (sort sort' : AddrSort)
    (state : GoMap String SliceObject) (targetPort : Int32) :
    (flatten order sort state targetPort).Perm (flatten order' sort' state targetPort) :=
  ((sort.perm _).trans ((order.values_perm order' state).flatMap_right _)).trans
    (sort'.perm _).symm

theorem mem_flatten : e ∈ flatten order sort state targetPort ↔
    ∃ slice ∈ RangeOrder.forwards.values state, ∃ addr ∈ agentsOf targetPort slice,
      e = endpointAt slice (pickPort slice targetPort) addr := by
  rw [(flatten_perm order .forwards sort .insertion state targetPort).mem_iff, flatten,
    (AddrSort.insertion.perm _).mem_iff, List.mem_flatMap]
  simp only [endpointsOf_eq, List.mem_map, eq_comm]

private theorem map_host_flatten (order : RangeOrder String SliceObject) (sort : AddrSort)
    (state : GoMap String SliceObject) (targetPort : Int32) :
    ((flatten order sort state targetPort).map Endpoint.host).Perm
      (((RangeOrder.forwards.values state).flatMap (agentsOf targetPort)).map some) := by
  have hhosts : ((RangeOrder.forwards.values state).flatMap (endpointsOf targetPort)).map
      Endpoint.host =
      ((RangeOrder.forwards.values state).flatMap (agentsOf targetPort)).map some := by
    rw [List.map_flatMap, List.map_flatMap]
    refine List.flatMap_congr fun slice _ => ?_
    rw [endpointsOf_eq, List.map_map]
    exact List.map_congr_left fun addr _ => host_endpointAt slice _ addr
  rw [← hhosts]
  exact ((flatten_perm order .forwards sort .insertion state targetPort).trans
    (AddrSort.insertion.perm _)).map _

/-- The ready addresses of slices with a usable port, each once. -/
def DistinctAgents (state : GoMap String SliceObject) (targetPort : Int32) : Prop :=
  ((RangeOrder.forwards.values state).flatMap (agentsOf targetPort)).Nodup

theorem nodup_host_flatten_iff :
    ((flatten order sort state targetPort).map Endpoint.host).Nodup ↔
      DistinctAgents state targetPort := by
  rw [(map_host_flatten order sort state targetPort).nodup_iff,
    List.nodup_map_iff (Option.some_injective _), DistinctAgents]

theorem eq_of_host_eq (hdistinct : DistinctAgents state targetPort)
    (he : e ∈ flatten order sort state targetPort) (he' : e' ∈ flatten order sort state targetPort)
    (hhost : e.host = e'.host) : e = e' :=
  List.inj_on_of_nodup_map (nodup_host_flatten_iff.mpr hdistinct) he he' hhost

theorem flatten_strictly_sorted (hdistinct : DistinctAgents state targetPort) :
    (flatten order sort state targetPort).Pairwise fun e e' => e.addr < e'.addr := by
  have hhosts : (flatten order sort state targetPort).Pairwise fun e e' => e.host ≠ e'.host :=
    List.pairwise_map.mp (nodup_host_flatten_iff.mpr hdistinct)
  refine ((sort.sorted _).and hhosts).imp ?_
  rintro e e' ⟨hle, hhost⟩
  refine lt_of_le_of_ne hle fun haddr => hhost ?_
  rw [Endpoint.host, Endpoint.host, haddr]

theorem flatten_order_free (hdistinct : DistinctAgents state targetPort) :
    flatten order sort state targetPort = flatten order' sort' state targetPort := by
  refine List.Perm.eq_of_pairwise ?_ (sort.sorted _) (sort'.sorted _)
    (flatten_perm order order' sort sort' state targetPort)
  intro e e' he he' hle hge
  have hmem := (flatten_perm order order' sort sort' state targetPort).mem_iff.mpr he'
  refine eq_of_host_eq hdistinct he hmem ?_
  rw [Endpoint.host, Endpoint.host, le_antisymm hle hge]

end Flatten

end KloudlensAggregator.Discovery.EndpointSlice
