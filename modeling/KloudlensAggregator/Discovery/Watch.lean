import Mathlib.Data.String.Basic
import KloudlensAggregator.Foundation.Overwrite
import KloudlensAggregator.Discovery.PodIndex
import KloudlensAggregator.Discovery.ServiceIndex

/-!
# The cluster watch

The Services, EndpointSlices and Pods of a cluster are kept in one map for each
kind, and every `apply` rebuilds a part of the two indexes in a pass over such a
map.  Go chooses the order of every pass, so it is a parameter here.
-/

namespace KloudlensAggregator.Discovery

open KloudlensAggregator.Foundation

/-! ## Objects -/

structure ObjMeta where
  namespace_ : String
  name : String

/-- What `json.Unmarshal` makes of the text of an object: its metadata, and the
fields its kind has. -/
structure RawObject (O : Type) where
  objMeta : Option ObjMeta
  object : Option O

structure NamedPort where
  name : String
  port : Int32

structure ServiceObject where
  namespace_ : String
  name : String
  clusterIP : String
  clusterIPs : List String
  ports : List NamedPort

structure TargetRef where
  kind : String
  namespace_ : String
  name : String

structure SliceEndpoint where
  addresses : List String
  ready : Option Bool
  terminating : Option Bool
  targetRef : Option TargetRef

structure SvcSliceObject where
  namespace_ : String
  labels : GoMap String String
  ports : List NamedPort
  endpoints : List SliceEndpoint

structure PodObject where
  name : String
  namespace_ : String
  hostNetwork : Bool
  podIP : String
  podIPs : List String
  phase : String

section State

variable {O : Type}

def keyOf (raw : RawObject O) : Option String :=
  match raw.objMeta with
  | none => none
  | some m => if m.name = "" then none else some (m.namespace_ ++ "/" ++ m.name)

def listed (items : List (RawObject O)) : GoMap String (RawObject O) :=
  items.foldl (fun state item =>
    match keyOf item with
    | some key => state.insert key item
    | none => state) ∅

def objectsIn (order : RangeOrder String (RawObject O)) (state : GoMap String (RawObject O)) :
    List O :=
  (order.values state).filterMap RawObject.object

end State

/-! ## Services -/

def clusterIPsOf (so : ServiceObject) : List String :=
  (so.clusterIP :: so.clusterIPs).foldl (fun out ip =>
    if ip = "" ∨ ip = "None" then out
    else if ip ∈ out then out
    else out ++ [ip]) []

def servicePorts (so : ServiceObject) : List SvcPortRef :=
  (so.ports.filter fun p => p.port ≠ 0).map fun p => ⟨p.port, p.name⟩

def addService (out : GoMap String ServiceEntry) (so : ServiceObject) :
    GoMap String ServiceEntry :=
  if so.name = "" then out
  else if (servicePorts so).length = 0 then out
  else
    (clusterIPsOf so).foldl
      (fun out ip => out.insert ip ⟨so.namespace_, so.name, servicePorts so⟩) out

/-! ## EndpointSlices -/

def sliceEndpointReady (ready terminating : Option Bool) : Bool :=
  match ready with
  | none =>
      match terminating with
      | none => true
      | some terminating => !terminating
  | some ready => ready

structure SliceAcc where
  ports : GoMap String Int32
  ips : GoMap String Unit

def sliceKey (so : SvcSliceObject) : Option String :=
  let svcName := (so.labels.lookup "kubernetes.io/service-name").getD ""
  if svcName = "" then none else some (so.namespace_ ++ "/" ++ svcName)

def readyAddresses (so : SvcSliceObject) : List String :=
  so.endpoints.flatMap fun ep =>
    if sliceEndpointReady ep.ready ep.terminating then ep.addresses else []

def SliceAcc.add (g : SliceAcc) (so : SvcSliceObject) : SliceAcc where
  ports := so.ports.foldl (fun m p => if p.port ≠ 0 then m.insert p.name p.port else m) g.ports
  ips := (readyAddresses so).foldl (fun m ip => m.insert ip ()) g.ips

def addSlice (groups : GoMap String SliceAcc) (so : SvcSliceObject) : GoMap String SliceAcc :=
  match sliceKey so with
  | none => groups
  | some key => groups.insert key (((groups.lookup key).getD ⟨∅, ∅⟩).add so)

def slicePorts (so : SvcSliceObject) : List Int32 :=
  (so.ports.map NamedPort.port).filter (· ≠ 0)

def endpointPod (so : SvcSliceObject) (ep : SliceEndpoint) : Option PodRef :=
  if sliceEndpointReady ep.ready ep.terminating then
    match ep.targetRef with
    | none => none
    | some ref =>
        if ref.kind ≠ "Pod" ∨ ref.name = "" then none
        else some ⟨if ref.namespace_ = "" then so.namespace_ else ref.namespace_, ref.name⟩
  else none

def containsPort (ports : List Int32) (port : Int32) : Bool := ports.any (· = port)

structure Placement where
  ip : String
  pod : PodRef
  ports : List Int32

def placements (so : SvcSliceObject) : List Placement :=
  so.endpoints.flatMap fun ep =>
    match endpointPod so ep with
    | none => []
    | some pod => ep.addresses.map fun ip => ⟨ip, pod, slicePorts so⟩

def addPort (ports : List Int32) (port : Int32) : List Int32 :=
  if containsPort ports port then ports else ports ++ [port]

def place (byIP : GoMap String PodEndpointEntry) (turn : Placement) :
    GoMap String PodEndpointEntry :=
  let e := (byIP.lookup turn.ip).getD ⟨turn.ip, [], turn.pod.namespace_, turn.pod.pod⟩
  byIP.insert turn.ip { e with ports := turn.ports.foldl addPort e.ports }

/-- Every pass over a map, with its order. -/
structure RangeOrders where
  services : RangeOrder String (RawObject ServiceObject)
  slices : RangeOrder String (RawObject SvcSliceObject)
  groups : RangeOrder String SliceAcc
  ips : String → RangeOrder String Unit
  entrySlices : RangeOrder String (RawObject SvcSliceObject)
  byIP : RangeOrder String PodEndpointEntry
  pods : RangeOrder String (RawObject PodObject)

def RangeOrders.forwards : RangeOrders :=
  ⟨.forwards, .forwards, .forwards, fun _ => .forwards, .forwards, .forwards, .forwards⟩

def RangeOrders.backwards : RangeOrders :=
  ⟨.backwards, .backwards, .backwards, fun _ => .backwards, .backwards, .backwards, .backwards⟩

def placed (orders : RangeOrders) (state : GoMap String (RawObject SvcSliceObject)) :
    GoMap String PodEndpointEntry :=
  ((objectsIn orders.entrySlices state).flatMap placements).foldl place ∅

def podEntriesFromSlices (orders : RangeOrders)
    (state : GoMap String (RawObject SvcSliceObject)) : List PodEndpointEntry :=
  let out := (orders.byIP.values (placed orders state)).map fun e =>
    { e with ports := e.ports.insertionSort (· ≤ ·) }
  out.insertionSort fun e e' => e.ip ≤ e'.ip

/-! ## Pods -/

def podAddresses (po : PodObject) : List String :=
  (if po.podIP ≠ "" then [po.podIP] else []) ++
    po.podIPs.filter fun ip => ip ≠ "" ∧ ip ≠ po.podIP

def podIdentities (po : PodObject) : List PodIdentity :=
  if po.name = "" ∨ po.hostNetwork = true ∨ po.phase ≠ "Running" then []
  else (podAddresses po).map fun ip => ⟨ip, po.namespace_, po.name⟩

/-! ## The watcher -/

structure ServiceWatcher where
  index : ServiceIndex
  podIndex : Option PodEndpointIndex

structure ClusterObjects where
  services : GoMap String (RawObject ServiceObject)
  slices : GoMap String (RawObject SvcSliceObject)
  pods : GoMap String (RawObject PodObject)

namespace ServiceWatcher

def applyServices (w : ServiceWatcher) (orders : RangeOrders)
    (state : GoMap String (RawObject ServiceObject)) : ServiceWatcher :=
  { w with
    index := w.index.setServices ((objectsIn orders.services state).foldl addService ∅) }

def replacePodEntries (w : ServiceWatcher) (orders : RangeOrders)
    (state : GoMap String (RawObject SvcSliceObject)) : ServiceWatcher :=
  { w with
    podIndex := w.podIndex.map fun idx => idx.replace (podEntriesFromSlices orders state) }

def setSliceGroups (w : ServiceWatcher) (orders : RangeOrders)
    (state : GoMap String (RawObject SvcSliceObject)) : ServiceWatcher :=
  let groups := (objectsIn orders.slices state).foldl addSlice ∅
  { w with
    index := w.index.setSlices <|
      (orders.groups.visit groups).foldl (fun out e =>
        out.insert e.1 ⟨e.2.ports, ((orders.ips e.1).keys e.2.ips).insertionSort (· ≤ ·)⟩) ∅ }

-- each of the two indexes has its own lock, and the pods come first
def applySlices (w : ServiceWatcher) (orders : RangeOrders)
    (state : GoMap String (RawObject SvcSliceObject)) : ServiceWatcher :=
  (w.replacePodEntries orders state).setSliceGroups orders state

def applyPods (w : ServiceWatcher) (orders : RangeOrders)
    (state : GoMap String (RawObject PodObject)) : ServiceWatcher :=
  { w with
    podIndex := w.podIndex.map fun idx =>
      idx.replacePodIdentities ((objectsIn orders.pods state).flatMap podIdentities) }

def apply (w : ServiceWatcher) (orders : RangeOrders) (objects : ClusterObjects) :
    ServiceWatcher :=
  ((w.applyServices orders objects.services).applySlices orders objects.slices).applyPods orders
    objects.pods

def resolveVIP (w : ServiceWatcher) (addr : String) : Option (List String × String × String) :=
  w.index.resolveVIP addr

def resolvePodAddr (w : ServiceWatcher) (addr : String) : Option String :=
  w.podIndex.bind fun idx => idx.resolvePodAddr addr

def podForIP (w : ServiceWatcher) (ip : String) : Option (String × String) :=
  w.podIndex.bind fun idx => idx.podForIP ip

end ServiceWatcher

end KloudlensAggregator.Discovery
