import Mathlib.Data.List.Dedup
import KloudlensAggregator.Discovery.Watch

/-!
# What the watch writes under a key

Each pass of the watch, seen through one key of the map it builds: which objects
write there, and whose write stays.
-/

namespace KloudlensAggregator.Discovery

open KloudlensAggregator.Foundation

section State

variable {O : Type} {state : GoMap String (RawObject O)} {object : O}

theorem objectsIn_perm (order order' : RangeOrder String (RawObject O))
    (state : GoMap String (RawObject O)) :
    (objectsIn order state).Perm (objectsIn order' state) :=
  (order.values_perm order' state).filterMap RawObject.object

theorem exists_objectsIn_first {order : RangeOrder String (RawObject O)}
    (hobject : object ∈ objectsIn order state) :
    ∃ order' rest, objectsIn order' state = object :: rest := by
  obtain ⟨raw, hraw, hdecoded⟩ := List.mem_filterMap.mp hobject
  obtain ⟨e, hentry, rfl⟩ := List.mem_map.mp hraw
  have hmem : e ∈ state.entries := (order.perm state).mem_iff.mp hentry
  obtain ⟨before, after, hentries⟩ := List.append_of_mem hmem
  have hperm : (e :: (before ++ after)).Perm state.entries := by
    rw [hentries]
    exact List.perm_middle.symm
  obtain ⟨order', hvisit⟩ := RangeOrder.exists_visit_eq hperm
  refine ⟨order', ((before ++ after).map Sigma.snd).filterMap RawObject.object, ?_⟩
  rw [objectsIn, RangeOrder.values, hvisit, List.map_cons]
  exact List.filterMap_cons_some hdecoded

theorem exists_objectsIn_last {order : RangeOrder String (RawObject O)}
    (hobject : object ∈ objectsIn order state) :
    ∃ order' rest, objectsIn order' state = rest ++ [object] := by
  obtain ⟨order', rest, hfirst⟩ := exists_objectsIn_first hobject
  have hperm : (order'.visit state).reverse.Perm state.entries :=
    (List.reverse_perm _).trans (order'.perm state)
  obtain ⟨order'', hvisit⟩ := RangeOrder.exists_visit_eq hperm
  refine ⟨order'', rest.reverse, ?_⟩
  rw [← List.reverse_cons, ← hfirst]
  simp only [objectsIn, RangeOrder.values, hvisit, List.map_reverse, List.filterMap_reverse]

theorem exists_writer {β : Type} {write : O → Option β} {value : β}
    {order : RangeOrder String (RawObject O)} (order' : RangeOrder String (RawObject O))
    (h : (objectsIn order state).reverse.findSome? write = some value) :
    ∃ object ∈ objectsIn order' state, write object = some value := by
  -- The last writer of one pass is among the objects of any other.
  obtain ⟨object, hobject, hwrite⟩ := List.exists_of_findSome?_eq_some h
  exact ⟨object, (objectsIn_perm order order' state).mem_iff.mp (List.mem_reverse.mp hobject),
    hwrite⟩

theorem exists_written {β : Type} {write : O → Option β} {value : β}
    {order : RangeOrder String (RawObject O)} (order' : RangeOrder String (RawObject O))
    (hobject : object ∈ objectsIn order state) (hwrite : write object = some value) :
    ∃ found, (objectsIn order' state).reverse.findSome? write = some found :=
  exists_findSome?_eq
    (List.mem_reverse.mpr ((objectsIn_perm order order' state).mem_iff.mp hobject)) hwrite

end State

/-! ## Services -/

theorem mem_clusterIPsOf {so : ServiceObject} {ip : String} :
    ip ∈ clusterIPsOf so ↔ ip ≠ "" ∧ ip ≠ "None" ∧ (ip = so.clusterIP ∨ ip ∈ so.clusterIPs) := by
  rw [clusterIPsOf, foldl_collects (ip ∈ ·) fun listed => ip = listed ∧ ip ≠ "" ∧ ip ≠ "None"]
  · simp only [List.not_mem_nil, false_or, List.mem_cons, exists_eq_or_imp]
    grind
  · intro out listed
    grind

def entered (ip : String) (so : ServiceObject) : Option ServiceEntry :=
  if so.name = "" ∨ (servicePorts so).length = 0 ∨ ip ∉ clusterIPsOf so then none
  else some ⟨so.namespace_, so.name, servicePorts so⟩

private theorem lookup_addService (out : GoMap String ServiceEntry) (so : ServiceObject)
    (ip : String) :
    (addService out so).lookup ip = (entered ip so).or (out.lookup ip) := by
  unfold addService entered
  by_cases hname : so.name = ""
  · simp [hname]
  · by_cases hports : (servicePorts so).length = 0
    · simp [hname, hports]
    · rw [if_neg hname, if_neg hports, foldl_last_writer (AList.lookup ip) _ fun out listed =>
        GoMap.lookup_insert_or out listed ip _, findSome?_ite_eq]
      by_cases hmem : ip ∈ clusterIPsOf so <;> simp [hname, hports, hmem]

theorem lookup_services (services : List ServiceObject) (ip : String) :
    (services.foldl addService ∅).lookup ip = services.reverse.findSome? (entered ip) := by
  rw [foldl_last_writer (AList.lookup ip) (entered ip) fun out so => lookup_addService out so ip]
  simp

/-! ## EndpointSlices -/

def targetPort (name : String) (so : SvcSliceObject) : Option Int32 :=
  so.ports.reverse.findSome? fun p =>
    if p.port ≠ 0 then if p.name = name then some p.port else none else none

def targetFor (key name : String) (so : SvcSliceObject) : Option Int32 :=
  if sliceKey so = some key then targetPort name so else none

theorem SliceAcc.lookup_add_ports (g : SliceAcc) (so : SvcSliceObject) (name : String) :
    (g.add so).ports.lookup name = (targetPort name so).or (g.ports.lookup name) := by
  refine foldl_last_writer (AList.lookup name) _ ?_ so.ports g.ports
  intro m p
  by_cases hport : p.port ≠ 0
  · rw [if_pos hport, if_pos hport]
    exact GoMap.lookup_insert_or m p.name name p.port
  · rw [if_neg hport, if_neg hport, Option.none_or]

theorem SliceAcc.mem_add_ips {g : SliceAcc} {so : SvcSliceObject} {ip : String} :
    ((g.add so).ips.lookup ip).isSome ↔ (g.ips.lookup ip).isSome ∨ ip ∈ readyAddresses so := by
  rw [SliceAcc.add, foldl_collects (fun m => (AList.lookup ip m).isSome = true) (· = ip)]
  · simp
  · intro m ip'
    rw [GoMap.lookup_insert_or]
    by_cases hip : ip' = ip <;> simp [hip]

/-- What the slices gathered for a Service say of a port name, and of an address. -/
def groupTarget (groups : GoMap String SliceAcc) (key name : String) : Option Int32 :=
  (groups.lookup key).bind fun g => g.ports.lookup name

def GroupReady (groups : GoMap String SliceAcc) (key ip : String) : Prop :=
  ((groups.lookup key).bind fun g => g.ips.lookup ip).isSome = true

private theorem groupTarget_addSlice (groups : GoMap String SliceAcc) (so : SvcSliceObject)
    (key name : String) :
    groupTarget (addSlice groups so) key name =
      (targetFor key name so).or (groupTarget groups key name) := by
  unfold addSlice targetFor
  cases hkey : sliceKey so with
  | none => simp
  | some key' =>
      dsimp only
      by_cases heq : key' = key
      · subst heq
        rw [if_pos rfl, groupTarget, AList.lookup_insert, Option.bind_some,
          SliceAcc.lookup_add_ports]
        cases hgroup : groups.lookup key' <;> simp [groupTarget, hgroup]
      · rw [if_neg (by simpa using heq), groupTarget, AList.lookup_insert_ne (Ne.symm heq)]
        simp [groupTarget]

private theorem groupReady_addSlice (groups : GoMap String SliceAcc) (so : SvcSliceObject)
    (key ip : String) :
    GroupReady (addSlice groups so) key ip ↔
      GroupReady groups key ip ∨ (sliceKey so = some key ∧ ip ∈ readyAddresses so) := by
  unfold addSlice
  cases hkey : sliceKey so with
  | none => simp
  | some key' =>
      dsimp only
      by_cases heq : key' = key
      · subst heq
        rw [GroupReady, AList.lookup_insert, Option.bind_some, SliceAcc.mem_add_ips]
        cases hgroup : groups.lookup key' <;> simp [GroupReady, hgroup]
      · rw [GroupReady, AList.lookup_insert_ne (Ne.symm heq)]
        simp [GroupReady, heq]

theorem groupTarget_slices (slices : List SvcSliceObject) (key name : String) :
    groupTarget (slices.foldl addSlice ∅) key name =
      slices.reverse.findSome? (targetFor key name) := by
  rw [foldl_last_writer (fun groups => groupTarget groups key name) (targetFor key name)
    fun groups so => groupTarget_addSlice groups so key name]
  simp [groupTarget]

private theorem groupReady_slices (slices : List SvcSliceObject) (key ip : String) :
    GroupReady (slices.foldl addSlice ∅) key ip ↔
      ∃ so ∈ slices, sliceKey so = some key ∧ ip ∈ readyAddresses so := by
  rw [foldl_collects (fun groups => GroupReady groups key ip) _
    fun groups so => groupReady_addSlice groups so key ip]
  simp [GroupReady]

private theorem targetFor_ne_zero {key name : String} {so : SvcSliceObject} {target : Int32}
    (h : targetFor key name so = some target) : target ≠ 0 := by
  obtain ⟨-, htarget⟩ := Option.ite_none_right_eq_some.mp h
  obtain ⟨p, -, hwrite⟩ := List.exists_of_findSome?_eq_some htarget
  grind

def readyIPs (slices : List SvcSliceObject) (key : String) : List String :=
  ((slices.filter fun so => sliceKey so = some key).flatMap readyAddresses).dedup.insertionSort
    (· ≤ ·)

theorem mem_readyIPs {slices : List SvcSliceObject} {key ip : String} :
    ip ∈ readyIPs slices key ↔ ∃ so ∈ slices, sliceKey so = some key ∧ ip ∈ readyAddresses so := by
  simp [readyIPs, and_assoc]

theorem readyIPs_perm {slices slices' : List SvcSliceObject} (hperm : slices.Perm slices')
    (key : String) : readyIPs slices key = readyIPs slices' key := by
  refine insertionSort_eq_of_mem_iff (List.nodup_dedup _) (List.nodup_dedup _) ?_
  intro ip
  simp only [List.mem_dedup, List.mem_flatMap, List.mem_filter, hperm.mem_iff]

theorem sort_keys_eq_readyIPs {slices : List SvcSliceObject} {key : String} {g : SliceAcc}
    (hgroup : (slices.foldl addSlice ∅).lookup key = some g) (order : RangeOrder String Unit) :
    (order.keys g.ips).insertionSort (· ≤ ·) = readyIPs slices key := by
  refine insertionSort_eq_of_mem_iff (order.nodup_keys _) (List.nodup_dedup _) ?_
  intro ip
  have hready := groupReady_slices slices key ip
  rw [GroupReady, hgroup, Option.bind_some] at hready
  rw [RangeOrder.mem_keys, ← Option.isSome_iff_exists, hready]
  simp [and_assoc]

def ServiceEntry.key (svc : ServiceEntry) : String := svc.namespace_ ++ "/" ++ svc.name

def vipAnswer (slices : List SvcSliceObject) (svc : ServiceEntry) (target : Int32) :
    List String × String × String :=
  ((readyIPs slices svc.key).map fun ip => ip ++ ":" ++ itoa target.toInt,
    svc.namespace_, svc.name)

theorem ServiceWatcher.resolveVIP_apply_eq_some {w : ServiceWatcher} {objects : ClusterObjects}
    {orders : RangeOrders} {addr : String} {answer : List String × String × String} :
    (w.apply orders objects).resolveVIP addr = some answer ↔
      ∃ host portStr port svc portRef target,
        splitHostPort addr = some (host, portStr) ∧ atoi portStr = some port ∧
        (objectsIn orders.services objects.services).reverse.findSome? (entered host) = some svc ∧
        svc.ports.find? (fun p => p.port.toInt = port) = some portRef ∧
        (objectsIn orders.slices objects.slices).reverse.findSome?
          (targetFor svc.key portRef.name) = some target ∧
        readyIPs (objectsIn orders.slices objects.slices) svc.key ≠ [] ∧
        vipAnswer (objectsIn orders.slices objects.slices) svc target = answer := by
  have hservices : (w.apply orders objects).index.services =
      (objectsIn orders.services objects.services).foldl addService ∅ := rfl
  have hslices := RangeOrder.lookup_foldl_visit orders.groups
    ((objectsIn orders.slices objects.slices).foldl addSlice ∅) fun key g =>
      (⟨g.ports, ((orders.ips key).keys g.ips).insertionSort (· ≤ ·)⟩ : SliceGroup)
  rw [resolveVIP, ServiceIndex.resolveVIP_eq_some]
  constructor
  · rintro ⟨host, portStr, port, svc, portRef, group, target, hsplit, hatoi, hsvc, href, hgroup,
      htarget, hne, hips, hanswer⟩
    rw [hservices, lookup_services] at hsvc
    obtain ⟨g, hg, rfl⟩ := Option.map_eq_some_iff.mp ((hslices _).symm.trans hgroup)
    have hready := sort_keys_eq_readyIPs hg (orders.ips (svc.namespace_ ++ "/" ++ svc.name))
    refine ⟨host, portStr, port, svc, portRef, target, hsplit, hatoi, hsvc, href, ?_, ?_, ?_⟩
    · rw [← groupTarget_slices, groupTarget]
      exact Option.bind_eq_some_iff.mpr ⟨g, hg, htarget⟩
    · exact hready ▸ hips
    · rw [vipAnswer, ← hanswer]
      exact congrArg (fun ips : List String =>
        (ips.map fun ip => ip ++ ":" ++ itoa target.toInt, svc.namespace_, svc.name)) hready.symm
  · rintro ⟨host, portStr, port, svc, portRef, target, hsplit, hatoi, hsvc, href, htarget, hips,
      hanswer⟩
    obtain ⟨so, -, hso⟩ := List.exists_of_findSome?_eq_some htarget
    rw [← groupTarget_slices, groupTarget] at htarget
    obtain ⟨g, hg, hport⟩ := Option.bind_eq_some_iff.mp htarget
    have hready := sort_keys_eq_readyIPs hg (orders.ips svc.key)
    refine ⟨host, portStr, port, svc, portRef, _, target, hsplit, hatoi, ?_, href,
      (hslices _).trans (Option.map_eq_some_iff.mpr ⟨g, hg, rfl⟩), hport,
      targetFor_ne_zero hso, ?_, ?_⟩
    · rw [hservices, lookup_services]
      exact hsvc
    · exact hready.symm ▸ hips
    · rw [← hanswer]
      exact congrArg (fun ips : List String =>
        (ips.map fun ip => ip ++ ":" ++ itoa target.toInt, svc.namespace_, svc.name)) hready

/-! ## Pods behind the addresses of slices -/

def PodEndpointEntry.podRef (e : PodEndpointEntry) : PodRef := ⟨e.namespace_, e.pod⟩

def placedOn (ip : String) (so : SvcSliceObject) : Option PodRef :=
  (placements so).findSome? fun turn => if turn.ip = ip then some turn.pod else none

private theorem lookup_place_podRef (byIP : GoMap String PodEndpointEntry) (turn : Placement)
    (ip : String) :
    ((place byIP turn).lookup ip).map PodEndpointEntry.podRef =
      ((byIP.lookup ip).map PodEndpointEntry.podRef).or
        (if turn.ip = ip then some turn.pod else none) := by
  unfold place
  by_cases hip : turn.ip = ip
  · subst hip
    rw [AList.lookup_insert]
    cases hlookup : byIP.lookup turn.ip <;> simp [PodEndpointEntry.podRef]
  · dsimp only
    rw [AList.lookup_insert_ne (Ne.symm hip), if_neg hip, Option.or_none]

theorem placed_podRef (orders : RangeOrders) (state : GoMap String (RawObject SvcSliceObject))
    (ip : String) :
    ((placed orders state).lookup ip).map PodEndpointEntry.podRef =
      (objectsIn orders.entrySlices state).findSome? (placedOn ip) := by
  rw [placed, foldl_first_writer (fun byIP => (AList.lookup ip byIP).map PodEndpointEntry.podRef) _
    fun byIP turn => lookup_place_podRef byIP turn ip]
  rw [findSome?_flatMap, AList.lookup_empty, Option.map_none, Option.none_or]
  rfl

private theorem mem_addPort {ports : List Int32} {port port' : Int32} :
    port' ∈ addPort ports port ↔ port' ∈ ports ∨ port' = port := by
  unfold addPort containsPort
  by_cases hmem : port ∈ ports
  · rw [if_pos (by simpa using hmem)]
    grind
  · rw [if_neg (by simpa using hmem)]
    simp

theorem nodup_addPort {ports : List Int32} (hports : ports.Nodup) (port : Int32) :
    (addPort ports port).Nodup := by
  unfold addPort containsPort
  by_cases hmem : port ∈ ports
  · rwa [if_pos (by simpa using hmem)]
  · rw [if_neg (by simpa using hmem)]
    exact List.nodup_append.mpr ⟨hports, by simp, by grind⟩

/-- An entry stands under its own address and repeats no port. -/
def WellPlaced (byIP : GoMap String PodEndpointEntry) : Prop :=
  ∀ ip e, byIP.lookup ip = some e → e.ip = ip ∧ e.ports.Nodup

theorem WellPlaced.place {byIP : GoMap String PodEndpointEntry} (h : WellPlaced byIP)
    (turn : Placement) : WellPlaced (place byIP turn) := by
  intro ip e hlookup
  unfold Discovery.place at hlookup
  dsimp only at hlookup
  by_cases hip : turn.ip = ip
  · subst hip
    rw [AList.lookup_insert] at hlookup
    cases hlookup
    cases hbefore : byIP.lookup turn.ip with
    | none => exact ⟨rfl, foldl_keeps List.Nodup (fun _ port h => nodup_addPort h port) _ (by simp)⟩
    | some before =>
        obtain ⟨hip, hnodup⟩ := h _ _ hbefore
        exact ⟨hip, foldl_keeps List.Nodup (fun _ port h => nodup_addPort h port) _ hnodup⟩
  · rw [AList.lookup_insert_ne (Ne.symm hip)] at hlookup
    exact h ip e hlookup

theorem wellPlaced_placed (orders : RangeOrders)
    (state : GoMap String (RawObject SvcSliceObject)) : WellPlaced (placed orders state) :=
  foldl_keeps WellPlaced (fun _ turn h => h.place turn) _ (by intro ip e h; simp at h)

def PortAt (byIP : GoMap String PodEndpointEntry) (ip : String) (port : Int32) : Prop :=
  port ∈ ((byIP.lookup ip).map PodEndpointEntry.ports).getD []

private theorem portAt_place (byIP : GoMap String PodEndpointEntry) (turn : Placement) (ip : String)
    (port : Int32) :
    PortAt (place byIP turn) ip port ↔
      PortAt byIP ip port ∨ (turn.ip = ip ∧ port ∈ turn.ports) := by
  unfold place PortAt
  by_cases hip : turn.ip = ip
  · subst hip
    rw [AList.lookup_insert, Option.map_some, Option.getD_some,
      foldl_collects (port ∈ ·) (port = ·) fun _ _ => mem_addPort]
    cases hlookup : byIP.lookup turn.ip <;> simp
  · dsimp only
    rw [AList.lookup_insert_ne (Ne.symm hip)]
    simp [hip]

theorem portAt_placed (orders : RangeOrders) (state : GoMap String (RawObject SvcSliceObject))
    (ip : String) (port : Int32) :
    PortAt (placed orders state) ip port ↔
      ∃ so ∈ objectsIn orders.entrySlices state, ∃ turn ∈ placements so,
        turn.ip = ip ∧ port ∈ turn.ports := by
  rw [placed, foldl_collects (fun byIP => PortAt byIP ip port) _
    fun byIP turn => portAt_place byIP turn ip port]
  simp only [PortAt, AList.lookup_empty, Option.map_none, Option.getD_none, List.not_mem_nil,
    false_or, List.mem_flatMap]
  grind

private theorem pod_ne_empty_of_placedOn {ip : String} {so : SvcSliceObject} {ref : PodRef}
    (h : placedOn ip so = some ref) : ref.pod ≠ "" := by
  obtain ⟨turn, hturn, hwrite⟩ := List.exists_of_findSome?_eq_some h
  obtain ⟨-, hpod⟩ := Option.ite_none_right_eq_some.mp hwrite
  cases hpod
  obtain ⟨ep, -, hep⟩ := List.mem_flatMap.mp hturn
  cases hpod : endpointPod so ep with
  | none => simp [hpod] at hep
  | some pod =>
      rw [hpod] at hep
      obtain ⟨address, -, rfl⟩ := List.mem_map.mp hep
      unfold endpointPod at hpod
      grind

theorem mem_podEntriesFromSlices {orders : RangeOrders}
    {state : GoMap String (RawObject SvcSliceObject)} {e : PodEndpointEntry} :
    e ∈ podEntriesFromSlices orders state ↔
      ∃ placedEntry, (placed orders state).lookup e.ip = some placedEntry ∧
        { placedEntry with ports := placedEntry.ports.insertionSort (· ≤ ·) } = e := by
  rw [podEntriesFromSlices, List.mem_insertionSort, List.mem_map]
  constructor
  · rintro ⟨placedEntry, hvalue, rfl⟩
    obtain ⟨⟨ip, _⟩, hentry, rfl⟩ := List.mem_map.mp hvalue
    have hlookup := GoMap.mem_entries_iff.mp ((orders.byIP.perm _).mem_iff.mp hentry)
    refine ⟨_, ?_, rfl⟩
    dsimp only
    rw [(wellPlaced_placed orders state ip _ hlookup).1]
    exact hlookup
  · rintro ⟨placedEntry, hlookup, heq⟩
    refine ⟨placedEntry, ?_, heq⟩
    have hentry := (orders.byIP.perm _).mem_iff.mpr (GoMap.mem_entries_iff.mpr hlookup)
    exact List.mem_map.mpr ⟨_, hentry, rfl⟩

namespace Endpoints

theorem byIP_addPorts (ip : String) (ports : List Int32) (m : Endpoints) :
    (ports.foldl (addPort ip) m).byIP = m.byIP := by
  refine foldl_keeps (fun m' : Endpoints => m'.byIP = m.byIP) ?_ ports rfl
  intro m' port h
  exact h

private theorem lookup_add_byIP (m : Endpoints) (e : PodEndpointEntry) (ip : String) :
    (m.add e).byIP.lookup ip =
      (if e.pod ≠ "" then if e.ip = ip then some e.podRef else none else none).or
        (m.byIP.lookup ip) := by
  unfold add
  dsimp only
  by_cases hpod : e.pod ≠ ""
  · rw [if_pos hpod, if_pos hpod, byIP_addPorts]
    exact GoMap.lookup_insert_or m.byIP e.ip ip e.podRef
  · rw [if_neg hpod, if_neg hpod, byIP_addPorts, Option.none_or]

/-- Two indexes that agree on the addresses and ports, but perhaps not on the pods. -/
def SameAddresses (m m' : Endpoints) : Prop := m.addrs = m'.addrs ∧ m.ports = m'.ports

theorem SameAddresses.addPort {m m' : Endpoints} (h : SameAddresses m m') (ip : String)
    (port : Int32) : SameAddresses (m.addPort ip port) (m'.addPort ip port) := by
  obtain ⟨haddrs, hports⟩ := h
  constructor
  · change AList.insert _ _ m.addrs = AList.insert _ _ m'.addrs
    rw [haddrs]
  · change (if _ ∈ (m.ports.lookup ip).getD [] then m.ports else m.ports.insert ip _) =
      if _ ∈ (m'.ports.lookup ip).getD [] then m'.ports else m'.ports.insert ip _
    rw [hports]

theorem SameAddresses.add {m m' : Endpoints} (h : SameAddresses m m') {e e' : PodEndpointEntry}
    (hip : e.ip = e'.ip) (hports : e.ports = e'.ports) :
    SameAddresses (m.add e) (m'.add e') := by
  have hfold : SameAddresses (e.ports.foldl (Endpoints.addPort e.ip) m)
      (e'.ports.foldl (Endpoints.addPort e'.ip) m') := by
    rw [hip, hports]
    exact List.foldl_rel h fun port _ _ _ hrel => hrel.addPort e'.ip port
  unfold Endpoints.add
  dsimp only
  split <;> split <;> exact hfold

end Endpoints

theorem PodEndpointIndex.resolvePodAddr_congr {idx idx' : PodEndpointIndex}
    (h : Endpoints.SameAddresses idx.toEndpoints idx'.toEndpoints) (addr : String) :
    idx.resolvePodAddr addr = idx'.resolvePodAddr addr := by
  unfold PodEndpointIndex.resolvePodAddr
  rw [h.1, h.2]

theorem lookup_replaced_byIP (idx : PodEndpointIndex) (orders : RangeOrders)
    (state : GoMap String (RawObject SvcSliceObject)) (ip : String) :
    (idx.replace (podEntriesFromSlices orders state)).byIP.lookup ip =
      (objectsIn orders.entrySlices state).findSome? (placedOn ip) := by
  have hlast := foldl_last_writer (fun m : Endpoints => m.byIP.lookup ip) _
    (fun m e => Endpoints.lookup_add_byIP m e ip) (podEntriesFromSlices orders state)
    Endpoints.empty
  rw [← placed_podRef]
  refine hlast.trans ?_
  have hempty : Endpoints.empty.byIP.lookup ip = none := rfl
  rw [hempty, Option.or_none]
  cases hlookup : (placed orders state).lookup ip with
  | none =>
      rw [Option.map_none, List.findSome?_eq_none_iff]
      intro e hentry
      obtain ⟨placedEntry, hplaced, -⟩ :=
        mem_podEntriesFromSlices.mp (List.mem_reverse.mp hentry)
      have hip : e.ip ≠ ip := by
        rintro rfl
        rw [hlookup] at hplaced
        cases hplaced
      simp [hip]
  | some placedEntry =>
      have hip := (wellPlaced_placed orders state ip placedEntry hlookup).1
      have hpod : placedEntry.pod ≠ "" := by
        have hfound := placed_podRef orders state ip
        rw [hlookup, Option.map_some] at hfound
        obtain ⟨so, -, hso⟩ := List.exists_of_findSome?_eq_some hfound.symm
        exact pod_ne_empty_of_placedOn hso
      have hwriter : ∀ e ∈ (podEntriesFromSlices orders state).reverse, e.ip = ip →
          e.podRef = placedEntry.podRef := by
        intro e hentry heq
        obtain ⟨placedEntry', hplaced, rfl⟩ :=
          mem_podEntriesFromSlices.mp (List.mem_reverse.mp hentry)
        rw [heq, hlookup] at hplaced
        cases hplaced
        rfl
      have hentry := List.mem_reverse.mpr
        (mem_podEntriesFromSlices.mpr ⟨placedEntry, hip ▸ hlookup, rfl⟩)
      refine Agree.findSome?_eq ?_ hentry ?_
      · intro e he e' he' ref ref' hwrite hwrite'
        simp only [Option.ite_none_right_eq_some, Option.some.injEq] at hwrite hwrite'
        rw [← hwrite.2.2, ← hwrite'.2.2, hwriter e he hwrite.2.1, hwriter e' he' hwrite'.2.1]
      · simp [hpod, hip, PodEndpointEntry.podRef]

/-! ## Pods -/

def identified (ip : String) (po : PodObject) : Option PodRef :=
  if po.name = "" ∨ po.hostNetwork = true ∨ po.phase ≠ "Running" ∨ ip ∉ podAddresses po then none
  else some ⟨po.namespace_, po.name⟩

private theorem ne_empty_of_mem_podAddresses {po : PodObject} {ip : String}
    (h : ip ∈ podAddresses po) :
    ip ≠ "" := by
  unfold podAddresses at h
  grind

private theorem findSome?_podIdentities (po : PodObject) (ip : String) :
    ((podIdentities po).reverse.findSome? fun p =>
      if p.ip = "" ∨ p.pod = "" then none
      else if p.ip = ip then some (⟨p.namespace_, p.pod⟩ : PodRef) else none) =
      identified ip po := by
  unfold podIdentities identified
  by_cases hskip : po.name = "" ∨ po.hostNetwork = true ∨ po.phase ≠ "Running"
  · rw [if_pos hskip, if_pos (by tauto)]
    rfl
  · rw [if_neg hskip, ← List.map_reverse, List.findSome?_map]
    by_cases hip : ip ∈ podAddresses po
    · rw [if_neg (by tauto)]
      refine Agree.findSome?_eq ?_ (List.mem_reverse.mpr hip) ?_
      · intro address _ address' _ ref ref' hwrite hwrite'
        simp only [Function.comp_apply, Option.ite_none_left_eq_some,
          Option.ite_none_right_eq_some, Option.some.injEq] at hwrite hwrite'
        rw [← hwrite.2.2, ← hwrite'.2.2]
      · have hne := ne_empty_of_mem_podAddresses hip
        simp [hne, show po.name ≠ "" by tauto]
    · rw [if_pos (by tauto), List.findSome?_eq_none_iff]
      intro address haddress
      have hne : address ≠ ip := by
        rintro rfl
        exact hip (List.mem_reverse.mp haddress)
      simp [hne]

theorem lookup_podIP (idx : PodEndpointIndex) (pods : List PodObject) (ip : String) :
    (idx.replacePodIdentities (pods.flatMap podIdentities)).podIP.lookup ip =
      pods.reverse.findSome? (identified ip) := by
  let write : PodIdentity → Option PodRef := fun p =>
    if p.ip = "" ∨ p.pod = "" then none
    else if p.ip = ip then some ⟨p.namespace_, p.pod⟩ else none
  refine (foldl_last_writer (fun m : GoMap String PodRef => m.lookup ip) write ?_
    (pods.flatMap podIdentities) ∅).trans ?_
  · intro m p
    by_cases hskip : p.ip = "" ∨ p.pod = ""
    · simp only [write, if_pos hskip, Option.none_or]
    · simp only [write, if_neg hskip]
      exact GoMap.lookup_insert_or m p.ip ip _
  · rw [AList.lookup_empty, Option.or_none, List.reverse_flatMap, findSome?_flatMap]
    simp only [Function.comp_apply, write, findSome?_podIdentities]

end KloudlensAggregator.Discovery
