import KloudlensAggregator.Discovery.Lookups

/-!
# Passes in any order

Go ranges over a map in an order of its own.  Two passes over the same objects
give the same answers exactly when no two objects write different things into one
slot that a query can see: the pod of an address, the Service of a cluster address
and the target port of a port name.
-/

namespace KloudlensAggregator.Discovery

open KloudlensAggregator.Foundation

/-! ## Folded addresses -/

private theorem lookup_placed_isSome {orders : RangeOrders}
    {state : GoMap String (RawObject SvcSliceObject)} {ip : String} :
    ((placed orders state).lookup ip).isSome ↔
      ∃ so ∈ objectsIn orders.entrySlices state, (placedOn ip so).isSome := by
  rw [← Option.isSome_map (f := PodEndpointEntry.podRef), placed_podRef, List.findSome?_isSome_iff]

def portsOf (orders : RangeOrders) (state : GoMap String (RawObject SvcSliceObject))
    (ip : String) : List Int32 :=
  (((placed orders state).lookup ip).map PodEndpointEntry.ports).getD [] |>.insertionSort (· ≤ ·)

private theorem portsOf_eq (orders orders' : RangeOrders)
    (state : GoMap String (RawObject SvcSliceObject)) (ip : String) :
    portsOf orders state ip = portsOf orders' state ip := by
  have hnodup : ∀ orders : RangeOrders,
      (((placed orders state).lookup ip).map PodEndpointEntry.ports).getD [] |>.Nodup := by
    intro orders
    cases hlookup : (placed orders state).lookup ip with
    | none => simp
    | some e => exact (wellPlaced_placed orders state ip e hlookup).2
  refine insertionSort_eq_of_mem_iff (hnodup orders) (hnodup orders') ?_
  intro port
  refine (portAt_placed orders state ip port).trans
    (Iff.trans ?_ (portAt_placed orders' state ip port).symm)
  simp only [(objectsIn_perm orders.entrySlices orders'.entrySlices state).mem_iff]

private theorem placed_keys_eq (orders orders' : RangeOrders)
    (state : GoMap String (RawObject SvcSliceObject)) :
    (orders.byIP.keys (placed orders state)).insertionSort (· ≤ ·) =
      (orders'.byIP.keys (placed orders' state)).insertionSort (· ≤ ·) := by
  refine insertionSort_eq_of_mem_iff (orders.byIP.nodup_keys _) (orders'.byIP.nodup_keys _) ?_
  intro ip
  simp only [RangeOrder.mem_keys, ← Option.isSome_iff_exists, lookup_placed_isSome,
    (objectsIn_perm orders.entrySlices orders'.entrySlices state).mem_iff]

theorem map_ip_podEntriesFromSlices (orders : RangeOrders)
    (state : GoMap String (RawObject SvcSliceObject)) :
    (podEntriesFromSlices orders state).map PodEndpointEntry.ip =
      (orders.byIP.keys (placed orders state)).insertionSort (· ≤ ·) := by
  rw [podEntriesFromSlices, List.map_insertionSort _ (· ≤ ·) _ _ (fun _ _ _ _ => Iff.rfl)]
  congr 1
  simp only [RangeOrder.values, RangeOrder.keys, List.map_map]
  refine List.map_congr_left ?_
  rintro ⟨ip, e⟩ hentry
  have hlookup := GoMap.mem_entries_iff.mp ((orders.byIP.perm _).mem_iff.mp hentry)
  exact (wellPlaced_placed orders state ip e hlookup).1

private theorem map_address_podEntriesFromSlices (orders orders' : RangeOrders)
    (state : GoMap String (RawObject SvcSliceObject)) :
    (podEntriesFromSlices orders state).map (fun e => (e.ip, e.ports)) =
      (podEntriesFromSlices orders' state).map fun e => (e.ip, e.ports) := by
  have hports : ∀ orders : RangeOrders,
      (podEntriesFromSlices orders state).map (fun e => (e.ip, e.ports)) =
        ((podEntriesFromSlices orders state).map PodEndpointEntry.ip).map fun ip =>
          (ip, portsOf orders state ip) := by
    intro orders
    rw [List.map_map]
    refine List.map_congr_left ?_
    intro e hentry
    obtain ⟨placedEntry, hlookup, hsorted⟩ := mem_podEntriesFromSlices.mp hentry
    simp only [Function.comp_apply, portsOf, hlookup, Option.map_some, Option.getD_some]
    rw [← hsorted]
  rw [hports orders, hports orders', map_ip_podEntriesFromSlices, map_ip_podEntriesFromSlices,
    placed_keys_eq orders orders', funext (portsOf_eq orders orders' state)]

theorem Endpoints.sameAddresses_foldl_add {entries entries' : List PodEndpointEntry}
    (haddresses : entries.map (fun e => (e.ip, e.ports)) =
      entries'.map fun e => (e.ip, e.ports))
    {m m' : Endpoints} (h : SameAddresses m m') :
    SameAddresses (entries.foldl Endpoints.add m) (entries'.foldl Endpoints.add m') := by
  induction entries generalizing entries' m m' with
  | nil =>
      rw [List.map_nil, eq_comm, List.map_eq_nil_iff] at haddresses
      rw [haddresses]
      exact h
  | cons e entries ih =>
      cases entries' with
      | nil => simp at haddresses
      | cons e' entries' =>
          simp only [List.map_cons, List.cons.injEq, Prod.mk.injEq] at haddresses
          exact ih haddresses.2 (h.add haddresses.1.1 haddresses.1.2)

namespace ServiceWatcher

variable {w : ServiceWatcher} {objects : ClusterObjects}

private theorem resolvePodAddr_order_free (w : ServiceWatcher) (objects : ClusterObjects)
    (orders orders' : RangeOrders) (addr : String) :
    (w.apply orders objects).resolvePodAddr addr =
      (w.apply orders' objects).resolvePodAddr addr := by
  cases hindex : w.podIndex with
  | none => simp [resolvePodAddr, apply, applyPods, applySlices, replacePodEntries, setSliceGroups,
      applyServices, hindex]
  | some idx =>
      simp only [resolvePodAddr, apply, applyPods, applySlices, replacePodEntries,
        setSliceGroups, applyServices, hindex, Option.map_some, Option.bind_some]
      exact PodEndpointIndex.resolvePodAddr_congr (Endpoints.sameAddresses_foldl_add
        (map_address_podEntriesFromSlices orders orders' objects.slices) ⟨rfl, rfl⟩) addr

/-! ## Pods -/

/-- The slices that place an address agree on its pod; where none does, the running
pods that have it are one. -/
def PodKnown (objects : ClusterObjects) (ip : String) : Prop :=
  Agree (placedOn ip) (objectsIn .forwards objects.slices) ∧
    ((∀ so ∈ objectsIn .forwards objects.slices, placedOn ip so = none) →
      Agree (identified ip) (objectsIn .forwards objects.pods))

theorem podForIP_apply {idx : PodEndpointIndex} (hindex : w.podIndex = some idx)
    (orders : RangeOrders) (ip : String) :
    (w.apply orders objects).podForIP ip =
      (((objectsIn orders.entrySlices objects.slices).findSome? (placedOn ip)).or
        ((objectsIn orders.pods objects.pods).reverse.findSome? (identified ip))).map
        fun ref => (ref.namespace_, ref.pod) := by
  simp only [podForIP, apply, applyPods, applySlices, replacePodEntries, setSliceGroups,
    applyServices, hindex, Option.map_some, Option.bind_some, PodEndpointIndex.podForIP,
    lookup_podIP, PodEndpointIndex.replacePodIdentities_toEndpoints, lookup_replaced_byIP]
  cases (objectsIn orders.entrySlices objects.slices).findSome? (placedOn ip) <;> rfl

theorem podRef_eq_of_pair_eq {ref ref' : PodRef}
    (h : (ref.namespace_, ref.pod) = (ref'.namespace_, ref'.pod)) : ref = ref' := by
  cases ref
  cases ref'
  simpa using h

private theorem podForIP_order_free {idx : PodEndpointIndex} (hindex : w.podIndex = some idx)
    (ip : String)
    (hknown : PodKnown objects ip) (orders orders' : RangeOrders) :
    (w.apply orders objects).podForIP ip = (w.apply orders' objects).podForIP ip := by
  have hslices : ∀ orders : RangeOrders,
      (objectsIn orders.entrySlices objects.slices).findSome? (placedOn ip) =
        (objectsIn .forwards objects.slices).findSome? (placedOn ip) :=
    fun orders => hknown.1.findSome?_perm (objectsIn_perm _ _ _)
  rw [podForIP_apply hindex, podForIP_apply hindex, hslices orders, hslices orders']
  cases hfound : (objectsIn .forwards objects.slices).findSome? (placedOn ip) with
  | some ref => rfl
  | none =>
      have hpods : ∀ orders : RangeOrders,
          (objectsIn orders.pods objects.pods).reverse.findSome? (identified ip) =
            (objectsIn .forwards objects.pods).findSome? (identified ip) :=
        fun orders => (hknown.2 (List.findSome?_eq_none_iff.mp hfound)).findSome?_perm
          ((List.reverse_perm _).trans (objectsIn_perm _ _ _))
      rw [hpods orders, hpods orders']

private theorem podKnown_of_order_free {idx : PodEndpointIndex} (hindex : w.podIndex = some idx)
    {ip : String} (hfree : ∀ orders orders',
      (w.apply orders objects).podForIP ip = (w.apply orders' objects).podForIP ip) :
    PodKnown objects ip := by
  constructor
  · intro so hso so' hso' ref ref' hplaced hplaced'
    obtain ⟨order, rest, hfirst⟩ := exists_objectsIn_first hso
    obtain ⟨order', rest', hfirst'⟩ := exists_objectsIn_first hso'
    have heq := hfree { RangeOrders.forwards with entrySlices := order }
      { RangeOrders.forwards with entrySlices := order' }
    rw [podForIP_apply hindex, podForIP_apply hindex, hfirst, hfirst',
      List.findSome?_cons_of_isSome (by simp [hplaced]),
      List.findSome?_cons_of_isSome (by simp [hplaced'])] at heq
    simp only [hplaced, hplaced', Option.some_or, Option.map_some, Option.some.injEq] at heq
    exact podRef_eq_of_pair_eq heq
  · intro hnone po hpo po' hpo' ref ref' hidentified hidentified'
    obtain ⟨order, rest, hlast⟩ := exists_objectsIn_last hpo
    obtain ⟨order', rest', hlast'⟩ := exists_objectsIn_last hpo'
    have heq := hfree { RangeOrders.forwards with pods := order }
      { RangeOrders.forwards with pods := order' }
    rw [podForIP_apply hindex, podForIP_apply hindex] at heq
    simp only [RangeOrders.forwards, List.findSome?_eq_none_iff.mpr hnone, Option.none_or, hlast,
      hlast', List.reverse_append, List.reverse_singleton, List.singleton_append,
      List.findSome?_cons, hidentified, hidentified', Option.map_some, Option.some.injEq] at heq
    exact podRef_eq_of_pair_eq heq

/-! ## Services -/

def Serves (slices : List SvcSliceObject) (svc : ServiceEntry) (port : Int) (target : Int32) :
    Prop :=
  ∃ portRef, svc.ports.find? (fun p => p.port.toInt = port) = some portRef ∧
    (∃ so ∈ slices, targetFor svc.key portRef.name so = some target) ∧
    ∃ so ∈ slices, sliceKey so = some svc.key ∧ readyAddresses so ≠ []

theorem readyIPs_ne_nil {slices : List SvcSliceObject} {key : String} :
    readyIPs slices key ≠ [] ↔ ∃ so ∈ slices, sliceKey so = some key ∧ readyAddresses so ≠ [] := by
  constructor
  · intro h
    obtain ⟨ip, hip⟩ := List.exists_mem_of_ne_nil _ h
    obtain ⟨so, hso, hkey, haddress⟩ := mem_readyIPs.mp hip
    exact ⟨so, hso, hkey, List.ne_nil_of_mem haddress⟩
  · rintro ⟨so, hso, hkey, hready⟩
    obtain ⟨ip, hip⟩ := List.exists_mem_of_ne_nil _ hready
    exact List.ne_nil_of_mem (mem_readyIPs.mpr ⟨so, hso, hkey, hip⟩)

theorem vipAnswer_eq_iff {slices : List SvcSliceObject} {svc svc' : ServiceEntry} {port : Int}
    {target target' : Int32} (hserves : Serves slices svc port target) :
    vipAnswer slices svc target = vipAnswer slices svc' target' ↔
      (svc.namespace_ = svc'.namespace_ ∧ svc.name = svc'.name) ∧ target = target' := by
  obtain ⟨portRef, -, -, hready⟩ := hserves
  constructor
  · intro h
    simp only [vipAnswer, Prod.mk.injEq] at h
    obtain ⟨hbackends, hnamespace, hname⟩ := h
    have hkey : svc'.key = svc.key := by simp only [ServiceEntry.key, hnamespace, hname]
    rw [hkey] at hbackends
    refine ⟨⟨hnamespace, hname⟩, ?_⟩
    obtain ⟨ip, hip⟩ := List.exists_mem_of_ne_nil _ (readyIPs_ne_nil.mpr hready)
    have htext := List.map_inj_left.mp hbackends ip hip
    rw [String.append_right_inj] at htext
    exact Int32.toInt_inj.mp (itoa_injective htext)
  · rintro ⟨⟨hnamespace, hname⟩, rfl⟩
    simp only [vipAnswer, ServiceEntry.key, hnamespace, hname]

/-- If a Service serves a port of a cluster address, then it alone has the address,
and its slices agree on the target. -/
def VipKnown (objects : ClusterObjects) (host : String) (port : Int) : Prop :=
  ∀ so ∈ objectsIn .forwards objects.services, ∀ so' ∈ objectsIn .forwards objects.services,
    ∀ svc svc' target, entered host so = some svc → entered host so' = some svc' →
      Serves (objectsIn .forwards objects.slices) svc port target →
        (svc.namespace_ = svc'.namespace_ ∧ svc.name = svc'.name) ∧
          ∀ target', Serves (objectsIn .forwards objects.slices) svc' port target' ↔
            target = target'

theorem vipAnswer_perm {slices slices' : List SvcSliceObject} (hperm : slices.Perm slices')
    (svc : ServiceEntry) (target : Int32) :
    vipAnswer slices svc target = vipAnswer slices' svc target := by
  rw [vipAnswer, vipAnswer, readyIPs_perm hperm]

section Queries

variable {orders : RangeOrders} {addr host portStr : String} {port : Int}
  {answer : List String × String × String} {svc : ServiceEntry} {target : Int32}

theorem serves_of_resolveVIP (hsplit : splitHostPort addr = some (host, portStr))
    (hatoi : atoi portStr = some port)
    (hresolve : (w.apply orders objects).resolveVIP addr = some answer) :
    ∃ svc target,
      (objectsIn orders.services objects.services).reverse.findSome? (entered host) = some svc ∧
      Serves (objectsIn .forwards objects.slices) svc port target ∧
      vipAnswer (objectsIn .forwards objects.slices) svc target = answer := by
  obtain ⟨host', portStr', port', svc, portRef, target, hsplit', hatoi', hsvc, href, htarget,
    hready, hanswer⟩ := resolveVIP_apply_eq_some.mp hresolve
  rw [hsplit] at hsplit'
  cases hsplit'
  rw [hatoi] at hatoi'
  cases hatoi'
  have hperm := objectsIn_perm orders.slices .forwards objects.slices
  rw [readyIPs_perm hperm, readyIPs_ne_nil] at hready
  refine ⟨svc, target, hsvc, ⟨portRef, href, exists_writer .forwards htarget, hready⟩, ?_⟩
  rw [← vipAnswer_perm hperm, hanswer]

private theorem resolveVIP_of_serves (hsplit : splitHostPort addr = some (host, portStr))
    (hatoi : atoi portStr = some port)
    (hsvc : (objectsIn orders.services objects.services).reverse.findSome? (entered host) =
      some svc)
    (hserves : Serves (objectsIn .forwards objects.slices) svc port target) :
    ∃ target', Serves (objectsIn .forwards objects.slices) svc port target' ∧
      (w.apply orders objects).resolveVIP addr =
        some (vipAnswer (objectsIn .forwards objects.slices) svc target') := by
  have hperm := objectsIn_perm orders.slices .forwards objects.slices
  obtain ⟨portRef, href, ⟨so, hso, htarget⟩, hready⟩ := hserves
  obtain ⟨target', htarget'⟩ := exists_written orders.slices hso htarget
  refine ⟨target', ⟨portRef, href, exists_writer .forwards htarget', hready⟩, ?_⟩
  rw [← vipAnswer_perm hperm]
  refine resolveVIP_apply_eq_some.mpr ⟨host, portStr, port, svc, portRef, target', hsplit, hatoi,
    hsvc, href, htarget', ?_, rfl⟩
  rw [readyIPs_perm hperm]
  exact readyIPs_ne_nil.mpr hready

theorem exists_resolveVIP_of_serves (hsplit : splitHostPort addr = some (host, portStr))
    (hatoi : atoi portStr = some port) {so : ServiceObject}
    (hso : so ∈ objectsIn .forwards objects.services) (hentered : entered host so = some svc)
    (hserves : Serves (objectsIn .forwards objects.slices) svc port target) :
    ∃ orders, (w.apply orders objects).resolveVIP addr =
      some (vipAnswer (objectsIn .forwards objects.slices) svc target) := by
  obtain ⟨portRef, href, ⟨slice, hslice, htarget⟩, hready⟩ := hserves
  obtain ⟨order, rest, hlast⟩ := exists_objectsIn_last hso
  obtain ⟨order', rest', hlast'⟩ := exists_objectsIn_last hslice
  have hperm := objectsIn_perm order' .forwards objects.slices
  refine ⟨{ RangeOrders.forwards with services := order, slices := order' }, ?_⟩
  rw [← vipAnswer_perm hperm]
  refine resolveVIP_apply_eq_some.mpr ⟨host, portStr, port, svc, portRef, target, hsplit, hatoi,
    ?_, href, ?_, ?_, rfl⟩
  · simp [hlast, hentered]
  · simp [hlast', htarget]
  · rw [readyIPs_perm hperm]
    exact readyIPs_ne_nil.mpr hready

end Queries

private theorem vipKnown_of_order_free {addr host portStr : String} {port : Int}
    (hsplit : splitHostPort addr = some (host, portStr)) (hatoi : atoi portStr = some port)
    (hfree : ∀ orders orders',
      (w.apply orders objects).resolveVIP addr = (w.apply orders' objects).resolveVIP addr) :
    VipKnown objects host port := by
  intro so hso so' hso' svc svc' target hentered hentered' hserves
  obtain ⟨orders, hresolve⟩ :=
    exists_resolveVIP_of_serves (w := w) hsplit hatoi hso hentered hserves
  have hsame : ∀ target', Serves (objectsIn .forwards objects.slices) svc' port target' →
      (svc.namespace_ = svc'.namespace_ ∧ svc.name = svc'.name) ∧ target = target' := by
    intro target' hserves'
    obtain ⟨orders', hresolve'⟩ :=
      exists_resolveVIP_of_serves (w := w) hsplit hatoi hso' hentered' hserves'
    have hanswers := hresolve.symm.trans ((hfree orders orders').trans hresolve')
    exact (vipAnswer_eq_iff hserves).mp (Option.some.inj hanswers)
  -- with the other Service written last, the same answer has to come from it
  obtain ⟨order, rest, hlast⟩ := exists_objectsIn_last hso'
  have hresolve' := (hfree { RangeOrders.forwards with services := order } orders).trans hresolve
  obtain ⟨found, target', hfound, hserves', -⟩ := serves_of_resolveVIP hsplit hatoi hresolve'
  have heq : found = svc' := by
    rw [hlast] at hfound
    simpa [hentered'] using hfound.symm
  subst heq
  obtain ⟨hnames, rfl⟩ := hsame target' hserves'
  refine ⟨hnames, fun target'' => ⟨fun h => (hsame target'' h).2, ?_⟩⟩
  rintro rfl
  exact hserves'

private theorem resolveVIP_order_free {addr : String}
    (hknown : ∀ host portStr port, splitHostPort addr = some (host, portStr) →
      atoi portStr = some port → VipKnown objects host port) (orders orders' : RangeOrders) :
    (w.apply orders objects).resolveVIP addr = (w.apply orders' objects).resolveVIP addr := by
  have hstep : ∀ orders orders' : RangeOrders, ∀ answer,
      (w.apply orders objects).resolveVIP addr = some answer →
        (w.apply orders' objects).resolveVIP addr = some answer := by
    intro orders orders' answer hresolve
    obtain ⟨host, portStr, port, -, -, -, hsplit, hatoi, -⟩ := resolveVIP_apply_eq_some.mp hresolve
    obtain ⟨svc, target, hsvc, hserves, rfl⟩ := serves_of_resolveVIP hsplit hatoi hresolve
    obtain ⟨so, hso, hentered⟩ := exists_writer .forwards hsvc
    obtain ⟨svc', hsvc'⟩ := exists_written orders'.services hso hentered
    obtain ⟨so', hso', hentered'⟩ := exists_writer .forwards hsvc'
    obtain ⟨hnames, htargets⟩ := hknown host portStr port hsplit hatoi so hso so' hso' svc svc'
      target hentered hentered' hserves
    obtain ⟨target', hserves', hresolve'⟩ :=
      resolveVIP_of_serves (w := w) hsplit hatoi hsvc' ((htargets target).mpr rfl)
    rw [hresolve', (vipAnswer_eq_iff hserves).mpr ⟨hnames, (htargets target').mp hserves'⟩]
  cases hresolve : (w.apply orders' objects).resolveVIP addr with
  | some answer => exact hstep orders' orders answer hresolve
  | none =>
      cases hresolve' : (w.apply orders objects).resolveVIP addr with
      | none => rfl
      | some answer =>
          rw [hstep orders orders' answer hresolve'] at hresolve
          cases hresolve

/-! ## All queries -/

def SameAnswers (w w' : ServiceWatcher) : Prop :=
  (∀ addr, w.resolveVIP addr = w'.resolveVIP addr) ∧
    (∀ addr, w.resolvePodAddr addr = w'.resolvePodAddr addr) ∧
    ∀ ip, w.podForIP ip = w'.podForIP ip

/-- The indexes are a function of the objects exactly if each address is known: a
cluster address and port to lead to one Service and target, an address to one pod. -/
theorem answers_order_free_iff (w : ServiceWatcher) (objects : ClusterObjects) :
    (∀ orders orders', SameAnswers (w.apply orders objects) (w.apply orders' objects)) ↔
      (∀ addr host portStr port, splitHostPort addr = some (host, portStr) →
        atoi portStr = some port → VipKnown objects host port) ∧
      (w.podIndex.isSome → ∀ ip, PodKnown objects ip) := by
  constructor
  · intro hfree
    refine ⟨fun addr host portStr port hsplit hatoi => ?_, fun hindex ip => ?_⟩
    · exact vipKnown_of_order_free hsplit hatoi fun orders orders' => (hfree orders orders').1 addr
    · obtain ⟨idx, hindex⟩ := Option.isSome_iff_exists.mp hindex
      exact podKnown_of_order_free hindex fun orders orders' => (hfree orders orders').2.2 ip
  · rintro ⟨hvips, hpods⟩ orders orders'
    refine ⟨fun addr => ?_, resolvePodAddr_order_free w objects orders orders', fun ip => ?_⟩
    · exact resolveVIP_order_free (hvips addr) orders orders'
    · cases hindex : w.podIndex with
      | none => simp [podForIP, apply, applyPods, applySlices, replacePodEntries, setSliceGroups,
          applyServices, hindex]
      | some idx =>
          exact podForIP_order_free hindex ip
            (hpods (Option.isSome_of_eq_some hindex) ip) orders orders'

def readyOn (addresses : List String) (namespace_ pod : String) : SliceEndpoint :=
  ⟨addresses, some true, none, some ⟨"Pod", namespace_, pod⟩⟩

def sliceOf (namespace_ name service : String) (ports : List NamedPort)
    (endpoints : List SliceEndpoint) : RawObject SvcSliceObject :=
  ⟨some ⟨namespace_, name⟩, some ⟨namespace_, AList.singleton "kubernetes.io/service-name" service,
    ports, endpoints⟩⟩

def conflicting : ClusterObjects where
  services := listed [⟨some ⟨"shop", "web"⟩,
    some ⟨"shop", "web", "10.96.0.1", ["10.96.0.1"], [⟨"http", 80⟩]⟩⟩]
  slices := listed [
    sliceOf "shop" "web-old" "web" [⟨"http", 8080⟩] [readyOn ["10.0.0.1"] "shop" "web-1"],
    sliceOf "shop" "web-new" "web" [⟨"http", 9090⟩] [readyOn ["10.0.0.2"] "shop" "web-2"],
    sliceOf "infra" "proxy-1" "proxy" [⟨"health", 10256⟩] [readyOn ["192.168.0.9"] "infra" "proxy"],
    sliceOf "infra" "stats-1" "stats" [⟨"metrics", 9100⟩] [readyOn ["192.168.0.9"] "infra" "stats"]]
  pods := listed []

theorem answers_depend_on_order :
    let w : ServiceWatcher := ⟨newServiceIndex, some newPodEndpointIndex⟩
    (w.apply .forwards conflicting).resolveVIP "10.96.0.1:80" =
        some (["10.0.0.1:8080", "10.0.0.2:8080"], "shop", "web") ∧
      (w.apply .backwards conflicting).resolveVIP "10.96.0.1:80" =
        some (["10.0.0.1:9090", "10.0.0.2:9090"], "shop", "web") ∧
      (w.apply .forwards conflicting).podForIP "192.168.0.9" = some ("infra", "stats") ∧
      (w.apply .backwards conflicting).podForIP "192.168.0.9" = some ("infra", "proxy") := by
  decide +kernel

end ServiceWatcher

end KloudlensAggregator.Discovery
