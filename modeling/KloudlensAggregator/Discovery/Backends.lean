import KloudlensAggregator.Discovery.OrderFree

/-!
# The backends of a Service

`applySlices` keeps the ports and the addresses of a Service apart, and `ResolveVIP`
puts every address together with one port.  What the slices must look like for each
such pair to stand in one of them.
-/

namespace KloudlensAggregator.Discovery

open KloudlensAggregator.Foundation

def Asks (addr host : String) (port : Int) : Prop :=
  ∃ portStr, splitHostPort addr = some (host, portStr) ∧ atoi portStr = some port

theorem Asks.unique {addr host host' : String} {port port' : Int} (h : Asks addr host port)
    (h' : Asks addr host' port') : host = host' ∧ port = port' := by
  obtain ⟨portStr, hsplit, hatoi⟩ := h
  obtain ⟨portStr', hsplit', hatoi'⟩ := h'
  rw [hsplit] at hsplit'
  cases hsplit'
  rw [hatoi] at hatoi'
  cases hatoi'
  exact ⟨rfl, rfl⟩

def SvcSliceObject.LabelledWith (so : SvcSliceObject) (namespace_ name : String) : Prop :=
  so.namespace_ = namespace_ ∧ so.labels.lookup "kubernetes.io/service-name" = some name

/-- A port without a number counts as not listed. -/
def SvcSliceObject.Lists (so : SvcSliceObject) (name : String) (target : Int32) : Prop :=
  ⟨name, target⟩ ∈ so.ports ∧ target ≠ 0

def HasPort (services : List ServiceObject) (host : String) (port : Int)
    (namespace_ name portName : String) : Prop :=
  ∃ so ∈ services, so.namespace_ = namespace_ ∧ so.name = name ∧ host ∈ clusterIPsOf so ∧
    ∃ p ∈ so.ports, p.port.toInt = port ∧ p.name = portName

private theorem sliceKey_of_labelledWith {so : SvcSliceObject} {namespace_ name : String}
    (h : so.LabelledWith namespace_ name) (hname : name ≠ "") :
    sliceKey so = some (namespace_ ++ "/" ++ name) := by
  obtain ⟨rfl, hlabel⟩ := h
  simp [sliceKey, hlabel, hname]

namespace ServiceWatcher

variable {objects : ClusterObjects}

/-- The objects support an answer: every backend is an address and a port of one slice of
the Service, and every ready address of a slice with the port is a backend. -/
def Supported (objects : ClusterObjects) (host : String) (port : Int) (backends : List String)
    (namespace_ name : String) : Prop :=
  ∃ portName,
    HasPort (objectsIn .forwards objects.services) host port namespace_ name portName ∧
      (∀ backend ∈ backends, ∃ so ∈ objectsIn .forwards objects.slices,
        so.LabelledWith namespace_ name ∧ ∃ target ip, so.Lists portName target ∧
          ip ∈ readyAddresses so ∧ backend = ip ++ ":" ++ itoa target.toInt) ∧
      ∀ so ∈ objectsIn .forwards objects.slices, so.LabelledWith namespace_ name →
        ∀ target ip, so.Lists portName target → ip ∈ readyAddresses so →
          ip ++ ":" ++ itoa target.toInt ∈ backends

/-- Every ready address under the key of a Service stands in a slice of the Service that
lists the port at the target, and no slice with a ready address lists it at another. -/
def BackedAt (objects : ClusterObjects) (host : String) (port : Int) (svc : ServiceEntry)
    (target : Int32) : Prop :=
  ∃ portName,
    HasPort (objectsIn .forwards objects.services) host port svc.namespace_ svc.name portName ∧
      (∀ ip ∈ readyIPs (objectsIn .forwards objects.slices) svc.key,
        ∃ so ∈ objectsIn .forwards objects.slices,
          so.LabelledWith svc.namespace_ svc.name ∧ so.Lists portName target ∧
            ip ∈ readyAddresses so) ∧
      ∀ so ∈ objectsIn .forwards objects.slices,
        so.LabelledWith svc.namespace_ svc.name → readyAddresses so ≠ [] →
          ∀ target', so.Lists portName target' → target' = target

def Backed (objects : ClusterObjects) (host : String) (port : Int) : Prop :=
  ∀ so ∈ objectsIn .forwards objects.services, ∀ svc target, entered host so = some svc →
    Serves (objectsIn .forwards objects.slices) svc port target →
      BackedAt objects host port svc target

theorem mem_vipAnswer {slices : List SvcSliceObject} {svc : ServiceEntry} {target target' : Int32}
    {ip : String} :
    ip ++ ":" ++ itoa target'.toInt ∈ (vipAnswer slices svc target).1 ↔
      ip ∈ readyIPs slices svc.key ∧ target' = target := by
  simp only [vipAnswer, List.mem_map]
  constructor
  · rintro ⟨ip', hip', heq⟩
    obtain ⟨rfl, htarget⟩ := joined_inj (colon_not_mem_itoa _) (colon_not_mem_itoa _) heq
    exact ⟨hip', Int32.toInt_inj.mp (itoa_injective htarget.symm)⟩
  · rintro ⟨hip, rfl⟩
    exact ⟨ip, hip, rfl⟩

theorem supported_vipAnswer_iff {host : String} {port : Int} {so : ServiceObject}
    {svc : ServiceEntry} {target : Int32} (hentered : entered host so = some svc) :
    Supported objects host port (vipAnswer (objectsIn .forwards objects.slices) svc target).1
        svc.namespace_ svc.name ↔
      BackedAt objects host port svc target := by
  have hname : svc.name ≠ "" := by
    unfold entered at hentered
    grind
  refine exists_congr fun portName => and_congr_right fun _ => and_congr ?_ ?_
  · constructor
    · intro h ip hip
      obtain ⟨slice, hslice, hlabelled, target', ip', hlists, hready, heq⟩ :=
        h _ (mem_vipAnswer.mpr ⟨hip, rfl⟩)
      obtain ⟨rfl, htarget⟩ := joined_inj (colon_not_mem_itoa _) (colon_not_mem_itoa _) heq
      rw [Int32.toInt_inj.mp (itoa_injective htarget)]
      exact ⟨slice, hslice, hlabelled, hlists, hready⟩
    · intro h backend hbackend
      obtain ⟨ip, hip, rfl⟩ := List.mem_map.mp hbackend
      obtain ⟨slice, hslice, hlabelled, hlists, hready⟩ := h ip hip
      exact ⟨slice, hslice, hlabelled, target, ip, hlists, hready, rfl⟩
  · constructor
    · intro h slice hslice hlabelled hne target' hlists
      obtain ⟨ip, hip⟩ := List.exists_mem_of_ne_nil _ hne
      exact (mem_vipAnswer.mp (h slice hslice hlabelled target' ip hlists hip)).2
    · intro h slice hslice hlabelled target' ip hlists hip
      have hkey := sliceKey_of_labelledWith hlabelled hname
      exact mem_vipAnswer.mpr ⟨mem_readyIPs.mpr ⟨slice, hslice, hkey, hip⟩,
        h slice hslice hlabelled (List.ne_nil_of_mem hip) target' hlists⟩

/-- Every answer is supported exactly if the slices of each Service with the address go
together. -/
theorem resolveVIP_supported_iff (w : ServiceWatcher) (objects : ClusterObjects)
    (addr : String) :
    (∀ orders backends namespace_ name,
      (w.apply orders objects).resolveVIP addr = some (backends, namespace_, name) →
        ∃ host port, Asks addr host port ∧
          Supported objects host port backends namespace_ name) ↔
      ∀ host port, Asks addr host port → Backed objects host port := by
  constructor
  · rintro hanswers host port hasks so hso svc target hentered hserves
    obtain ⟨portStr, hsplit, hatoi⟩ := hasks
    obtain ⟨orders, hresolve⟩ :=
      exists_resolveVIP_of_serves (w := w) hsplit hatoi hso hentered hserves
    obtain ⟨host', port', hasks', hsupported⟩ := hanswers orders _ _ _ hresolve
    obtain ⟨rfl, rfl⟩ := hasks'.unique ⟨portStr, hsplit, hatoi⟩
    exact (supported_vipAnswer_iff hentered).mp hsupported
  · intro hbacked orders backends namespace_ name hresolve
    obtain ⟨host, portStr, port, -, -, -, hsplit, hatoi, -⟩ := resolveVIP_apply_eq_some.mp hresolve
    obtain ⟨svc, target, hsvc, hserves, hanswer⟩ := serves_of_resolveVIP hsplit hatoi hresolve
    obtain ⟨so, hso, hentered⟩ := exists_writer .forwards hsvc
    cases hanswer
    have hasks : Asks addr host port := ⟨portStr, hsplit, hatoi⟩
    exact ⟨host, port, hasks, (supported_vipAnswer_iff hentered).mpr
      (hbacked host port hasks so hso svc target hentered hserves)⟩

theorem resolveVIP_fabricates_backend :
    let w : ServiceWatcher := ⟨newServiceIndex, some newPodEndpointIndex⟩
    (w.apply .forwards conflicting).resolveVIP "10.96.0.1:80" =
        some (["10.0.0.1:8080", "10.0.0.2:8080"], "shop", "web") ∧
      ∀ host port, ¬ Supported conflicting host port ["10.0.0.1:8080", "10.0.0.2:8080"]
        "shop" "web" := by
  refine ⟨by decide +kernel, ?_⟩
  rintro host port ⟨portName, -, hbackends, -⟩
  obtain ⟨so, hso, -, target, ip, hlists, hready, heq⟩ := hbackends "10.0.0.2:8080" (by simp)
  have htext : "10.0.0.2:8080" = "10.0.0.2" ++ ":" ++ itoa (8080 : Int32).toInt := by decide
  obtain ⟨rfl, htarget⟩ :=
    joined_inj (colon_not_mem_itoa _) (colon_not_mem_itoa _) (htext.symm.trans heq)
  have hslices : ∀ so ∈ objectsIn .forwards conflicting.slices, "10.0.0.2" ∈ readyAddresses so →
      ∀ p ∈ so.ports, p.port ≠ 8080 := by decide +kernel
  exact hslices so hso hready _ hlists.1 (Int32.toInt_inj.mp (itoa_injective htarget)).symm

end ServiceWatcher

end KloudlensAggregator.Discovery
