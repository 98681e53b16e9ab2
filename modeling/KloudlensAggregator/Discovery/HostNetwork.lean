import KloudlensAggregator.Discovery.OrderFree

/-!
# Pods in the network of their node

The address of such a pod is the node's, so `applyPods` leaves it out.  A slice may
still place the address on the pod, and a slice goes before the pods.
-/

namespace KloudlensAggregator.Discovery

open KloudlensAggregator.Foundation

/-- The state of the watch on pods: an object stands under its own name. -/
structure PodState where
  objects : GoMap String (RawObject PodObject)
  keyed : ∀ key raw po, objects.lookup key = some raw → raw.object = some po →
    key = po.namespace_ ++ "/" ++ po.name

namespace PodState

def list (pods : List PodObject) : PodState where
  objects := listed (pods.map fun po => ⟨some ⟨po.namespace_, po.name⟩, some po⟩)
  keyed := by
    rw [listed, List.foldl_map]
    refine foldl_keeps (fun state : GoMap String (RawObject PodObject) =>
      ∀ key raw po, state.lookup key = some raw → raw.object = some po →
        key = po.namespace_ ++ "/" ++ po.name) ?_ pods ?_
    · intro state item hstate
      unfold keyOf
      by_cases hname : item.name = ""
      · simpa [hname] using hstate
      · intro key raw po hlookup hobject
        simp only [hname, if_false, GoMap.lookup_insert_or] at hlookup
        by_cases hkey : item.namespace_ ++ "/" ++ item.name = key
        · rw [if_pos hkey, Option.some_or] at hlookup
          cases hlookup
          cases hobject
          exact hkey.symm
        · rw [if_neg hkey, Option.none_or] at hlookup
          exact hstate key raw po hlookup hobject
    · simp

private theorem eq_of_same_name {pods : PodState} {po po' : PodObject}
    (hpo : po ∈ objectsIn .forwards pods.objects) (hpo' : po' ∈ objectsIn .forwards pods.objects)
    (hnamespace : po.namespace_ = po'.namespace_) (hname : po.name = po'.name) : po = po' := by
  have hentry : ∀ po ∈ objectsIn .forwards pods.objects, ∃ raw,
      pods.objects.lookup (po.namespace_ ++ "/" ++ po.name) = some raw ∧ raw.object = some po := by
    intro po hpo
    obtain ⟨raw, hraw, hobject⟩ := List.mem_filterMap.mp hpo
    obtain ⟨⟨key, _⟩, hmem, rfl⟩ := List.mem_map.mp hraw
    have hlookup := GoMap.mem_entries_iff.mp hmem
    rw [← pods.keyed key _ po hlookup hobject]
    exact ⟨_, hlookup, hobject⟩
  obtain ⟨raw, hlookup, hobject⟩ := hentry po hpo
  obtain ⟨raw', hlookup', hobject'⟩ := hentry po' hpo'
  rw [← hnamespace, ← hname, hlookup] at hlookup'
  cases hlookup'
  rw [hobject] at hobject'
  exact Option.some.inj hobject'

end PodState

namespace ServiceWatcher

variable {ip : String}

private theorem applyPods_applySlices_comm (w : ServiceWatcher) (orders : RangeOrders)
    (slices : GoMap String (RawObject SvcSliceObject)) (pods : GoMap String (RawObject PodObject)) :
    (w.applyPods orders pods).applySlices orders slices =
      (w.applySlices orders slices).applyPods orders pods := by
  cases hindex : w.podIndex <;> simp [applyPods, applySlices, replacePodEntries, setSliceGroups,
    hindex, PodEndpointIndex.replace, PodEndpointIndex.replacePodIdentities]

private theorem identified_ne_hostNetwork {pods : PodState} {po po' : PodObject}
    (hpo : po ∈ objectsIn .forwards pods.objects) (hhost : po.hostNetwork = true)
    (hpo' : po' ∈ objectsIn .forwards pods.objects) :
    identified ip po' ≠ some ⟨po.namespace_, po.name⟩ := by
  intro hidentified
  unfold identified at hidentified
  obtain ⟨hcond, href⟩ := Option.ite_none_left_eq_some.mp hidentified
  rw [Option.some.injEq, PodRef.mk.injEq] at href
  obtain rfl := PodState.eq_of_same_name hpo' hpo href.1 href.2
  tauto

/-- An address is never answered with a pod in the network of its node exactly if no slice
places the address on such a pod. -/
theorem podForIP_ne_hostNetwork_iff (index : ServiceIndex) (idx : PodEndpointIndex)
    (slices : GoMap String (RawObject SvcSliceObject)) (pods : PodState) (ip : String) :
    let w : ServiceWatcher := ⟨index, some idx⟩
    (∀ orders, ∀ po ∈ objectsIn .forwards pods.objects, po.hostNetwork = true →
      ip ∈ podAddresses po →
        ((w.applySlices orders slices).applyPods orders pods.objects).podForIP ip ≠
            some (po.namespace_, po.name) ∧
          ((w.applyPods orders pods.objects).applySlices orders slices).podForIP ip ≠
            some (po.namespace_, po.name)) ↔
      ∀ po ∈ objectsIn .forwards pods.objects, po.hostNetwork = true → ip ∈ podAddresses po →
        ∀ so ∈ objectsIn .forwards slices, placedOn ip so ≠ some ⟨po.namespace_, po.name⟩ := by
  intro w
  simp only [applyPods_applySlices_comm, and_self]
  have hanswer : ∀ orders : RangeOrders,
      ((w.applySlices orders slices).applyPods orders pods.objects).podForIP ip =
        (((objectsIn orders.entrySlices slices).findSome? (placedOn ip)).or
          ((objectsIn orders.pods pods.objects).reverse.findSome? (identified ip))).map
          fun ref => (ref.namespace_, ref.pod) := by
    intro orders
    have hall : (w.apply orders ⟨∅, slices, pods.objects⟩).podForIP ip = _ :=
      podForIP_apply rfl orders ip
    exact hall
  constructor
  · intro hnever po hpo hhost hip so hso hplaced
    obtain ⟨order, rest, hfirst⟩ := exists_objectsIn_first hso
    refine hnever { RangeOrders.forwards with entrySlices := order } po hpo hhost hip ?_
    rw [hanswer, hfirst, List.findSome?_cons_of_isSome (by simp [hplaced]), hplaced]
    rfl
  · intro hslices orders po hpo hhost hip hnamed
    rw [hanswer] at hnamed
    obtain ⟨ref, href, hpair⟩ := Option.map_eq_some_iff.mp hnamed
    have hpod : ref = ⟨po.namespace_, po.name⟩ := podRef_eq_of_pair_eq hpair
    subst hpod
    rcases Option.or_eq_some_iff.mp href with hplaced | ⟨-, hidentified⟩
    · obtain ⟨so, hso, hplaced⟩ := List.exists_of_findSome?_eq_some hplaced
      have hmem := (objectsIn_perm orders.entrySlices .forwards slices).mem_iff.mp hso
      exact hslices po hpo hhost hip so hmem hplaced
    · obtain ⟨po', hpo', hidentified⟩ := exists_writer .forwards hidentified
      exact identified_ne_hostNetwork hpo hhost hpo' hidentified

theorem podForIP_answers_hostNetwork :
    let w : ServiceWatcher := ⟨newServiceIndex, some newPodEndpointIndex⟩
    let slices := listed [sliceOf "infra" "exporter-1" "exporter" [⟨"metrics", 9100⟩]
      [readyOn ["192.168.0.9"] "infra" "exporter"]]
    let exporter : PodObject :=
      ⟨"exporter", "infra", true, "192.168.0.9", ["192.168.0.9"], "Running"⟩
    "192.168.0.9" ∈ podAddresses exporter ∧
      ((w.applySlices .forwards slices).applyPods .forwards
        (PodState.list [exporter]).objects).podForIP "192.168.0.9" =
          some ("infra", "exporter") := by
  decide +kernel

end ServiceWatcher

end KloudlensAggregator.Discovery
