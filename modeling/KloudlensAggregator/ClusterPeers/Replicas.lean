import Mathlib.Data.List.Dedup
import KloudlensAggregator.ClusterPeers.History

/-!
# The replicas behind a Service

`resolveVIP` counts the backends that reach a live listener.  Two backends may reach
the same entry: a wildcard listener answers for every address of its pod, and
without a pod locator for every address at all.
-/

namespace KloudlensAggregator.ClusterPeers

open KloudlensAggregator.Foundation

def OneWorkload (listeners : List Listener) : Prop :=
  ∀ l ∈ listeners, ∀ l' ∈ listeners, l.process = l'.process ∧ l.image = l'.image

theorem any_differs_iff {l : Listener} {others : List Listener} :
    (others.any fun other => other.process ≠ l.process || other.image ≠ l.image) = true ↔
      ¬ OneWorkload (l :: others) := by
  rw [← not_iff_not, not_not, Bool.not_eq_true, List.any_eq_false]
  constructor
  · intro h
    have hrep : ∀ l' ∈ l :: others, l'.process = l.process ∧ l'.image = l.image := by
      intro l' hl'
      rcases List.mem_cons.mp hl' with rfl | hother
      · exact ⟨rfl, rfl⟩
      · simpa using h l' hother
    intro l₁ h₁ l₂ h₂
    exact ⟨(hrep l₁ h₁).1.trans (hrep l₂ h₂).1.symm, (hrep l₁ h₁).2.trans (hrep l₂ h₂).2.symm⟩
  · intro h other hother
    simpa using h other (List.mem_cons_of_mem _ hother) l List.mem_cons_self

namespace Registry

variable {r : Registry} {env : Resolvers} {now : Int} {backends : List String}
  {svc : ServiceRef} {l : Listener}

/-! ## The entry a backend reaches -/

def soleLiveKey (r : Registry) (portKey : String) (now : Int) : Option Key :=
  match r.liveWildEntries portKey now with
  | [e] => some (.wild portKey e.1)
  | _ => none

def wildKey (r : Registry) (env : Resolvers) (addr : String) (now : Int) : Option Key :=
  match splitHostPort addr with
  | none => none
  | some (host, port) =>
      if port = "" then none
      else
        match env.podLoc with
        | some podForIP =>
            match podForIP host with
            | none => none
            | some (ns, pod) =>
                let own := Key.wild (":" ++ port) (podIdent ns pod)
                if (r.liveEntry now own).isSome then some own
                else
                  (r.soleLiveKey (":" ++ port) now).filter fun key =>
                    (r.liveEntry now key).any fun l => l.pod = pod
        | none => r.soleLiveKey (":" ++ port) now

/-- The entry under which the lookup for a backend finds its listener. -/
def reached (r : Registry) (env : Resolvers) (now : Int) (addr : String) : Option Key :=
  if (r.liveExact env addr now).isSome then some (.exact addr) else r.wildKey env addr now

theorem liveEntry_of_soleLiveKey {portKey : String} {key : Key}
    (h : r.soleLiveKey portKey now = some key) : (r.liveEntry now key).isSome = true := by
  unfold soleLiveKey at h
  split at h
  · rename_i e hentries
    cases h
    have hmem : e ∈ r.liveWildEntries portKey now := by simp [hentries]
    simp [mem_liveWildEntries.mp hmem]
  · cases h

theorem soleLiveWild_eq_bind (r : Registry) (portKey : String) (now : Int) :
    r.soleLiveWild portKey now = (r.soleLiveKey portKey now).bind (r.liveEntry now) := by
  unfold soleLiveWild soleLiveKey
  rcases hentries : r.liveWildEntries portKey now with _ | ⟨e, _ | ⟨e', rest⟩⟩
  · rfl
  · have hmem : e ∈ r.liveWildEntries portKey now := by simp [hentries]
    exact (mem_liveWildEntries.mp hmem).symm
  · rfl

private theorem soleLiveWildForPod_eq_bind (r : Registry) (portKey pod : String) (now : Int) :
    r.soleLiveWildForPod portKey pod now =
      ((r.soleLiveKey portKey now).filter fun key =>
        (r.liveEntry now key).any fun l => l.pod = pod).bind (r.liveEntry now) := by
  rw [soleLiveWildForPod, soleLiveWild_eq_bind]
  cases r.soleLiveKey portKey now with
  | none => rfl
  | some key =>
      rw [Option.bind_some]
      cases hlive : r.liveEntry now key with
      | none => simp [Option.filter_some, hlive]
      | some l => by_cases hpod : l.pod = pod <;> simp [Option.filter_some, hlive, hpod]

private theorem liveWild_eq_bind (r : Registry) (env : Resolvers) (addr : String) (now : Int) :
    r.liveWild env addr now = (r.wildKey env addr now).bind (r.liveEntry now) := by
  rw [liveWild_eq, wildKey]
  cases splitHostPort addr with
  | none => rfl
  | some hostport =>
      obtain ⟨host, port⟩ := hostport
      dsimp only
      by_cases hport : port = ""
      · simp [hport]
      · rw [if_neg hport, if_neg hport]
        cases env.podLoc with
        | none => exact soleLiveWild_eq_bind r _ now
        | some podForIP =>
            dsimp only
            cases podForIP host with
            | none => rfl
            | some place =>
                obtain ⟨ns, pod⟩ := place
                simp only [liveWildPod_eq]
                cases hown : r.liveEntry now (.wild (":" ++ port) (podIdent ns pod)) with
                | some l => simp [hown]
                | none => simpa using soleLiveWildForPod_eq_bind r _ pod now

private theorem liveAt_eq_bind (r : Registry) (env : Resolvers) (now : Int) (addr : String) :
    r.liveAt env now addr = (r.reached env now addr).bind (r.liveEntry now) := by
  rw [liveAt, reached]
  cases hexact : r.liveExact env addr now with
  | none =>
      rw [if_neg (by simp)]
      exact liveWild_eq_bind r env addr now
  | some l =>
      rw [liveExact_eq, Option.filter_eq_some_iff] at hexact
      simp [hexact.1]

private theorem liveEntry_of_reached {addr : String} {key : Key}
    (h : r.reached env now addr = some key) :
    (r.liveEntry now key).isSome = true := by
  unfold reached at h
  split at h
  · rename_i hexact
    cases h
    rw [liveExact_eq, Option.isSome_iff_exists] at hexact
    obtain ⟨l, hl⟩ := hexact
    simp [(Option.filter_eq_some_iff.mp hl).1]
  · unfold wildKey at h
    split at h
    · cases h
    · split at h
      · cases h
      · split at h
        · split at h
          · cases h
          · dsimp only at h
            split at h
            · rename_i hown
              cases h
              exact hown
            · exact liveEntry_of_soleLiveKey (Option.filter_eq_some_iff.mp h).1
        · exact liveEntry_of_soleLiveKey h

private theorem isSome_liveAt (r : Registry) (env : Resolvers) (now : Int) (addr : String) :
    (r.liveAt env now addr).isSome = (r.reached env now addr).isSome := by
  rw [liveAt_eq_bind]
  cases hreached : r.reached env now addr with
  | none => rfl
  | some key => simpa using liveEntry_of_reached hreached

/-! ## Listeners and entries -/

def liveListeners (r : Registry) (env : Resolvers) (now : Int) (backends : List String) :
    List Listener :=
  backends.filterMap (r.liveAt env now)

def reachedEntries (r : Registry) (env : Resolvers) (now : Int) (backends : List String) :
    List Key :=
  backends.filterMap (r.reached env now)

private theorem length_reachedEntries (r : Registry) (env : Resolvers) (now : Int)
    (backends : List String) :
    (r.reachedEntries env now backends).length = (r.liveListeners env now backends).length := by
  rw [reachedEntries, liveListeners, List.length_filterMap_eq_countP,
    List.length_filterMap_eq_countP]
  exact List.countP_congr fun b _ => by rw [isSome_liveAt]

section Answer

variable {other : Listener} {others : List Listener}

theorem resolveVIP_nil (hlive : r.liveListeners env now backends = []) :
    r.resolveVIP env backends svc now = none := by
  rw [liveListeners] at hlive
  simp only [resolveVIP, hlive]

theorem resolveVIP_singleton (hlive : r.liveListeners env now backends = [l]) :
    r.resolveVIP env backends svc now = some { l with service := svc } := by
  rw [liveListeners] at hlive
  simp only [resolveVIP, hlive]

theorem resolveVIP_of_oneWorkload
    (hlive : r.liveListeners env now backends = l :: other :: others)
    (hone : OneWorkload (r.liveListeners env now backends)) :
    r.resolveVIP env backends svc now =
      some { l with
        service := svc, replicaAmbiguous := true,
        replicaCount := (r.liveListeners env now backends).length } := by
  rw [hlive] at hone ⊢
  rw [liveListeners] at hlive
  simp only [resolveVIP, hlive]
  rw [if_neg (any_differs_iff.not.mpr (not_not.mpr hone))]
  rfl

theorem resolveVIP_of_not_oneWorkload
    (hdiffer : ¬ OneWorkload (r.liveListeners env now backends)) :
    r.resolveVIP env backends svc now = none := by
  rcases hlive : r.liveListeners env now backends with _ | ⟨l, _ | ⟨other, others⟩⟩
  · exact resolveVIP_nil hlive
  · refine absurd ?_ hdiffer
    rw [hlive]
    intro l₁ h₁ l₂ h₂
    rw [List.mem_singleton.mp h₁, List.mem_singleton.mp h₂]
    exact ⟨rfl, rfl⟩
  · rw [hlive] at hdiffer
    rw [liveListeners] at hlive
    simp only [resolveVIP, hlive]
    rw [if_pos (any_differs_iff.mpr hdiffer)]

end Answer

/-- The answer for a Service counts the entries that its backends reach. -/
structure CountsEntries (r : Registry) (env : Resolvers) (now : Int) (backends : List String)
    (svc : ServiceRef) : Prop where
  succeeds : (r.resolveVIP env backends svc now).isSome = true ↔
    (∃ b ∈ backends, (r.liveAt env now b).isSome = true) ∧
      OneWorkload (r.liveListeners env now backends)
  ambiguous : ∀ l, r.resolveVIP env backends svc now = some l →
    (l.replicaAmbiguous = true ↔ 2 ≤ (r.reachedEntries env now backends).dedup.length)
  counted : ∀ l, r.resolveVIP env backends svc now = some l → l.replicaAmbiguous = true →
    l.replicaCount = (r.reachedEntries env now backends).dedup.length

theorem resolveVIP_isSome_iff (r : Registry) (env : Resolvers) (now : Int)
    (backends : List String) (svc : ServiceRef) :
    (r.resolveVIP env backends svc now).isSome = true ↔
      (∃ b ∈ backends, (r.liveAt env now b).isSome = true) ∧
        OneWorkload (r.liveListeners env now backends) := by
  have hsome : (∃ b ∈ backends, (r.liveAt env now b).isSome = true) ↔
      r.liveListeners env now backends ≠ [] := by
    rw [liveListeners, ne_eq, List.filterMap_eq_nil_iff]
    simp [Option.isSome_iff_ne_none]
  rw [hsome]
  by_cases hone : OneWorkload (r.liveListeners env now backends)
  · rw [and_iff_left hone]
    rcases hlive : r.liveListeners env now backends with _ | ⟨l, _ | ⟨other, others⟩⟩
    · simp [resolveVIP_nil hlive]
    · simp [resolveVIP_singleton hlive]
    · simp [resolveVIP_of_oneWorkload hlive hone]
  · simp [resolveVIP_of_not_oneWorkload hone, hone]

/-- It does so exactly if the listeners disagree, or no two backends reach the same entry.
Besides, a listener must not have been observed as ambiguous already. -/
theorem resolveVIP_countsEntries_iff (r : Registry) (env : Resolvers) (now : Int)
    (backends : List String) (svc : ServiceRef) :
    r.CountsEntries env now backends svc ↔
      (OneWorkload (r.liveListeners env now backends) →
        (r.reachedEntries env now backends).Nodup) ∧
      ∀ l, r.liveListeners env now backends = [l] → l.replicaAmbiguous = false := by
  have hlength := r.length_reachedEntries env now backends
  constructor
  · intro h
    refine ⟨fun hone => ?_, fun l hlive => ?_⟩
    · rcases hlive : r.liveListeners env now backends with _ | ⟨l, _ | ⟨other, others⟩⟩
      · rw [hlive, List.length_nil, List.length_eq_zero_iff] at hlength
        simp [hlength]
      · rw [hlive, List.length_singleton, List.length_eq_one_iff] at hlength
        obtain ⟨key, hkey⟩ := hlength
        simp [hkey]
      · have hcount := h.counted _ (resolveVIP_of_oneWorkload hlive hone) rfl
        dsimp only at hcount
        rw [← hlength] at hcount
        have hdedup := (List.dedup_sublist (r.reachedEntries env now backends)).eq_of_length
          hcount.symm
        rw [← hdedup]
        exact List.nodup_dedup _
    · have hambiguous := h.ambiguous _ (resolveVIP_singleton hlive)
      rw [hlive, List.length_singleton, List.length_eq_one_iff] at hlength
      obtain ⟨key, hkey⟩ := hlength
      simpa [hkey] using hambiguous
  · rintro ⟨hnodup, hfresh⟩
    have hanswer : ∀ l, r.resolveVIP env backends svc now = some l →
        (l.replicaAmbiguous = true ↔ 2 ≤ (r.reachedEntries env now backends).dedup.length) ∧
        (l.replicaAmbiguous = true →
          l.replicaCount = (r.reachedEntries env now backends).dedup.length) := by
      intro l hresolve
      have hone := ((resolveVIP_isSome_iff r env now backends svc).mp (by simp [hresolve])).2
      rw [(hnodup hone).dedup, hlength]
      rcases hlive : r.liveListeners env now backends with _ | ⟨base, _ | ⟨other, others⟩⟩
      · rw [resolveVIP_nil hlive] at hresolve
        cases hresolve
      · rw [resolveVIP_singleton hlive] at hresolve
        cases hresolve
        simp [hfresh base hlive]
      · rw [resolveVIP_of_oneWorkload hlive hone] at hresolve
        cases hresolve
        simp [hlive]
    exact ⟨resolveVIP_isSome_iff r env now backends svc, fun l h => (hanswer l h).1,
      fun l h => (hanswer l h).2⟩

theorem resolveVIP_counts_entry_twice :
    let env : Resolvers := ⟨none, none, none⟩
    let r := (newRegistry 0).observe 0
      { bareListener "0.0.0.0:8080" true "shop" "web-1" with port := "8080", process := "web" }
    let backends := ["10.0.0.1:8080", "10.0.0.2:8080"]
    r.reachedEntries env 1 backends =
        [.wild ":8080" "shop/web-1", .wild ":8080" "shop/web-1"] ∧
      (r.reachedEntries env 1 backends).dedup.length = 1 ∧
      (r.resolveVIP env backends ⟨"shop", "web"⟩ 1).map (fun l =>
        (l.pod, l.replicaAmbiguous, l.replicaCount)) = some ("web-1", true, 2) := by
  decide +kernel

end Registry

end KloudlensAggregator.ClusterPeers
