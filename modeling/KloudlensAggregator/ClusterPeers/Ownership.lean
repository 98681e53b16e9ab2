import KloudlensAggregator.ClusterPeers.Refinement
import KloudlensAggregator.Discovery.PodIndex
import KloudlensAggregator.Discovery.ServiceIndex

/-!
# Whose listener a join names

With a pod index as resolver and as locator, an answer of `Join` for an address is
a listener of the pod that the index places at this address.  The exceptions are
those the registry allows: an address that no pod is known for, a listener
advertised without a pod, and the only wildcard listener of a port under the same
pod name.
-/

namespace KloudlensAggregator.ClusterPeers

open KloudlensAggregator.Foundation
open KloudlensAggregator.Discovery

def Listener.WellAdvertised (l : Listener) : Prop :=
  (splitHostPort l.addr).isSome = true ∧ '/' ∉ l.namespace_.toList ∧ '/' ∉ l.pod.toList

instance (l : Listener) : Decidable l.WellAdvertised :=
  inferInstanceAs (Decidable (_ ∧ _ ∧ _))

def History.WellAdvertised (ops : History) : Prop :=
  ∀ op ∈ ops, ∀ l, op.2 = .observe l → l.WellAdvertised

def wired (idx : PodEndpointIndex) (svc : ServiceIndex) : Resolvers where
  resolver := some idx.resolvePodAddr
  svc := some fun addr => (svc.resolveVIP addr).map fun (backends, ns, name) =>
    (backends, ⟨ns, name⟩)
  podLoc := some idx.podForIP

private theorem podIdent_inj {ns pod ns' pod' : String} (hns : '/' ∉ ns.toList)
    (hpod : '/' ∉ pod.toList)
    (h : podIdent ns pod = podIdent ns' pod') : ns = ns' ∧ pod = pod' := by
  have hlists := congrArg String.toList h
  simp only [podIdent, String.toList_append, List.append_assoc] at hlists
  have hinj := (List.append_cons_inj_of_notMem hns hpod).mp hlists
  exact ⟨String.toList_inj.mp hinj.1, String.toList_inj.mp hinj.2.2⟩

namespace Registry

variable {r : Registry} {idx : PodEndpointIndex} {svc : ServiceIndex} {now : Int}

/-! ## Entries of a run -/

structure WellIndexed (r : Registry) : Prop where
  key_eq : ∀ key l, r.entry key = some l → l.key = some key
  wellAdvertised : ∀ key l, r.entry key = some l → l.WellAdvertised

theorem WellIndexed.apply (h : r.WellIndexed) (op : Int × Op)
    (hop : ∀ l, op.2 = .observe l → l.WellAdvertised) : (r.apply op).WellIndexed := by
  have hentry : ∀ key l, (r.apply op).entry key = some l →
      (l.key = some key ∧ l.WellAdvertised) ∨ r.entry key = some l := by
    intro key l hl
    obtain ⟨t, op⟩ := op
    cases op with
    | observe l' =>
        simp only [Registry.apply, entry_observe] at hl
        split at hl
        · rename_i hkey
          cases hl
          exact Or.inl ⟨hkey, hop l' rfl⟩
        · exact Or.inr hl
    | remove l' =>
        simp only [Registry.apply, entry_remove] at hl
        split at hl
        · cases hl
        · exact Or.inr hl
    | sweep =>
        simp only [Registry.apply, entry_sweep] at hl
        exact Or.inr (Option.filter_eq_some_iff.mp hl).1
  constructor
  · intro key l hl
    rcases hentry key l hl with hnew | hold
    · exact hnew.1
    · exact h.key_eq key l hold
  · intro key l hl
    rcases hentry key l hl with hnew | hold
    · exact hnew.2
    · exact h.wellAdvertised key l hold

private theorem wellIndexed_run (ttl : Int) {ops : History} (hops : ops.WellAdvertised) :
    (run ttl ops).WellIndexed := by
  induction ops using List.reverseRecOn with
  | nil =>
      constructor <;>
        intro key l hl <;> rw [run_nil, entry_newRegistry] at hl <;> cases hl
  | append_singleton ops op ih =>
      rw [run_append]
      exact (ih fun op' hmem => hops op' (List.mem_append_left _ hmem)).apply op
        (hops op (by simp))

theorem liveEntry_eq_some {key : Key} {l : Listener} :
    r.liveEntry now key = some l ↔ r.entry key = some l ∧ l.isLive now = true :=
  Option.filter_eq_some_iff

/-! ## Owners -/

def FromExact (r : Registry) (now : Int) (l : Listener) : Prop :=
  r.liveEntry now (.exact l.addr) = some l

def FromSoleWild (r : Registry) (now : Int) (l : Listener) : Prop :=
  ∃ portKey ident, l.key = some (.wild portKey ident) ∧
    ∀ ident' l', r.liveEntry now (.wild portKey ident') = some l' ↔ ident' = ident ∧ l' = l

/-- What may be said of a listener found at `ip`. -/
def Owns (r : Registry) (idx : PodEndpointIndex) (now : Int) (ip : String) (l : Listener) : Prop :=
  match idx.podForIP ip with
  | none => r.FromExact now l
  | some (ns, pod) =>
      (l.namespace_, l.pod) = (ns, pod) ∨ (r.FromExact now l ∧ l.pod = "") ∨
        (l.pod = pod ∧ r.FromSoleWild now l)

/-- A lookup at `addr` finds a listener of the owner of its host. -/
def OwnedAt (r : Registry) (idx : PodEndpointIndex) (now : Int) (addr : String) (l : Listener) :
    Prop :=
  ∃ host port, splitHostPort addr = some (host, port) ∧ r.Owns idx now host l

theorem ownedAt_of_liveExact (h : r.WellIndexed) {addr : String} {l : Listener}
    (hlive : r.liveExact (wired idx svc) addr now = some l) : r.OwnedAt idx now addr l := by
  rw [liveExact_eq, Option.filter_eq_some_iff] at hlive
  obtain ⟨hlive, howns⟩ := hlive
  have hentry := (liveEntry_eq_some.mp hlive).1
  have haddr : l.addr = addr := by
    have hkey := h.key_eq _ _ hentry
    unfold Listener.key at hkey
    split at hkey
    · cases hkey
    · split at hkey
      · split at hkey <;> cases hkey
      · cases hkey
        rfl
  subst haddr
  obtain ⟨⟨host, port⟩, hsplit⟩ := Option.isSome_iff_exists.mp (h.wellAdvertised _ _ hentry).1
  refine ⟨host, port, hsplit, ?_⟩
  unfold Owns
  cases hpod : idx.podForIP host with
  | none => exact hlive
  | some owner =>
      obtain ⟨ns, pod⟩ := owner
      by_cases hempty : l.pod = ""
      · exact Or.inr (Or.inl ⟨hlive, hempty⟩)
      · simp only [stillOwns, wired, hempty, if_false, hsplit, hpod, Bool.and_eq_true,
          beq_iff_eq] at howns
        exact Or.inl (by rw [howns.1, howns.2])

private theorem fromSoleWild_of_soleLiveWild (h : r.WellIndexed) {portKey : String} {l : Listener}
    (hsole : r.soleLiveWild portKey now = some l) : r.FromSoleWild now l := by
  unfold soleLiveWild at hsole
  split at hsole
  · rename_i e hentries
    obtain ⟨ident, sole⟩ := e
    cases hsole
    have hiff : ∀ ident' l', r.liveEntry now (.wild portKey ident') = some l' ↔
        ident' = ident ∧ l' = sole := by
      intro ident' l'
      rw [← mem_liveWildEntries, hentries]
      simp
    have hlive := (hiff ident sole).mpr ⟨rfl, rfl⟩
    exact ⟨portKey, ident, h.key_eq _ _ (liveEntry_eq_some.mp hlive).1, hiff⟩
  · cases hsole

theorem ownedAt_of_liveWild (h : r.WellIndexed) {addr : String} {l : Listener}
    (hlive : r.liveWild (wired idx svc) addr now = some l) : r.OwnedAt idx now addr l := by
  obtain ⟨host, port, hsplit, ⟨hnone, -⟩ | ⟨podForIP, ns, pod, hloc, hpod, hfound⟩⟩ :=
    liveWild_cases hlive
  · cases hnone
  · cases hloc
    refine ⟨host, port, hsplit, ?_⟩
    unfold Owns
    rw [hpod]
    rcases hfound with hown | ⟨hsole, hname⟩
    · rw [liveWildPod_eq] at hown
      have hentry := (liveEntry_eq_some.mp hown).1
      have hident : podIdent l.namespace_ l.pod = podIdent ns pod := by
        have hkey := h.key_eq _ _ hentry
        unfold Listener.key at hkey
        split at hkey
        · cases hkey
        · split at hkey
          · split at hkey
            · cases hkey
            · exact (Key.wild.inj (Option.some.inj hkey)).2
          · cases hkey
      have hwell := h.wellAdvertised _ _ hentry
      obtain ⟨hns, hname⟩ := podIdent_inj hwell.2.1 hwell.2.2 hident
      exact Or.inl (by rw [hns, hname])
    · exact Or.inr (Or.inr ⟨hname, fromSoleWild_of_soleLiveWild h hsole⟩)

theorem ownedAt_of_liveAt (h : r.WellIndexed) {addr : String} {l : Listener}
    (hlive : r.liveAt (wired idx svc) now addr = some l) : r.OwnedAt idx now addr l := by
  rcases liveAt_cases hlive with hexact | hwild
  · exact ownedAt_of_liveExact h hexact
  · exact ownedAt_of_liveWild h hwild

private theorem ownedAt_of_resolvePodAddr {connectAddr podAddr : String} {l : Listener}
    (hresolve : idx.resolvePodAddr connectAddr = some podAddr)
    (h : r.OwnedAt idx now podAddr l) : r.OwnedAt idx now connectAddr l := by
  obtain ⟨host, port, hsplit, howns⟩ := h
  obtain ⟨connectPort, hconnect⟩ := PodEndpointIndex.resolvePodAddr_host hresolve hsplit
  exact ⟨host, connectPort, hconnect, howns⟩

/-- An answer for a Service is found under the address of a backend, every other
answer belongs to the address of the connect. -/
theorem join_names_owner (ttl : Int) (ops : History) (hops : ops.WellAdvertised)
    (idx : PodEndpointIndex) (svc : ServiceIndex) (connectAddr : String) (now : Int)
    (l : Listener) (how : How)
    (hjoin : (run ttl ops).join (wired idx svc) connectAddr now = some (l, how)) :
    if how = .serviceVIP then
      ∃ backends ns name backend base, svc.resolveVIP connectAddr = some (backends, ns, name) ∧
        backend ∈ backends ∧ (run ttl ops).liveAt (wired idx svc) now backend = some base ∧
        l.advertised = base.advertised ∧ (run ttl ops).OwnedAt idx now backend base
    else (run ttl ops).OwnedAt idx now connectAddr l := by
  have hindexed := wellIndexed_run ttl hops
  rcases join_cases hjoin with ⟨rfl, hexact⟩ | ⟨rfl, resolve, podAddr, hresolver, hpodAddr, hat⟩ |
    ⟨rfl, resolve, backends, service, hsvc, hbackends, hvip⟩ | ⟨rfl, hwild⟩
  · exact ownedAt_of_liveExact hindexed hexact
  · cases hresolver
    exact ownedAt_of_resolvePodAddr hpodAddr (ownedAt_of_liveAt hindexed hat)
  · cases hsvc
    obtain ⟨⟨backends', ns, name⟩, hfound, hpair⟩ := Option.map_eq_some_iff.mp hbackends
    cases hpair
    obtain ⟨backend, hmem, base, hat, hsame⟩ := resolveVIP_backend hvip
    exact ⟨backends, ns, name, backend, base, hfound, hmem, hat, hsame,
      ownedAt_of_liveAt hindexed hat⟩
  · exact ownedAt_of_liveWild hindexed hwild

theorem join_names_owner_folded :
    let web := bareListener "0.0.0.0:8080" true "shop" "web"
    let idx := newPodEndpointIndex.replace [⟨"10.0.0.1", [8080], "shop", "web"⟩]
    (run 30 [(0, .observe web)]).join (wired idx newServiceIndex) "10.0.0.1:80" 5 =
        some ({ web with expires := 30 }, .endpointslice) ∧
      (run 30 [(0, .observe web)]).OwnedAt idx 5 "10.0.0.1:80" { web with expires := 30 } := by
  intro web idx
  have hops : History.WellAdvertised [(0, .observe web)] := by
    intro op hmem l hobserve
    rw [List.mem_singleton.mp hmem] at hobserve
    cases hobserve
    decide +kernel
  have hjoin : (run 30 [(0, .observe web)]).join (wired idx newServiceIndex) "10.0.0.1:80" 5 =
      some ({ web with expires := 30 }, .endpointslice) := by
    decide +kernel
  exact ⟨hjoin, join_names_owner 30 _ hops idx newServiceIndex "10.0.0.1:80" 5 _ _ hjoin⟩

end Registry

end KloudlensAggregator.ClusterPeers
