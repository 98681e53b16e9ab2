import KloudlensAggregator.ClusterPeers.History
import KloudlensAggregator.Discovery.Backends
import KloudlensAggregator.Discovery.EndpointSlice
import KloudlensAggregator.Discovery.PodIndex

/-!
# Addresses that discovery builds

`ResolveVIP`, `ResolvePodAddr` and `flatten` put an IP address before a port with a
colon between them.  The registry has listeners under the address that
`net.JoinHostPort` writes, and takes addresses apart with `net.SplitHostPort`: both
want brackets around an address with colons.
-/

namespace KloudlensAggregator.ClusterPeers

open KloudlensAggregator.Foundation
open KloudlensAggregator.Discovery
open KloudlensAggregator.Discovery.EndpointSlice

inductive Builder where
  | resolveVIP
  | resolvePodAddr
  | flatten

/-- The address one of the three builds for an IP address and a port. -/
inductive BuiltFrom (ip : String) (port : Int32) : Builder → String → Prop
  | backend {idx : ServiceIndex} {query host addr : String} {number : Int} {svc : ServiceEntry}
      {portRef : SvcPortRef} {group : SliceGroup} {backends : List String}
      (hquery : Asks query host number) (hsvc : idx.services.lookup host = some svc)
      (href : svc.ports.find? (fun p => p.port.toInt = number) = some portRef)
      (hgroup : idx.slices.lookup (svc.namespace_ ++ "/" ++ svc.name) = some group)
      (htarget : group.ports.lookup portRef.name = some port)
      (hanswer : idx.resolveVIP query = some (backends, svc.namespace_, svc.name))
      (hbackend : (ip, addr) ∈ group.podIPs.zip backends) :
      BuiltFrom ip port .resolveVIP addr
  | folded {idx : PodEndpointIndex} {connectAddr connectPort addr : String}
      (hsplit : splitHostPort connectAddr = some (ip, connectPort))
      (hports : idx.ports.lookup ip = some [itoa port.toInt])
      (hanswer : idx.resolvePodAddr connectAddr = some addr) (hfolded : addr ≠ connectAddr) :
      BuiltFrom ip port .resolvePodAddr addr
  | endpoint {order : RangeOrder String SliceObject} {sort : AddrSort}
      {state : GoMap String SliceObject} {targetPort : Int32} {slice : SliceObject}
      (hready : ip ∈ agentsOf targetPort slice) (hport : pickPort slice targetPort = port)
      (hlisted : endpointAt slice port ip ∈ flatten order sort state targetPort) :
      BuiltFrom ip port .flatten (endpointAt slice port ip).addr

variable {ip addr : String} {port : Int32} {builder : Builder}

theorem BuiltFrom.eq (h : BuiltFrom ip port builder addr) :
    addr = ip ++ ":" ++ itoa port.toInt := by
  cases h with
  | backend hquery hsvc href hgroup htarget hanswer hbackend =>
      obtain ⟨portStr, hsplit, hatoi⟩ := hquery
      simp only [ServiceIndex.resolveVIP, hsplit, hatoi, hsvc, href, hgroup, htarget, bind,
        Option.bind_some, Option.ite_none_left_eq_some, Option.some.injEq,
        Prod.mk.injEq] at hanswer
      obtain ⟨-, rfl, -⟩ := hanswer
      rw [← List.map_prod_left_eq_zip, List.mem_map] at hbackend
      obtain ⟨ip', -, heq⟩ := hbackend
      obtain ⟨rfl, rfl⟩ := Prod.mk.inj heq
      rfl
  | folded hsplit hports hanswer hfolded =>
      unfold PodEndpointIndex.resolvePodAddr at hanswer
      simp only [hsplit, hports, Option.getD_some] at hanswer
      grind
  | endpoint hready hport hlisted => rfl

/-! ## Each of the three builds every address -/

theorem exists_backend (hport : port ≠ 0) :
    BuiltFrom ip port .resolveVIP (ip ++ ":" ++ itoa port.toInt) := by
  let idx : ServiceIndex :=
    { services := AList.singleton "10.96.0.1" ⟨"shop", "web", [⟨80, "http"⟩]⟩
      slices := AList.singleton "shop/web" ⟨AList.singleton "http" port, [ip]⟩ }
  have hquery : Asks "10.96.0.1:80" "10.96.0.1" 80 := ⟨"80", by decide +kernel, by decide +kernel⟩
  have hsvc : idx.services.lookup "10.96.0.1" = some ⟨"shop", "web", [⟨80, "http"⟩]⟩ := by
    simp [idx, GoMap.lookup_singleton]
  have hgroup : idx.slices.lookup ("shop" ++ "/" ++ "web") =
      some ⟨AList.singleton "http" port, [ip]⟩ := by
    have hkey : "shop" ++ "/" ++ "web" = "shop/web" := by decide
    rw [hkey]
    simp [idx, GoMap.lookup_singleton]
  have htarget : (AList.singleton "http" port : GoMap String Int32).lookup "http" = some port := by
    simp [GoMap.lookup_singleton]
  obtain ⟨portStr, hsplit, hatoi⟩ := hquery
  refine .backend ⟨portStr, hsplit, hatoi⟩ hsvc rfl hgroup htarget
    (ServiceIndex.resolveVIP_eq_some.mpr ⟨_, portStr, 80, _, _, _, port, hsplit, hatoi, hsvc, rfl,
      hgroup, htarget, hport, by simp, rfl⟩) ?_
  simp

theorem exists_folded (hip : Unbracketed ip) :
    BuiltFrom ip port .resolvePodAddr (ip ++ ":" ++ itoa port.toInt) := by
  let idx := newPodEndpointIndex.replace [⟨ip, [port], "", ""⟩]
  let connectPort := itoa (port.toInt + 1)
  have hports : idx.ports.lookup ip = some [itoa port.toInt] := by
    simp [idx, PodEndpointIndex.replace, Endpoints.add, Endpoints.addPort, Endpoints.empty,
      GoMap.lookup_singleton]
  have haddrs : ∀ a, (idx.addrs.lookup a).isSome → ip ++ ":" ++ itoa port.toInt = a := by
    intro a ha
    simpa [idx, PodEndpointIndex.replace, Endpoints.add, Endpoints.addPort, Endpoints.empty,
      GoMap.lookup_singleton] using ha
  have hsplit : splitHostPort (joinHostPort ip connectPort) = some (ip, connectPort) :=
    splitHostPort_joinHostPort hip (unbracketed_itoa _) (colon_not_mem_itoa _)
  have hother : itoa port.toInt ≠ connectPort := by
    intro heq
    have := itoa_injective heq
    omega
  have hne : ip ++ ":" ++ itoa port.toInt ≠ joinHostPort ip connectPort := by
    intro heq
    exact hother (joined_inj (colon_not_mem_itoa _) (colon_not_mem_itoa _) heq).2
  refine .folded hsplit hports ?_ hne
  have hnone : (idx.addrs.lookup (joinHostPort ip connectPort)).isSome = false := by
    rw [Bool.eq_false_iff]
    exact fun h => hne (haddrs _ h)
  simp [PodEndpointIndex.resolvePodAddr, hsplit, hports, hnone, Ne.symm hother]

private theorem exists_endpoint (hport : port ≠ 0) :
    BuiltFrom ip port .flatten (ip ++ ":" ++ itoa port.toInt) := by
  let slice : SliceObject := ⟨"agents", [⟨port, "grpc"⟩], [⟨[ip], some true, none⟩]⟩
  have hpick : pickPort slice 0 = port := rfl
  have hready : ip ∈ agentsOf 0 slice := by
    rw [agentsOf, hpick, if_neg hport]
    simp [slice, endpointReady]
  have hslice : slice ∈ RangeOrder.forwards.values (AList.singleton "agents" slice) := by
    simp [RangeOrder.values, RangeOrder.forwards, AList.singleton_entries]
  have hlisted : endpointAt slice port ip ∈
      flatten .forwards .insertion (AList.singleton "agents" slice) 0 :=
    mem_flatten.mpr ⟨slice, hslice, ip, hready, by rw [hpick]⟩
  exact .endpoint hready hpick hlisted

private theorem exists_builtFrom (hip : Unbracketed ip) (hport : port ≠ 0) (builder : Builder) :
    BuiltFrom ip port builder (ip ++ ":" ++ itoa port.toInt) := by
  cases builder with
  | resolveVIP => exact exists_backend hport
  | resolvePodAddr => exact exists_folded hip
  | flatten => exact exists_endpoint hport

/-! ## Listeners under the address that `net.JoinHostPort` writes -/

/-- `Join` finds a live listener at the address through a Service, where no other
backend has one. -/
def FoundByVIP (ip : String) (port : Int32) : Prop :=
  ∀ (r : Registry) (env : Resolvers) (now : Int) (query addr : String) (before after : List String)
    (svc : ServiceRef) (l : Listener) (resolve : String → Option (List String × ServiceRef)),
    BuiltFrom ip port .resolveVIP addr → env.svc = some resolve →
    resolve query = some (before ++ addr :: after, svc) →
    (∀ other ∈ before ++ after, r.liveAt env now other = none) →
    r.liveEntry now (.exact (joinHostPort ip (itoa port.toInt))) = some l →
    Registry.stillOwns env l (joinHostPort ip (itoa port.toInt)) = true →
    r.liveExact env query now = none → r.joinEndpointslice env query now = none →
      r.join env query now = some ({ l with service := svc }, .serviceVIP)

def FoundByEndpointslice (ip : String) (port : Int32) : Prop :=
  ∀ (r : Registry) (env : Resolvers) (now : Int) (connectAddr addr : String) (l : Listener)
    (resolve : String → Option String),
    BuiltFrom ip port .resolvePodAddr addr → env.resolver = some resolve →
    resolve connectAddr = some addr →
    r.liveEntry now (.exact (joinHostPort ip (itoa port.toInt))) = some l →
    Registry.stillOwns env l (joinHostPort ip (itoa port.toInt)) = true →
    r.liveExact env connectAddr now = none →
      r.join env connectAddr now = some (l, .endpointslice)

theorem joinHostPort_eq (hcolon : ':' ∉ ip.toList) (port : String) :
    joinHostPort ip port = ip ++ ":" ++ port := by
  rw [joinHostPort, if_neg hcolon]

theorem joinHostPort_ne (hip : Unbracketed ip) (hcolon : ':' ∈ ip.toList) (port : Int32) :
    joinHostPort ip (itoa port.toInt) ≠ ip ++ ":" ++ itoa port.toInt := by
  rw [joinHostPort, if_pos hcolon]
  intro heq
  obtain ⟨hbracket, -⟩ := joined_inj (colon_not_mem_itoa _) (colon_not_mem_itoa _) heq
  refine hip.1 ?_
  rw [← hbracket]
  simp

namespace Registry

variable {r : Registry} {env : Resolvers} {now : Int} {l : Listener}

theorem liveAt_of_liveEntry (hlive : r.liveEntry now (.exact addr) = some l)
    (howns : stillOwns env l addr = true) : r.liveAt env now addr = some l := by
  have hexact : r.liveExact env addr now = some l := by
    rw [liveExact_eq, hlive]
    simp [Option.filter_some, howns]
  rw [liveAt, hexact]

def only (addr : String) : Registry :=
  ⟨AList.singleton addr { bareListener addr false "" "" with expires := 1 }, ∅, defaultTTL⟩

theorem liveEntry_only (addr : String) : (only addr).liveEntry 0 (.exact addr) =
    some { bareListener addr false "" "" with expires := 1 } := by
  simp [only, liveEntry, entry, GoMap.lookup_singleton, Option.filter_some, Listener.isLive]

theorem liveExact_only {addr addr' : String} (hne : addr ≠ addr') :
    (only addr).liveExact env addr' 0 = none := by
  simp [only, liveExact, GoMap.lookup_singleton, hne]

theorem liveWild_only (addr addr' : String) : (only addr).liveWild env addr' 0 = none := by
  unfold liveWild only
  split <;> simp

theorem liveAt_only {addr addr' : String} (hne : addr ≠ addr') :
    (only addr).liveAt env 0 addr' = none := by
  rw [liveAt, liveExact_only hne, liveWild_only]

end Registry

private theorem foundByVIP_iff (hip : Unbracketed ip) (hport : port ≠ 0) :
    FoundByVIP ip port ↔ ':' ∉ ip.toList := by
  constructor
  · intro hfound hcolon
    have hne := joinHostPort_ne hip hcolon port
    let env : Resolvers :=
      ⟨none, some fun _ => some ([ip ++ ":" ++ itoa port.toInt], ⟨"shop", "web"⟩), none⟩
    have hjoin := hfound (.only (joinHostPort ip (itoa port.toInt))) env 0
      (ip ++ ":" ++ itoa port.toInt) _ [] [] ⟨"shop", "web"⟩ _ _ (exists_backend hport) rfl rfl
      (by simp) (Registry.liveEntry_only _) rfl (Registry.liveExact_only hne) rfl
    simp [Registry.join, Registry.liveExact_only hne, Registry.joinEndpointslice,
      Registry.joinServiceVIP, Registry.resolveVIP, Registry.liveAt_only hne,
      Registry.liveWild_only, env] at hjoin
  · intro hcolon r env now query addr before after svc l resolve hbuilt hsvc hresolve hothers hlive
      howns hexact hslice
    rw [joinHostPort_eq hcolon, ← hbuilt.eq] at hlive howns
    have hnone : ∀ backends : List String, (∀ b ∈ backends, r.liveAt env now b = none) →
        backends.filterMap (r.liveAt env now) = [] :=
      fun backends h => List.filterMap_eq_nil_iff.mpr h
    have hbackends : (before ++ addr :: after).filterMap (r.liveAt env now) = [l] := by
      rw [List.filterMap_append,
        List.filterMap_cons_some (Registry.liveAt_of_liveEntry hlive howns),
        hnone before fun b hb => hothers b (List.mem_append_left _ hb),
        hnone after fun b hb => hothers b (List.mem_append_right _ hb), List.nil_append]
    simp only [Registry.join, hexact, hslice, Registry.joinServiceVIP, hsvc, hresolve,
      Registry.resolveVIP, hbackends]

private theorem foundByEndpointslice_iff (hip : Unbracketed ip) :
    FoundByEndpointslice ip port ↔ ':' ∉ ip.toList := by
  constructor
  · intro hfound hcolon
    have hne := joinHostPort_ne hip hcolon port
    let env : Resolvers := ⟨some fun _ => some (ip ++ ":" ++ itoa port.toInt), none, none⟩
    have hjoin := hfound (.only (joinHostPort ip (itoa port.toInt))) env 0
      (ip ++ ":" ++ itoa port.toInt) _ _ _ (exists_folded hip) rfl rfl
      (Registry.liveEntry_only _) rfl (Registry.liveExact_only hne)
    simp [Registry.join, Registry.liveExact_only hne, Registry.joinEndpointslice,
      Registry.joinServiceVIP, Registry.liveAt_only hne, Registry.liveWild_only, env] at hjoin
  · intro hcolon r env now connectAddr addr l resolve hbuilt hresolver hresolve hlive howns hexact
    rw [joinHostPort_eq hcolon, ← hbuilt.eq] at hlive howns
    simp only [Registry.join, hexact, Registry.joinEndpointslice, hresolver, hresolve,
      Registry.liveAt_of_liveEntry hlive howns]

/-- An address of discovery is read back, and its listener found, exactly if the IP
address has no colon. -/
theorem discovered_addresses_usable_iff (ip : String) (hip : Unbracketed ip) (port : Int32)
    (hport : port ≠ 0) :
    (∀ builder, (∀ addr, BuiltFrom ip port builder addr →
      splitHostPort addr = some (ip, itoa port.toInt)) ↔ ':' ∉ ip.toList) ∧
      (FoundByVIP ip port ↔ ':' ∉ ip.toList) ∧
      (FoundByEndpointslice ip port ↔ ':' ∉ ip.toList) := by
  refine ⟨fun builder => ?_, foundByVIP_iff hip hport, foundByEndpointslice_iff hip⟩
  have hparse := splitHostPort_append_iff hip (unbracketed_itoa port.toInt) (colon_not_mem_itoa _)
  constructor
  · intro hall
    exact hparse.mp (hall _ (exists_builtFrom hip hport builder))
  · intro hcolon addr hbuilt
    rw [hbuilt.eq]
    exact hparse.mpr hcolon

theorem discovered_addresses_usable_loopback :
    Unbracketed "::1" ∧ (8080 : Int32) ≠ 0 ∧
      ¬ FoundByVIP "::1" 8080 ∧ ¬ FoundByEndpointslice "::1" 8080 := by
  have hip : Unbracketed "::1" := ⟨by decide, by decide⟩
  have hcolon : ':' ∈ "::1".toList := by decide
  obtain ⟨-, hvip, hslice⟩ := discovered_addresses_usable_iff "::1" hip 8080 (by decide)
  exact ⟨hip, by decide, fun h => hvip.mp h hcolon, fun h => hslice.mp h hcolon⟩

theorem discovered_address_unusable :
    let idx : ServiceIndex :=
      ⟨AList.singleton "10.96.0.1" ⟨"shop", "web", [⟨80, "http"⟩]⟩,
        AList.singleton "shop/web" ⟨AList.singleton "http" 8080, ["fd00::7"]⟩⟩
    let podIdx := newPodEndpointIndex.replace [⟨"fd00::7", [8080], "shop", "web-1"⟩]
    let agents : GoMap String SliceObject := AList.singleton "agents"
      ⟨"agents", [⟨8080, "grpc"⟩], [⟨["fd00::7"], some true, none⟩]⟩
    let env : Resolvers := ⟨some podIdx.resolvePodAddr, some fun addr =>
      (idx.resolveVIP addr).map fun answer => (answer.1, ⟨answer.2.1, answer.2.2⟩), none⟩
    let r := (newRegistry 0).observe 0
      (bareListener (joinHostPort "fd00::7" "8080") false "shop" "web-1")
    idx.resolveVIP "10.96.0.1:80" = some (["fd00::7:8080"], "shop", "web") ∧
      podIdx.resolvePodAddr "[fd00::7]:80" = some "fd00::7:8080" ∧
      flatten .forwards .insertion agents 8080 = [⟨"agents/fd00::7", "fd00::7:8080"⟩] ∧
      splitHostPort "fd00::7:8080" = none ∧
      (r.liveEntry 1 (.exact "[fd00::7]:8080")).isSome = true ∧
      r.join env "10.96.0.1:80" 1 = none ∧ r.join env "[fd00::7]:80" 1 = none := by
  decide +kernel

end KloudlensAggregator.ClusterPeers
