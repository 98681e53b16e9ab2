import KloudlensAggregator.Foundation.GoMap
import KloudlensAggregator.Foundation.HostPort

/-!
# The cluster listener registry

Advertised listeners with a TTL, indexed by address, or by port and pod where
they are bound to every address, and the four steps of `Join`.  Times are in
nanoseconds.  The resolvers are parameters of a `Join`: they are shared indexes
that other goroutines refresh.
-/

namespace KloudlensAggregator.ClusterPeers

open KloudlensAggregator.Foundation

structure ServiceRef where
  namespace_ : String
  name : String
  deriving DecidableEq, Repr

def ServiceRef.toText (s : ServiceRef) : String :=
  if s.namespace_ = "" ∧ s.name = "" then "" else s.namespace_ ++ "/" ++ s.name

structure Listener where
  addr : String
  port : String
  pid : String
  process : String
  wildcard : Bool
  nodeName : String
  namespace_ : String
  pod : String
  container : String
  containerId : String
  image : String
  service : ServiceRef
  replicaAmbiguous : Bool
  replicaCount : Nat
  expires : Int
  deriving DecidableEq, Repr

/-- The listener without the fields that only a Service resolution sets. -/
def Listener.advertised (l : Listener) : Listener :=
  { l with service := ⟨"", ""⟩, replicaAmbiguous := false, replicaCount := 0 }

inductive How where
  | miss
  | direct
  | endpointslice
  | wildcard
  | serviceVIP
  deriving DecidableEq, Repr

def How.via : How → String
  | .endpointslice => "endpointslice"
  | .serviceVIP => "service-vip"
  | _ => "direct"

/-- The interfaces `EndpointResolver`, `ServiceResolver` and `PodLocator`, each of
which may be missing. -/
structure Resolvers where
  resolver : Option (String → Option String)
  svc : Option (String → Option (List String × ServiceRef))
  podLoc : Option (String → Option (String × String))

structure Registry where
  exact : GoMap String Listener
  wild : GoMap String (GoMap String Listener)
  ttl : Int

def defaultTTL : Int := 30 * 10 ^ 9

def newRegistry (ttl : Int) : Registry := ⟨∅, ∅, if ttl ≤ 0 then defaultTTL else ttl⟩

def Listener.isLive (now : Int) (l : Listener) : Bool := now < l.expires

def portOf (explicit addr : String) : String :=
  if explicit ≠ "" then explicit
  else
    match splitHostPort addr with
    | some (_, port) => port
    | none => ""

def podIdent (namespace_ pod : String) : String := namespace_ ++ "/" ++ pod

namespace Registry

/-! ## Updates -/

def observe (r : Registry) (now : Int) (l : Listener) : Registry :=
  if l.addr = "" then r
  else
    let entry := { l with expires := now + r.ttl }
    if l.wildcard then
      let port := portOf l.port l.addr
      if port = "" then r
      else
        let inner := (r.wild.lookup (":" ++ port)).getD ∅
        { r with
          wild := r.wild.insert (":" ++ port)
            (inner.insert (podIdent l.namespace_ l.pod) entry) }
    else { r with exact := r.exact.insert l.addr entry }

def remove (r : Registry) (l : Listener) : Registry :=
  if l.addr = "" then r
  else if l.wildcard then
    let port := portOf l.port l.addr
    if port = "" then r
    else
      match r.wild.lookup (":" ++ port) with
      | none => r
      | some inner =>
          let inner := inner.erase (podIdent l.namespace_ l.pod)
          if inner.entries.isEmpty then { r with wild := r.wild.erase (":" ++ port) }
          else { r with wild := r.wild.insert (":" ++ port) inner }
  else { r with exact := r.exact.erase l.addr }

/-- The loop of `Stats` over the wildcard index: expired entries go, and with the
last of them their port. -/
def sweepWild (now : Int) (wild : GoMap String (GoMap String Listener)) :
    GoMap String (GoMap String Listener) :=
  ⟨(wild.entries.map fun e => ⟨e.1, e.2.retain (Listener.isLive now)⟩).filter
      fun e => !e.2.entries.isEmpty, by
    apply List.NodupKeys.sublist List.filter_sublist
    have hkeys : (wild.entries.map fun e =>
        (⟨e.1, e.2.retain (Listener.isLive now)⟩ :
          Sigma fun _ : String => GoMap String Listener)).keys = wild.entries.keys := by
      simp [List.keys, Function.comp_def]
    rw [List.NodupKeys, hkeys]
    exact wild.nodupKeys⟩

def stats (r : Registry) (now : Int) : (Nat × Nat) × Registry :=
  let exact := r.exact.retain (Listener.isLive now)
  let wild := sweepWild now r.wild
  ((exact.entries.length, (wild.entries.map fun e => e.2.entries.length).sum),
    { r with exact := exact, wild := wild })

def sweep (r : Registry) (now : Int) : Registry := (r.stats now).2

def size (r : Registry) (now : Int) : Nat := (r.stats now).1.1 + (r.stats now).1.2

/-! ## Lookups -/

def stillOwns (env : Resolvers) (l : Listener) (addr : String) : Bool :=
  match env.podLoc with
  | none => true
  | some podForIP =>
      if l.pod = "" then true
      else
        match splitHostPort addr with
        | none => true
        | some (host, _) =>
            match podForIP host with
            | none => true
            | some (ns, pod) => ns == l.namespace_ && pod == l.pod

def liveExact (r : Registry) (env : Resolvers) (addr : String) (now : Int) :
    Option Listener :=
  match r.exact.lookup addr with
  | none => none
  | some l =>
      if !l.isLive now then none
      else if !stillOwns env l addr then none
      else some l

def liveWildEntries (r : Registry) (portKey : String) (now : Int) :
    List (Sigma fun _ : String => Listener) :=
  match r.wild.lookup portKey with
  | none => []
  | some inner => inner.entries.filter fun e => e.2.isLive now

def soleLiveWild (r : Registry) (portKey : String) (now : Int) : Option Listener :=
  match r.liveWildEntries portKey now with
  | [e] => some e.2
  | _ => none

def soleLiveWildForPod (r : Registry) (portKey pod : String) (now : Int) : Option Listener :=
  match r.soleLiveWild portKey now with
  | none => none
  | some l => if l.pod ≠ pod then none else some l

def wildLookup (r : Registry) (portKey ident : String) : Option Listener :=
  (r.wild.lookup portKey).bind fun inner => inner.lookup ident

def liveWildPod (r : Registry) (portKey ident : String) (now : Int) : Option Listener :=
  match r.wildLookup portKey ident with
  | none => none
  | some l => if !l.isLive now then none else some l

def liveWild (r : Registry) (env : Resolvers) (addr : String) (now : Int) :
    Option Listener :=
  match splitHostPort addr with
  | none => none
  | some (host, port) =>
      if port = "" then none
      else if ((r.wild.lookup (":" ++ port)).map fun inner => inner.entries.length).getD 0 = 0
      then none
      else
        match env.podLoc with
        | some podForIP =>
            match podForIP host with
            | none => none
            | some (ns, pod) =>
                match r.liveWildPod (":" ++ port) (podIdent ns pod) now with
                | some l => some l
                | none => r.soleLiveWildForPod (":" ++ port) pod now
        | none => r.soleLiveWild (":" ++ port) now

def liveAt (r : Registry) (env : Resolvers) (now : Int) (podAddr : String) :
    Option Listener :=
  match r.liveExact env podAddr now with
  | some l => some l
  | none => r.liveWild env podAddr now

def resolveVIP (r : Registry) (env : Resolvers) (backends : List String) (svc : ServiceRef)
    (now : Int) : Option Listener :=
  match backends.filterMap (r.liveAt env now) with
  | [] => none
  | [l] => some { l with service := svc }
  | l :: others =>
      if others.any fun other => other.process ≠ l.process || other.image ≠ l.image then none
      else
        some { l with
          service := svc, replicaAmbiguous := true, replicaCount := others.length + 1 }

/-! ## Join -/

def joinEndpointslice (r : Registry) (env : Resolvers) (connectAddr : String) (now : Int) :
    Option Listener :=
  match env.resolver with
  | none => none
  | some resolvePodAddr =>
      match resolvePodAddr connectAddr with
      | none => none
      | some podAddr => r.liveAt env now podAddr

def joinServiceVIP (r : Registry) (env : Resolvers) (connectAddr : String) (now : Int) :
    Option Listener :=
  match env.svc with
  | none => none
  | some resolveVIP =>
      match resolveVIP connectAddr with
      | none => none
      | some (backends, svc) => r.resolveVIP env backends svc now

def join (r : Registry) (env : Resolvers) (connectAddr : String) (now : Int) :
    Option (Listener × How) :=
  match r.liveExact env connectAddr now with
  | some l => some (l, .direct)
  | none =>
      match r.joinEndpointslice env connectAddr now with
      | some l => some (l, .endpointslice)
      | none =>
          match r.joinServiceVIP env connectAddr now with
          | some l => some (l, .serviceVIP)
          | none =>
              match r.liveWild env connectAddr now with
              | some l => some (l, .wildcard)
              | none => none

/-! ## What Join answers -/

section Answers

variable {r : Registry} {env : Resolvers} {now : Int}

theorem liveAt_cases {podAddr : String} {l : Listener} (h : r.liveAt env now podAddr = some l) :
    r.liveExact env podAddr now = some l ∨ r.liveWild env podAddr now = some l := by
  unfold liveAt at h
  split at h
  · rename_i hexact
    exact Or.inl (hexact.trans h)
  · exact Or.inr h

theorem liveWild_cases {addr : String} {l : Listener} (h : r.liveWild env addr now = some l) :
    ∃ host port, splitHostPort addr = some (host, port) ∧
      ((env.podLoc = none ∧ r.soleLiveWild (":" ++ port) now = some l) ∨
        ∃ podForIP ns pod, env.podLoc = some podForIP ∧ podForIP host = some (ns, pod) ∧
          (r.liveWildPod (":" ++ port) (podIdent ns pod) now = some l ∨
            (r.soleLiveWild (":" ++ port) now = some l ∧ l.pod = pod))) := by
  unfold liveWild at h
  split at h
  · cases h
  · rename_i host port hsplit
    refine ⟨host, port, hsplit, ?_⟩
    split at h
    · cases h
    · split at h
      · cases h
      · split at h
        · rename_i podForIP hpodLoc
          split at h
          · cases h
          · rename_i ns pod hpod
            refine Or.inr ⟨podForIP, ns, pod, hpodLoc, hpod, ?_⟩
            split at h
            · rename_i hown
              exact Or.inl (hown.trans h)
            · unfold soleLiveWildForPod at h
              split at h
              · cases h
              · rename_i sole hsole
                split at h
                · cases h
                · rename_i hname
                  cases h
                  exact Or.inr ⟨hsole, not_not.mp hname⟩
        · rename_i hpodLoc
          exact Or.inl ⟨hpodLoc, h⟩

theorem resolveVIP_backend {backends : List String} {svc : ServiceRef} {l : Listener}
    (h : r.resolveVIP env backends svc now = some l) :
    ∃ backend ∈ backends, ∃ base,
      r.liveAt env now backend = some base ∧ l.advertised = base.advertised := by
  unfold resolveVIP at h
  have hbackend : ∀ base others, backends.filterMap (r.liveAt env now) = base :: others →
      ∃ backend ∈ backends, r.liveAt env now backend = some base := by
    intro base others hlive
    apply List.mem_filterMap.mp
    rw [hlive]
    exact List.mem_cons_self
  split at h
  · cases h
  · rename_i base hlive
    obtain ⟨backend, hmem, hbase⟩ := hbackend base [] hlive
    cases h
    exact ⟨backend, hmem, base, hbase, rfl⟩
  · rename_i base others _ hlive
    obtain ⟨backend, hmem, hbase⟩ := hbackend base others hlive
    split at h
    · cases h
    · cases h
      exact ⟨backend, hmem, base, hbase, rfl⟩

theorem join_cases {connectAddr : String} {l : Listener} {how : How}
    (h : r.join env connectAddr now = some (l, how)) :
    (how = .direct ∧ r.liveExact env connectAddr now = some l) ∨
      (how = .endpointslice ∧ ∃ resolvePodAddr podAddr,
        env.resolver = some resolvePodAddr ∧ resolvePodAddr connectAddr = some podAddr ∧
          r.liveAt env now podAddr = some l) ∨
      (how = .serviceVIP ∧ ∃ resolveVIP backends svc,
        env.svc = some resolveVIP ∧ resolveVIP connectAddr = some (backends, svc) ∧
          r.resolveVIP env backends svc now = some l) ∨
      (how = .wildcard ∧ r.liveWild env connectAddr now = some l) := by
  unfold join at h
  split at h
  · rename_i hexact
    cases h
    exact Or.inl ⟨rfl, hexact⟩
  · split at h
    · rename_i hslice
      cases h
      unfold joinEndpointslice at hslice
      split at hslice
      · cases hslice
      · rename_i resolvePodAddr hresolver
        split at hslice
        · cases hslice
        · rename_i podAddr hpodAddr
          exact Or.inr (Or.inl ⟨rfl, resolvePodAddr, podAddr, hresolver, hpodAddr, hslice⟩)
    · split at h
      · rename_i hvip
        cases h
        unfold joinServiceVIP at hvip
        split at hvip
        · cases hvip
        · rename_i resolve hsvc
          split at hvip
          · cases hvip
          · rename_i backends svc hbackends
            exact Or.inr (Or.inr (Or.inl ⟨rfl, resolve, backends, svc, hsvc, hbackends, hvip⟩))
      · split at h
        · rename_i hwild
          cases h
          exact Or.inr (Or.inr (Or.inr ⟨rfl, hwild⟩))
        · cases h

end Answers

end Registry

end KloudlensAggregator.ClusterPeers
