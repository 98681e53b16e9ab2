import KloudlensAggregator.ClusterPeers.Registry

/-!
# The registry and its history

What a `Join` answers depends on the last operation with each key only.  The
registry forgets expired entries when it is swept; here it is compared with the
history of the operations, in which nothing is ever forgotten.
-/

namespace KloudlensAggregator.ClusterPeers

open KloudlensAggregator.Foundation

/-- The key of an entry: the address of an exact bind, the port and pod of a
wildcard bind. -/
inductive Key where
  | exact (addr : String)
  | wild (portKey ident : String)
  deriving DecidableEq, Repr

def Key.isExact : Key → Bool
  | .exact _ => true
  | .wild _ _ => false

/-- A listener without an address, or a wildcard bind without a port, has none. -/
def Listener.key (l : Listener) : Option Key :=
  if l.addr = "" then none
  else if l.wildcard then
    if portOf l.port l.addr = "" then none
    else some (.wild (":" ++ portOf l.port l.addr) (podIdent l.namespace_ l.pod))
  else some (.exact l.addr)

def bareListener (addr : String) (wildcard : Bool) (ns pod : String) : Listener :=
  { addr, port := "", pid := "", process := "", wildcard, nodeName := "", namespace_ := ns, pod,
    container := "", containerId := "", image := "", service := ⟨"", ""⟩,
    replicaAmbiguous := false, replicaCount := 0, expires := 0 }

inductive Op where
  | observe (l : Listener)
  | remove (l : Listener)
  /-- `Stats` or `Sweep`. -/
  | sweep
  deriving DecidableEq, Repr

def Op.key : Op → Option Key
  | .observe l => l.key
  | .remove l => l.key
  | .sweep => none

abbrev History := List (Int × Op)

def Registry.apply (r : Registry) (op : Int × Op) : Registry :=
  match op.2 with
  | .observe l => r.observe op.1 l
  | .remove l => r.remove l
  | .sweep => r.sweep op.1

def Registry.run (ttl : Int) (ops : History) : Registry :=
  ops.foldl Registry.apply (newRegistry ttl)

def Op.stored (expires : Int) : Op → Option Listener
  | .observe l => some { l with expires := expires }
  | .remove _ => none
  | .sweep => none

/-- The entry of a key: the listener of the last operation with this key, if that
is an `Observe`. -/
def History.entry (ttl : Int) (ops : History) (key : Key) : Option Listener :=
  (ops.reverse.find? fun op => op.2.key = some key).bind fun op => op.2.stored (op.1 + ttl)

def Registry.entry (r : Registry) : Key → Option Listener
  | .exact addr => r.exact.lookup addr
  | .wild portKey ident => r.wildLookup portKey ident

def Registry.liveEntry (r : Registry) (now : Int) (key : Key) : Option Listener :=
  (r.entry key).filter (Listener.isLive now)

namespace Registry

variable {r r' : Registry} {env : Resolvers} {now : Int}

/-! ## The operations on entries -/

theorem entry_observe (r : Registry) (now : Int) (l : Listener) (key : Key) :
    (r.observe now l).entry key =
      if l.key = some key then some { l with expires := now + r.ttl } else r.entry key := by
  unfold observe Listener.key
  by_cases haddr : l.addr = ""
  · simp [haddr]
  · by_cases hwild : l.wildcard = true
    · by_cases hport : portOf l.port l.addr = ""
      · simp [haddr, hwild, hport]
      · simp only [haddr, hwild, hport, if_false, if_true, Option.some.injEq]
        cases key with
        | exact addr => simp [entry]
        | wild portKey ident =>
            simp only [entry, wildLookup, Key.wild.injEq]
            by_cases hkey : ":" ++ portOf l.port l.addr = portKey
            · subst hkey
              rw [AList.lookup_insert, Option.bind_some]
              by_cases hident : podIdent l.namespace_ l.pod = ident
              · subst hident
                simp
              · rw [AList.lookup_insert_ne (Ne.symm hident)]
                cases r.wild.lookup (":" ++ portOf l.port l.addr) <;> simp [hident]
            · rw [AList.lookup_insert_ne (Ne.symm hkey)]
              simp [hkey]
    · simp only [haddr, hwild, Bool.false_eq_true, if_false, Option.some.injEq]
      cases key with
      | exact addr =>
          simp only [entry, Key.exact.injEq]
          by_cases hkey : l.addr = addr
          · subst hkey
            simp
          · rw [AList.lookup_insert_ne (Ne.symm hkey)]
            simp [hkey]
      | wild portKey ident => simp [entry, wildLookup]

private theorem wildLookup_remove (r : Registry) (portKey ident portKey' ident' : String) :
    (match r.wild.lookup portKey with
      | none => r
      | some inner =>
          if (inner.erase ident).entries.isEmpty then { r with wild := r.wild.erase portKey }
          else { r with wild := r.wild.insert portKey (inner.erase ident) }).entry
        (.wild portKey' ident') =
      if portKey = portKey' ∧ ident = ident' then none
      else r.entry (.wild portKey' ident') := by
  cases hinner : r.wild.lookup portKey with
  | none =>
      by_cases hkey : portKey = portKey'
      · subst hkey
        simp [entry, wildLookup, hinner]
      · simp [hkey]
  | some inner =>
      dsimp only
      by_cases hkey : portKey = portKey'
      · subst hkey
        have herased : (inner.erase ident).lookup ident' =
            if ident = ident' then none else inner.lookup ident' := by
          by_cases hident : ident = ident'
          · subst hident
            simp
          · rw [AList.lookup_erase_ne (Ne.symm hident)]
            simp [hident]
        split
        · rename_i hempty
          rw [GoMap.isEmpty_entries_iff] at hempty
          have hnone := (herased.symm.trans (hempty ident')).symm
          simp only [entry, wildLookup, AList.lookup_erase, hinner, Option.bind_none,
            Option.bind_some, true_and]
          exact hnone
        · simp only [entry, wildLookup, AList.lookup_insert, hinner, Option.bind_some,
            true_and]
          exact herased
      · split
        · simp [entry, wildLookup, AList.lookup_erase_ne (Ne.symm hkey), hkey]
        · simp [entry, wildLookup, AList.lookup_insert_ne (Ne.symm hkey), hkey]

theorem entry_remove (r : Registry) (l : Listener) (key : Key) :
    (r.remove l).entry key = if l.key = some key then none else r.entry key := by
  unfold remove Listener.key
  by_cases haddr : l.addr = ""
  · simp [haddr]
  · by_cases hwild : l.wildcard = true
    · by_cases hport : portOf l.port l.addr = ""
      · simp [haddr, hwild, hport]
      · simp only [haddr, hwild, hport, if_false, if_true, Option.some.injEq]
        cases key with
        | exact addr =>
            cases r.wild.lookup (":" ++ portOf l.port l.addr) with
            | none => simp [entry]
            | some inner =>
                dsimp only
                split <;> simp [entry]
        | wild portKey ident =>
            simp only [Key.wild.injEq]
            exact wildLookup_remove _ _ _ _ _
    · simp only [haddr, hwild, Bool.false_eq_true, if_false, Option.some.injEq]
      cases key with
      | exact addr =>
          simp only [entry, Key.exact.injEq]
          by_cases hkey : l.addr = addr
          · subst hkey
            simp
          · rw [AList.lookup_erase_ne (Ne.symm hkey)]
            simp [hkey]
      | wild portKey ident => simp [entry, wildLookup]

theorem lookup_sweepWild (now : Int) (wild : GoMap String (GoMap String Listener))
    (portKey : String) :
    (sweepWild now wild).lookup portKey =
      ((wild.lookup portKey).map fun inner => inner.retain (Listener.isLive now)).filter
        fun inner => !inner.entries.isEmpty := by
  ext inner
  rw [← GoMap.mem_entries_iff, Option.filter_eq_some_iff, Option.map_eq_some_iff]
  simp only [sweepWild, List.mem_filter, List.mem_map, Sigma.mk.injEq, heq_eq_eq]
  apply and_congr_left
  intro _
  constructor
  · rintro ⟨⟨key, old⟩, hmem, rfl, rfl⟩
    exact ⟨old, GoMap.mem_entries_iff.mp hmem, rfl⟩
  · rintro ⟨old, hlookup, rfl⟩
    exact ⟨⟨portKey, old⟩, GoMap.mem_entries_iff.mpr hlookup, rfl, rfl⟩

theorem entry_sweep (r : Registry) (now : Int) (key : Key) :
    (r.sweep now).entry key = (r.entry key).filter (Listener.isLive now) := by
  cases key with
  | exact addr => exact GoMap.lookup_retain _ r.exact addr
  | wild portKey ident =>
      simp only [entry, wildLookup, sweep, stats, lookup_sweepWild]
      cases r.wild.lookup portKey with
      | none => rfl
      | some inner =>
          simp only [Option.map_some, Option.bind_some, ← GoMap.lookup_retain]
          cases hempty : (inner.retain (Listener.isLive now)).entries.isEmpty with
          | true =>
              rw [GoMap.isEmpty_entries_iff.mp hempty ident, Option.filter_some_neg]
              · rfl
              · simp [hempty]
          | false =>
              rw [Option.filter_some_pos]
              · rfl
              · simp [hempty]

@[simp] theorem apply_ttl (r : Registry) (op : Int × Op) : (r.apply op).ttl = r.ttl := by
  obtain ⟨t, op⟩ := op
  cases op with
  | observe l =>
      simp only [apply, observe]
      split
      · rfl
      · split
        · split <;> rfl
        · rfl
  | remove l =>
      simp only [apply, remove]
      split
      · rfl
      · split
        · split
          · rfl
          · split
            · rfl
            · split <;> rfl
        · rfl
  | sweep => rfl

/-! ## What a lookup depends on -/

theorem liveExact_eq (r : Registry) (env : Resolvers) (addr : String) (now : Int) :
    r.liveExact env addr now =
      (r.liveEntry now (.exact addr)).filter fun l => stillOwns env l addr := by
  simp only [liveExact, liveEntry, entry]
  cases r.exact.lookup addr with
  | none => rfl
  | some l =>
      cases hlive : l.isLive now with
      | false => simp [Option.filter_some, hlive]
      | true => cases howns : stillOwns env l addr <;> simp [Option.filter_some, hlive, howns]

theorem liveWildPod_eq (r : Registry) (portKey ident : String) (now : Int) :
    r.liveWildPod portKey ident now = r.liveEntry now (.wild portKey ident) := by
  simp only [liveWildPod, liveEntry, entry]
  cases r.wildLookup portKey ident with
  | none => rfl
  | some l => cases hlive : l.isLive now <;> simp [Option.filter_some, hlive]

theorem mem_liveWildEntries {portKey ident : String} {l : Listener} :
    (⟨ident, l⟩ : Sigma fun _ : String => Listener) ∈ r.liveWildEntries portKey now ↔
      r.liveEntry now (.wild portKey ident) = some l := by
  simp only [liveWildEntries, liveEntry, entry, wildLookup]
  cases r.wild.lookup portKey with
  | none => simp
  | some inner =>
      simp only [List.mem_filter, GoMap.mem_entries_iff, Option.bind_some,
        Option.filter_eq_some_iff]

theorem nodup_liveWildEntries (r : Registry) (portKey : String) (now : Int) :
    (r.liveWildEntries portKey now).Nodup := by
  unfold liveWildEntries
  split
  · exact List.nodup_nil
  · rename_i inner _
    exact inner.nodupKeys.nodup.sublist List.filter_sublist

theorem soleLiveWild_of_perm {portKey : String}
    (hperm : (r'.liveWildEntries portKey now).Perm (r.liveWildEntries portKey now)) :
    r'.soleLiveWild portKey now = r.soleLiveWild portKey now := by
  unfold soleLiveWild
  rcases hentries : r.liveWildEntries portKey now with _ | ⟨e, _ | ⟨e', rest⟩⟩
  · rw [hentries] at hperm
    rw [List.perm_nil.mp hperm]
  · rw [hentries] at hperm
    rw [List.perm_singleton.mp hperm]
  · rw [hentries] at hperm
    rcases hentries' : r'.liveWildEntries portKey now with _ | ⟨f, _ | ⟨f', rest'⟩⟩
    · rfl
    · rw [hentries'] at hperm
      have := hperm.length_eq
      simp at this
    · rfl

def SameLive (now : Int) (r r' : Registry) : Prop :=
  ∀ key, r.liveEntry now key = r'.liveEntry now key

namespace SameLive

variable (h : SameLive now r r')

include h

theorem liveExact (env : Resolvers) (addr : String) :
    r.liveExact env addr now = r'.liveExact env addr now := by
  rw [liveExact_eq, liveExact_eq, h]

theorem liveWildPod (portKey ident : String) :
    r.liveWildPod portKey ident now = r'.liveWildPod portKey ident now := by
  rw [liveWildPod_eq, liveWildPod_eq, h]

theorem soleLiveWild (portKey : String) :
    r.soleLiveWild portKey now = r'.soleLiveWild portKey now := by
  apply soleLiveWild_of_perm
  apply (List.perm_ext_iff_of_nodup (r.nodup_liveWildEntries portKey now)
    (r'.nodup_liveWildEntries portKey now)).mpr
  rintro ⟨ident, l⟩
  rw [mem_liveWildEntries, mem_liveWildEntries, h]

theorem soleLiveWildForPod (portKey pod : String) :
    r.soleLiveWildForPod portKey pod now = r'.soleLiveWildForPod portKey pod now := by
  simp only [Registry.soleLiveWildForPod, h.soleLiveWild]

end SameLive

private theorem liveWildEntries_eq_nil {portKey : String} (now : Int)
    (h : ((r.wild.lookup portKey).map fun inner => inner.entries.length).getD 0 = 0) :
    r.liveWildEntries portKey now = [] := by
  unfold liveWildEntries
  cases hinner : r.wild.lookup portKey with
  | none => rfl
  | some inner =>
      simp only [hinner, Option.map_some, Option.getD_some, List.length_eq_zero_iff] at h
      simp [h]

theorem liveWild_eq (r : Registry) (env : Resolvers) (addr : String) (now : Int) :
    r.liveWild env addr now =
      match splitHostPort addr with
      | none => none
      | some (host, port) =>
          if port = "" then none
          else
            match env.podLoc with
            | some podForIP =>
                match podForIP host with
                | none => none
                | some (ns, pod) =>
                    match r.liveWildPod (":" ++ port) (podIdent ns pod) now with
                    | some l => some l
                    | none => r.soleLiveWildForPod (":" ++ port) pod now
            | none => r.soleLiveWild (":" ++ port) now := by
  -- The test for an empty port changes no answer: without a live entry there is none
  -- anyway.
  unfold liveWild
  cases splitHostPort addr with
  | none => rfl
  | some hostport =>
      obtain ⟨host, port⟩ := hostport
      dsimp only
      by_cases hport : port = ""
      · simp [hport]
      · simp only [hport, if_false]
        split
        · rename_i hempty
          have hentries := liveWildEntries_eq_nil now hempty
          have hsole : r.soleLiveWild (":" ++ port) now = none := by
            simp [soleLiveWild, hentries]
          have hpod : ∀ ident, r.liveWildPod (":" ++ port) ident now = none := by
            intro ident
            rw [liveWildPod_eq, Option.eq_none_iff_forall_ne_some]
            intro l hlive
            have hmem := mem_liveWildEntries.mpr hlive
            rw [hentries] at hmem
            cases hmem
          cases env.podLoc with
          | none => exact hsole.symm
          | some podForIP =>
              dsimp only
              cases podForIP host with
              | none => rfl
              | some loc => simp [hpod, soleLiveWildForPod, hsole]
        · rfl

theorem SameLive.liveWild (h : SameLive now r r') (env : Resolvers) (addr : String) :
    r.liveWild env addr now = r'.liveWild env addr now := by
  simp only [liveWild_eq, h.liveWildPod, h.soleLiveWild, h.soleLiveWildForPod]

theorem SameLive.liveAt (h : SameLive now r r') (env : Resolvers) :
    r.liveAt env now = r'.liveAt env now := by
  funext podAddr
  simp only [Registry.liveAt, h.liveExact, h.liveWild]

theorem SameLive.join (h : SameLive now r r') (env : Resolvers) (connectAddr : String) :
    r.join env connectAddr now = r'.join env connectAddr now := by
  simp only [Registry.join, joinEndpointslice, joinServiceVIP, resolveVIP, h.liveExact,
    h.liveWild, h.liveAt]

end Registry

end KloudlensAggregator.ClusterPeers
