import Mathlib.Data.List.Dedup
import Mathlib.Data.List.Induction
import KloudlensAggregator.ClusterPeers.History

/-!
# The registry refines its history

The reference is a registry that is never swept: its entries are those of the
history.  A sweep drops only entries that no later lookup would answer with, so
the registry and the reference agree on every `Join`, and `Stats` counts the live
keys of the history.
-/

namespace KloudlensAggregator.ClusterPeers

open KloudlensAggregator.Foundation

namespace History

def unswept (ops : History) : History := ops.filter fun op => op.2 ≠ .sweep

def liveKeys (ttl : Int) (ops : History) (now : Int) : List Key :=
  (ops.filterMap fun op => op.2.key).dedup.filter fun key =>
    (ops.entry ttl key).any (Listener.isLive now)

variable {ttl : Int} {ops : History} {key : Key}

@[simp] theorem entry_nil (ttl : Int) (key : Key) : History.entry ttl [] key = none := rfl

theorem entry_append (ttl : Int) (ops : History) (op : Int × Op) (key : Key) :
    History.entry ttl (ops ++ [op]) key =
      if op.2.key = some key then op.2.stored (op.1 + ttl) else History.entry ttl ops key := by
  simp only [History.entry, List.reverse_append, List.reverse_singleton, List.singleton_append,
    List.find?_cons]
  by_cases hkey : op.2.key = some key <;> simp [hkey]

theorem entry_unswept (ttl : Int) (ops : History) (key : Key) :
    History.entry ttl ops.unswept key = History.entry ttl ops key := by
  induction ops using List.reverseRecOn with
  | nil => rfl
  | append_singleton ops op ih =>
      rw [entry_append, ← ih]
      obtain ⟨t, op⟩ := op
      by_cases hsweep : op = .sweep
      · simp [unswept, hsweep, Op.key]
      · rw [← entry_append]
        simp [unswept, hsweep]

/-- The entry of a key is that of its last `Observe`, if no `Remove` has come after it. -/
theorem entry_eq_some_iff {l : Listener} :
    History.entry ttl ops key = some l ↔ ∃ before t base after,
      ops = before ++ (t, .observe base) :: after ∧ base.key = some key ∧
        (∀ op ∈ after, op.2.key ≠ some key) ∧ l = { base with expires := t + ttl } := by
  simp only [History.entry, Option.bind_eq_some_iff, List.find?_eq_some_iff_append]
  constructor
  · rintro ⟨⟨t, op⟩, ⟨hkey, after, before, hops, hafter⟩, hstored⟩
    cases op with
    | observe base =>
        cases hstored
        refine ⟨before.reverse, t, base, after.reverse, ?_, of_decide_eq_true hkey, ?_, rfl⟩
        · have hreversed := congrArg List.reverse hops
          simpa using hreversed
        · intro op hop
          simpa using hafter op (List.mem_reverse.mp hop)
    | remove base => cases hstored
    | sweep => cases hstored
  · rintro ⟨before, t, base, after, rfl, hkey, hafter, rfl⟩
    refine ⟨(t, .observe base), ⟨decide_eq_true hkey, after.reverse, before.reverse, ?_, ?_⟩, rfl⟩
    · simp
    · intro op hop
      simpa using hafter op (List.mem_reverse.mp hop)

theorem key_of_entry {l : Listener} (h : History.entry ttl ops key = some l) :
    l.key = some key := by
  obtain ⟨_, _, _, _, -, hkey, -, rfl⟩ := entry_eq_some_iff.mp h
  exact hkey

private theorem entry_removed {before after : History} {t : Int} {l : Listener}
    (hkey : l.key = some key)
    (hafter : ∀ t' l', (t', Op.observe l') ∈ after → l'.key ≠ l.key) :
    History.entry ttl (before ++ (t, .remove l) :: after) key = none := by
  induction after using List.reverseRecOn with
  | nil => simp [entry_append, Op.key, hkey, Op.stored]
  | append_singleton after op ih =>
      have ih := ih fun t' l' hmem => hafter t' l' (List.mem_append_left _ hmem)
      rw [← List.cons_append, ← List.append_assoc, entry_append, ih]
      obtain ⟨t', op⟩ := op
      cases op with
      | observe l' =>
          have hne := hafter t' l' (List.mem_append_right _ List.mem_cons_self)
          rw [hkey] at hne
          simp [Op.key, hne]
      | remove l' => simp [Op.stored]
      | sweep => simp [Op.stored]

private theorem mem_keys_of_entry {l : Listener} (h : History.entry ttl ops key = some l) :
    key ∈ ops.filterMap fun op => op.2.key := by
  obtain ⟨before, t, base, after, rfl, hkey, -, -⟩ := entry_eq_some_iff.mp h
  exact List.mem_filterMap.mpr
    ⟨(t, .observe base), List.mem_append_right _ List.mem_cons_self, hkey⟩

private theorem mem_liveKeys {now : Int} :
    key ∈ ops.liveKeys ttl now ↔
      ((History.entry ttl ops key).filter (Listener.isLive now)).isSome := by
  simp only [liveKeys, List.mem_filter, List.mem_dedup]
  cases hentry : History.entry ttl ops key with
  | none => simp
  | some l =>
      cases hlive : l.isLive now <;>
        simp [Option.filter_some, hlive, mem_keys_of_entry hentry]

private theorem nodup_liveKeys (ttl : Int) (ops : History) (now : Int) :
    (ops.liveKeys ttl now).Nodup :=
  (List.nodup_dedup _).filter _

end History

namespace Registry

variable {r : Registry} {env : Resolvers} {now : Int}

/-! ## Runs -/

@[simp] theorem run_nil (ttl : Int) : run ttl [] = newRegistry ttl := rfl

theorem run_append (ttl : Int) (ops : History) (op : Int × Op) :
    run ttl (ops ++ [op]) = (run ttl ops).apply op := by
  simp [run, List.foldl_append]

theorem run_ttl (ttl : Int) (ops : History) : (run ttl ops).ttl = (newRegistry ttl).ttl := by
  induction ops using List.reverseRecOn with
  | nil => rfl
  | append_singleton ops op ih => rw [run_append, apply_ttl, ih]

theorem entry_newRegistry (ttl : Int) (key : Key) : (newRegistry ttl).entry key = none := by
  cases key with
  | exact addr => simp [entry, newRegistry]
  | wild portKey ident => simp [entry, wildLookup, newRegistry]

theorem entry_apply (r : Registry) (op : Int × Op) (hsweep : op.2 ≠ .sweep) (key : Key) :
    (r.apply op).entry key =
      if op.2.key = some key then op.2.stored (op.1 + r.ttl) else r.entry key := by
  obtain ⟨t, op⟩ := op
  cases op with
  | observe l => exact entry_observe r t l key
  | remove l => exact entry_remove r l key
  | sweep => exact absurd rfl hsweep

private theorem entry_run (ttl : Int) {ops : History} (hsweep : ∀ op ∈ ops, op.2 ≠ .sweep)
    (key : Key) :
    (run ttl ops).entry key = History.entry (newRegistry ttl).ttl ops key := by
  induction ops using List.reverseRecOn with
  | nil => exact entry_newRegistry ttl key
  | append_singleton ops op ih =>
      have ih := ih fun op' hmem => hsweep op' (List.mem_append_left _ hmem)
      rw [run_append, entry_apply _ _ (hsweep op (by simp)), run_ttl, History.entry_append, ih]

theorem entry_run_unswept (ttl : Int) (ops : History) (key : Key) :
    (run ttl ops.unswept).entry key = History.entry (newRegistry ttl).ttl ops key := by
  rw [entry_run, History.entry_unswept]
  intro op hmem
  simpa using (List.mem_filter.mp hmem).2

private theorem liveEntry_apply (r : Registry) (op : Int × Op) (hclock : op.1 ≤ now) (key : Key) :
    (r.apply op).liveEntry now key =
      if op.2.key = some key then (op.2.stored (op.1 + r.ttl)).filter (Listener.isLive now)
      else r.liveEntry now key := by
  -- A sweep keeps the entries that are live at any later time.
  by_cases hsweep : op.2 = .sweep
  · obtain ⟨t, op⟩ := op
    cases hsweep
    simp only [liveEntry, apply, entry_sweep, Op.key]
    cases r.entry key with
    | none => rfl
    | some l =>
        simp only [Option.filter_some, Listener.isLive, decide_eq_true_eq]
        split
        · simp [Option.filter_some, Listener.isLive]
        · have : ¬ now < l.expires := by omega
          simp [this]
  · simp only [liveEntry, entry_apply r op hsweep]
    split <;> rfl

theorem liveEntry_run (ttl : Int) {ops : History} (hclock : ∀ op ∈ ops, op.1 ≤ now) (key : Key) :
    (run ttl ops).liveEntry now key =
      (History.entry (newRegistry ttl).ttl ops key).filter (Listener.isLive now) := by
  induction ops using List.reverseRecOn with
  | nil => simp [liveEntry, entry_newRegistry]
  | append_singleton ops op ih =>
      have ih := ih fun op' hmem => hclock op' (List.mem_append_left _ hmem)
      rw [run_append, liveEntry_apply _ _ (hclock op (by simp)), run_ttl, History.entry_append, ih]
      split <;> rfl

private theorem sameLive_run (ttl : Int) {ops ops' : History} (hsame : ops.unswept = ops'.unswept)
    (hclock : ∀ op ∈ ops, op.1 ≤ now) (hclock' : ∀ op ∈ ops', op.1 ≤ now) :
    SameLive now (run ttl ops) (run ttl ops') := by
  intro key
  rw [liveEntry_run ttl hclock, liveEntry_run ttl hclock', ← History.entry_unswept _ ops, hsame,
    History.entry_unswept]

/-! ## Answers -/

theorem liveEntry_of_liveExact {addr : String} {l : Listener}
    (h : r.liveExact env addr now = some l) : r.liveEntry now (.exact addr) = some l := by
  rw [liveExact_eq, Option.filter_eq_some_iff] at h
  exact h.1

theorem liveEntry_of_soleLiveWild {portKey : String} {l : Listener}
    (h : r.soleLiveWild portKey now = some l) :
    ∃ ident, r.liveEntry now (.wild portKey ident) = some l := by
  unfold soleLiveWild at h
  split at h
  · rename_i e hentries
    cases h
    exact ⟨e.1, mem_liveWildEntries.mp (by rw [hentries]; exact List.mem_cons_self)⟩
  · cases h

theorem liveEntry_of_liveWild {addr : String} {l : Listener}
    (h : r.liveWild env addr now = some l) : ∃ key, r.liveEntry now key = some l := by
  obtain ⟨host, port, -, ⟨-, hsole⟩ | ⟨podForIP, ns, pod, -, -, hown | ⟨hsole, -⟩⟩⟩ :=
    liveWild_cases h
  · obtain ⟨ident, hlive⟩ := liveEntry_of_soleLiveWild hsole
    exact ⟨_, hlive⟩
  · rw [liveWildPod_eq] at hown
    exact ⟨_, hown⟩
  · obtain ⟨ident, hlive⟩ := liveEntry_of_soleLiveWild hsole
    exact ⟨_, hlive⟩

theorem liveEntry_of_liveAt {podAddr : String} {l : Listener}
    (h : r.liveAt env now podAddr = some l) : ∃ key, r.liveEntry now key = some l := by
  rcases liveAt_cases h with hexact | hwild
  · exact ⟨_, liveEntry_of_liveExact hexact⟩
  · exact liveEntry_of_liveWild hwild

theorem liveEntry_of_join {connectAddr : String} {l : Listener} {how : How}
    (h : r.join env connectAddr now = some (l, how)) :
    ∃ key base, r.liveEntry now key = some base ∧ l.advertised = base.advertised := by
  rcases join_cases h with ⟨-, hexact⟩ | ⟨-, resolve, podAddr, -, -, hat⟩ |
    ⟨-, resolve, backends, svc, -, -, hvip⟩ | ⟨-, hwild⟩
  · exact ⟨_, l, liveEntry_of_liveExact hexact, rfl⟩
  · obtain ⟨key, hlive⟩ := liveEntry_of_liveAt hat
    exact ⟨key, l, hlive, rfl⟩
  · obtain ⟨backend, -, base, hat, hsame⟩ := resolveVIP_backend hvip
    obtain ⟨key, hlive⟩ := liveEntry_of_liveAt hat
    exact ⟨key, base, hlive, hsame⟩
  · obtain ⟨key, hlive⟩ := liveEntry_of_liveWild hwild
    exact ⟨key, l, hlive, rfl⟩

private theorem key_eq_of_advertised {l base : Listener} (h : l.advertised = base.advertised) :
    l.key = base.key := by
  have hkey : ∀ l : Listener, l.advertised.key = l.key := fun _ => rfl
  rw [← hkey l, h, hkey base]

private theorem join_ne_removed (ttl : Int) {before after : History} {t : Int} {w l : Listener}
    (hclock : ∀ op ∈ before ++ (t, .remove w) :: after, op.1 ≤ now)
    (hafter : ∀ t' l', (t', Op.observe l') ∈ after → l'.key ≠ w.key)
    {connectAddr : String} {how : How}
    (h : (run ttl (before ++ (t, .remove w) :: after)).join env connectAddr now =
      some (l, how)) :
    l.key ≠ w.key := by
  intro hsame
  obtain ⟨key, base, hlive, hbase⟩ := liveEntry_of_join h
  rw [liveEntry_run ttl hclock, Option.filter_eq_some_iff] at hlive
  have hkey : w.key = some key := by
    rw [← hsame, key_eq_of_advertised hbase, History.key_of_entry hlive.1]
  have hnone := hlive.1
  rw [History.entry_removed hkey hafter] at hnone
  cases hnone

/-! ## Counts -/

def exactKeys (r : Registry) : List Key := r.exact.entries.map fun e => .exact e.1

def wildKeys (r : Registry) : List Key :=
  r.wild.entries.flatMap fun e => e.2.entries.map fun f => .wild e.1 f.1

theorem nodup_exactKeys (r : Registry) : r.exactKeys.Nodup := by
  have hmap : r.exactKeys = r.exact.entries.keys.map Key.exact := by
    simp [exactKeys, List.keys]
  rw [hmap]
  exact r.exact.nodupKeys.map fun _ _ h => Key.exact.inj h

theorem nodup_wildKeys (r : Registry) : r.wildKeys.Nodup := by
  unfold wildKeys
  rw [List.nodup_flatMap]
  constructor
  · rintro ⟨portKey, inner⟩ -
    have hmap : (inner.entries.map fun f => Key.wild portKey f.1) =
        inner.entries.keys.map (Key.wild portKey) := by
      simp [List.keys]
    rw [hmap]
    exact inner.nodupKeys.map fun _ _ h => (Key.wild.inj h).2
  · have hkeys : r.wild.entries.Pairwise fun e e' => e.1 ≠ e'.1 :=
      List.pairwise_map.mp r.wild.nodupKeys
    apply hkeys.imp
    intro e e' hne key hmem hmem'
    obtain ⟨f, -, rfl⟩ := List.mem_map.mp hmem
    obtain ⟨f', -, hkey⟩ := List.mem_map.mp hmem'
    exact hne (Key.wild.inj hkey).1.symm

theorem mem_exactKeys {key : Key} :
    key ∈ r.exactKeys ↔ key.isExact = true ∧ (r.entry key).isSome = true := by
  simp only [exactKeys, List.mem_map, Option.isSome_iff_exists]
  constructor
  · rintro ⟨⟨addr, l⟩, hmem, rfl⟩
    exact ⟨rfl, l, GoMap.mem_entries_iff.mp hmem⟩
  · rintro ⟨hexact, l, hentry⟩
    cases key with
    | exact addr => exact ⟨⟨addr, l⟩, GoMap.mem_entries_iff.mpr hentry, rfl⟩
    | wild portKey ident => cases hexact

theorem mem_wildKeys {key : Key} :
    key ∈ r.wildKeys ↔ key.isExact = false ∧ (r.entry key).isSome = true := by
  simp only [wildKeys, List.mem_flatMap, List.mem_map, Option.isSome_iff_exists]
  constructor
  · rintro ⟨⟨portKey, inner⟩, hinner, ⟨ident, l⟩, hmem, rfl⟩
    refine ⟨rfl, l, ?_⟩
    rw [entry, wildLookup, GoMap.mem_entries_iff.mp hinner, Option.bind_some]
    exact GoMap.mem_entries_iff.mp hmem
  · rintro ⟨hwild, l, hentry⟩
    cases key with
    | exact addr => cases hwild
    | wild portKey ident =>
        obtain ⟨inner, hinner, hmem⟩ := Option.bind_eq_some_iff.mp hentry
        exact ⟨⟨portKey, inner⟩, GoMap.mem_entries_iff.mpr hinner, ⟨ident, l⟩,
          GoMap.mem_entries_iff.mpr hmem, rfl⟩

private theorem stats_eq (r : Registry) (now : Int) :
    (r.stats now).1 = ((r.sweep now).exactKeys.length, (r.sweep now).wildKeys.length) := by
  simp [stats, sweep, exactKeys, wildKeys, List.length_flatMap]

private theorem stats_run (ttl : Int) {ops : History} (hclock : ∀ op ∈ ops, op.1 ≤ now) :
    ((run ttl ops).stats now).1 =
      ((ops.liveKeys (newRegistry ttl).ttl now).countP Key.isExact,
        (ops.liveKeys (newRegistry ttl).ttl now).countP fun key => !key.isExact) := by
  have hlive : ∀ key, (((run ttl ops).sweep now).entry key).isSome = true ↔
      key ∈ ops.liveKeys (newRegistry ttl).ttl now := by
    intro key
    rw [entry_sweep, ← liveEntry, liveEntry_run ttl hclock, History.mem_liveKeys]
  have hnodup := History.nodup_liveKeys (newRegistry ttl).ttl ops now
  rw [stats_eq, List.countP_eq_length_filter, List.countP_eq_length_filter, Prod.mk.injEq]
  constructor
  · apply List.Perm.length_eq
    rw [List.perm_ext_iff_of_nodup (nodup_exactKeys _) (hnodup.filter _)]
    intro key
    rw [mem_exactKeys, hlive, List.mem_filter, and_comm]
  · apply List.Perm.length_eq
    rw [List.perm_ext_iff_of_nodup (nodup_wildKeys _) (hnodup.filter _)]
    intro key
    rw [mem_wildKeys, hlive, List.mem_filter, Bool.not_eq_true', and_comm]

private theorem liveEntry_run_unswept (ttl : Int) (ops : History) (now : Int) (key : Key)
    (l : Listener) :
    (run ttl ops.unswept).liveEntry now key = some l ↔ ∃ before t base after,
      ops = before ++ (t, .observe base) :: after ∧ base.key = some key ∧
        (∀ op ∈ after, op.2.key ≠ some key) ∧ now < t + (newRegistry ttl).ttl ∧
          l = { base with expires := t + (newRegistry ttl).ttl } := by
  rw [liveEntry, entry_run_unswept, Option.filter_eq_some_iff, History.entry_eq_some_iff]
  constructor
  · rintro ⟨⟨before, t, base, after, hops, hkey, hafter, rfl⟩, hlive⟩
    exact ⟨before, t, base, after, hops, hkey, hafter, of_decide_eq_true hlive, rfl⟩
  · rintro ⟨before, t, base, after, hops, hkey, hafter, hlive, rfl⟩
    exact ⟨⟨before, t, base, after, hops, hkey, hafter, rfl⟩, decide_eq_true hlive⟩

/-- The registry after any operations at times up to `now`, against the registry
that is never swept. -/
theorem run_refines_history (ttl : Int) (ops : History) (now : Int)
    (hclock : ∀ op ∈ ops, op.1 ≤ now) :
    (∀ key, (run ttl ops.unswept).entry key = History.entry (newRegistry ttl).ttl ops key) ∧
      (∀ key l, (run ttl ops.unswept).liveEntry now key = some l ↔ ∃ before t base after,
        ops = before ++ (t, .observe base) :: after ∧ base.key = some key ∧
          (∀ op ∈ after, op.2.key ≠ some key) ∧ now < t + (newRegistry ttl).ttl ∧
            l = { base with expires := t + (newRegistry ttl).ttl }) ∧
      (∀ env connectAddr,
        (run ttl ops).join env connectAddr now = (run ttl ops.unswept).join env connectAddr now) ∧
      ((run ttl ops).stats now).1 =
        ((ops.liveKeys (newRegistry ttl).ttl now).countP Key.isExact,
          (ops.liveKeys (newRegistry ttl).ttl now).countP fun key => !key.isExact) ∧
      (∀ ops' : History, ops'.unswept = ops.unswept → (∀ op ∈ ops', op.1 ≤ now) →
        ∀ env connectAddr,
          (run ttl ops').join env connectAddr now = (run ttl ops).join env connectAddr now) ∧
      ∀ before t w after, ops = before ++ (t, .remove w) :: after →
        (∀ t' l', (t', Op.observe l') ∈ after → l'.key ≠ w.key) →
        ∀ env connectAddr l how, (run ttl ops).join env connectAddr now = some (l, how) →
          l.key ≠ w.key := by
  have hsame : ∀ ops' : History, ops'.unswept = ops.unswept → (∀ op ∈ ops', op.1 ≤ now) →
      SameLive now (run ttl ops') (run ttl ops) :=
    fun ops' hunswept hclock' => sameLive_run ttl hunswept hclock' hclock
  refine ⟨entry_run_unswept ttl ops, liveEntry_run_unswept ttl ops now, ?_, stats_run ttl hclock,
    ?_, ?_⟩
  · intro env connectAddr
    refine ((hsame ops.unswept ?_ ?_).join env connectAddr).symm
    · simp [History.unswept]
    · exact fun op hmem => hclock op (List.mem_filter.mp hmem).1
  · intro ops' hunswept hclock' env connectAddr
    exact (hsame ops' hunswept hclock').join env connectAddr
  · rintro before t w after rfl hafter env connectAddr l how hjoin
    exact join_ne_removed ttl hclock hafter hjoin

def churnHistory : History :=
  let web := bareListener "10.0.0.1:80" false "shop" "web"
  let db := bareListener "10.0.0.2:5432" false "shop" "db"
  let cache := bareListener "0.0.0.0:6379" true "shop" "cache"
  [(0, .observe web), (5, .observe db), (10, .observe cache), (20, .remove db), (35, .sweep),
    (38, .observe cache), (40, .observe web)]

theorem run_refines_churnHistory :
    (∀ op ∈ churnHistory, op.1 ≤ 45) ∧ ((run 30 churnHistory).stats 45).1 = (1, 1) ∧
      ∀ env connectAddr, (run 30 churnHistory).join env connectAddr 45 =
        (run 30 churnHistory.unswept).join env connectAddr 45 := by
  have hclock : ∀ op ∈ churnHistory, op.1 ≤ 45 := by decide
  obtain ⟨-, -, hjoin, hstats, -⟩ := run_refines_history 30 churnHistory 45 hclock
  exact ⟨hclock, hstats.trans (by decide +kernel), hjoin⟩

end Registry

end KloudlensAggregator.ClusterPeers
