import KloudlensAggregator.ClusterPeers.Refinement
import KloudlensAggregator.Foundation.Janitor

/-!
# How long entries stay

`SweepEvery` beside the users of the registry.  A `Join` never deletes, so an entry that
nothing withdraws is held until a sweep finds it expired.  With the sweeps on a ticker
no entry outlives its expiry by more than one interval and the time a tick may wait,
and the maps are no larger than the advertises of that window.
-/

namespace KloudlensAggregator.ClusterPeers

open KloudlensAggregator.Foundation

def Op.isObserve : Op → Bool
  | .observe _ => true
  | _ => false

def History.advertisedSince (ops : History) (time : Int) : History :=
  ops.filter fun op => op.2.isObserve && time < op.1

namespace Registry

variable {r : Registry} {ttl : Int} {ops : History} {key : Key} {l : Listener}

theorem newRegistry_ttl_pos (ttl : Int) : 0 < (newRegistry ttl).ttl := by
  simp only [newRegistry, defaultTTL]
  split <;> omega

theorem entry_of_apply {op : Int × Op} (h : (r.apply op).entry key = some l) :
    (r.entry key = some l ∧ (op.2 = .sweep → op.1 < l.expires)) ∨
      ∃ base, op.2 = .observe base ∧ base.key = some key ∧
        l = { base with expires := op.1 + r.ttl } := by
  obtain ⟨t, op⟩ := op
  cases op with
  | observe base =>
      rw [apply, entry_observe] at h
      split at h
      · rename_i hkey
        cases h
        exact .inr ⟨base, rfl, hkey, rfl⟩
      · exact .inl ⟨h, by simp⟩
  | remove base =>
      rw [apply, entry_remove] at h
      split at h
      · cases h
      · exact .inl ⟨h, by simp⟩
  | sweep =>
      rw [apply, entry_sweep, Option.filter_eq_some_iff] at h
      exact .inl ⟨h.1, fun _ => of_decide_eq_true h.2⟩

private theorem exists_observe_of_entry (h : (run ttl ops).entry key = some l) :
    ∃ base, (l.expires - (newRegistry ttl).ttl, Op.observe base) ∈ ops ∧ base.key = some key := by
  induction ops using List.reverseRecOn with
  | nil =>
      rw [run_nil, entry_newRegistry] at h
      cases h
  | append_singleton ops op ih =>
      rw [run_append] at h
      rcases entry_of_apply h with ⟨hentry, -⟩ | ⟨base, hop, hkey, rfl⟩
      · obtain ⟨base, hmem, hkey⟩ := ih hentry
        exact ⟨base, List.mem_append_left _ hmem, hkey⟩
      · refine ⟨base, List.mem_append_right _ ?_, hkey⟩
        rw [run_ttl, ← hop, List.mem_singleton, Int.add_sub_cancel]

/-! ## The ports -/

/-- A port is dropped from the wildcard index with its last entry. -/
def NoEmptyPort (r : Registry) : Prop :=
  ∀ portKey inner, r.wild.lookup portKey = some inner → inner.entries.isEmpty = false

theorem NoEmptyPort.insert (h : r.NoEmptyPort) (portKey : String) {inner : GoMap String Listener}
    (hinner : inner.entries.isEmpty = false) :
    NoEmptyPort { r with wild := r.wild.insert portKey inner } := by
  intro portKey' inner' hlookup
  by_cases hkey : portKey' = portKey
  · subst hkey
    rw [AList.lookup_insert] at hlookup
    cases hlookup
    exact hinner
  · rw [AList.lookup_insert_ne hkey] at hlookup
    exact h portKey' inner' hlookup

theorem NoEmptyPort.apply (h : r.NoEmptyPort) (op : Int × Op) : (r.apply op).NoEmptyPort := by
  obtain ⟨t, op⟩ := op
  cases op with
  | observe l =>
      simp only [Registry.apply, observe]
      split
      · exact h
      · split
        · split
          · exact h
          · exact h.insert _ rfl
        · exact h
  | remove l =>
      simp only [Registry.apply, remove]
      split
      · exact h
      · split
        · split
          · exact h
          · split
            · exact h
            · split
              · intro portKey inner hlookup
                by_cases hkey : portKey = ":" ++ portOf l.port l.addr
                · subst hkey
                  rw [AList.lookup_erase] at hlookup
                  cases hlookup
                · rw [AList.lookup_erase_ne hkey] at hlookup
                  exact h portKey inner hlookup
              · rename_i hleft
                exact h.insert _ (Bool.eq_false_iff.mpr hleft)
        · exact h
  | sweep =>
      intro portKey inner hlookup
      simp only [Registry.apply, sweep, stats, lookup_sweepWild] at hlookup
      simpa using (Option.filter_eq_some_iff.mp hlookup).2

private theorem noEmptyPort_run (ttl : Int) (ops : History) : (run ttl ops).NoEmptyPort := by
  induction ops using List.reverseRecOn with
  | nil =>
      intro portKey inner hlookup
      simp [newRegistry] at hlookup
  | append_singleton ops op ih =>
      rw [run_append]
      exact ih.apply op

/-! ## The entries -/

def storedKeys (r : Registry) : List Key := r.exactKeys ++ r.wildKeys

private theorem mem_storedKeys : key ∈ r.storedKeys ↔ ∃ l, r.entry key = some l := by
  rw [storedKeys, List.mem_append, mem_exactKeys, mem_wildKeys, ← Option.isSome_iff_exists]
  cases key.isExact <;> simp

private theorem nodup_storedKeys (r : Registry) : r.storedKeys.Nodup := by
  refine List.Nodup.append r.nodup_exactKeys r.nodup_wildKeys fun key hexact hwild => ?_
  have hkind := (mem_exactKeys.mp hexact).1
  rw [(mem_wildKeys.mp hwild).1] at hkind
  cases hkind

private theorem storedKeys_le {time : Int}
    (h : ∀ key l, (run ttl ops).entry key = some l → time < l.expires) :
    (run ttl ops).storedKeys.length ≤
      (ops.advertisedSince (time - (newRegistry ttl).ttl)).length := by
  have hsub : (run ttl ops).storedKeys ⊆
      (ops.advertisedSince (time - (newRegistry ttl).ttl)).filterMap fun op => op.2.key := by
    intro key hkey
    obtain ⟨l, hentry⟩ := mem_storedKeys.mp hkey
    obtain ⟨base, hmem, hbase⟩ := exists_observe_of_entry hentry
    have hexpires := h key l hentry
    refine List.mem_filterMap.mpr ⟨_, List.mem_filter.mpr ⟨hmem, ?_⟩, hbase⟩
    simp only [Op.isObserve, Bool.true_and, decide_eq_true_eq]
    omega
  have hkeys := (List.Nodup.subperm (nodup_storedKeys _) hsub).length_le
  exact hkeys.trans (List.length_filterMap_le _ _)

/-! ## Sweeps on a ticker -/

def sweepInterval (ttl interval : Int) : Int :=
  if interval ≤ 0 then (newRegistry ttl).ttl else interval

private theorem sweepInterval_pos (ttl interval : Int) : 0 < sweepInterval ttl interval := by
  have hpos := newRegistry_ttl_pos ttl
  unfold sweepInterval
  split <;> omega

/-- `SweepEvery` on a registry that others observe, remove from and take the `Stats` of. -/
def sweepEvery (ttl interval : Int) (late : Nat) : Routine History Op where
  interval := sweepInterval ttl interval
  interval_pos := sweepInterval_pos ttl interval
  late := late
  act ops now op := some (ops ++ [(now, op)])
  chore ops now := some (ops ++ [(now, .sweep)])

def Swept (ttl served : Int) (ops : History) : Prop :=
  ∀ key l, (run ttl ops).entry key = some l → served < l.expires

theorem Swept.append {served now : Int} (h : Swept ttl served ops) (hserved : served ≤ now)
    (op : Op) : Swept ttl served (ops ++ [(now, op)]) := by
  intro key l hentry
  rw [run_append] at hentry
  rcases entry_of_apply hentry with ⟨hentry, -⟩ | ⟨base, -, -, rfl⟩
  · exact h key l hentry
  · have hpos := newRegistry_ttl_pos ttl
    rw [run_ttl]
    dsimp only
    omega

private theorem swept_sweep (ttl now : Int) (ops : History) : Swept ttl now
    (ops ++ [(now, .sweep)]) := by
  intro key l hentry
  rw [run_append] at hentry
  rcases entry_of_apply hentry with ⟨-, hlive⟩ | ⟨base, hop, -⟩
  · exact hlive rfl
  · cases hop

/-- As long as `SweepEvery` runs, no entry outlives its expiry by more than the interval and
what a tick may wait; the maps hold no more than was advertised in that window, and no port
without an entry. -/
theorem residency_bounded (ttl interval : Int) (late : Nat) {start : Int}
    {events : List (JanitorEvent Op)} {j : Janitor History}
    (hrun : Foundation.run (Janitor.step (sweepEvery ttl interval late))
      (.start (sweepEvery ttl interval late) [] start) events = some j)
    (hlive : j.returned = false) :
    (∀ key l, (run ttl j.state).entry key = some l →
      j.now < l.expires + sweepInterval ttl interval + late) ∧
      (run ttl j.state).storedKeys.length ≤ (j.state.advertisedSince
        (j.now - sweepInterval ttl interval - late - (newRegistry ttl).ttl)).length ∧
      (run ttl j.state).NoEmptyPort := by
  have hinitially : Swept ttl start [] := by
    intro key l hentry
    rw [run_nil, entry_newRegistry] at hentry
    cases hentry
  obtain ⟨hpunctual, hswept⟩ := Janitor.run_invariant (fun served _ ops => Swept ttl served ops)
    (fun _ _ _ _ h _ => h)
    (fun served now ops op ops' hserved h hact => by
      cases hact
      exact h.append hserved op)
    (fun _ now ops _ _ hchore => by
      cases hchore
      exact swept_sweep ttl now ops)
    hinitially hrun
  have hnow := hpunctual.now_le_served hlive
  have hresident : ∀ key l, (run ttl j.state).entry key = some l →
      j.now - sweepInterval ttl interval - late < l.expires := by
    intro key l hentry
    have hexpires := hswept key l hentry
    dsimp only [sweepEvery] at hnow
    omega
  refine ⟨fun key l hentry => ?_, storedKeys_le hresident, noEmptyPort_run ttl _⟩
  have hexpires := hresident key l hentry
  omega

def sweptOnce : List (JanitorEvent Op) :=
  [.pass 20, .act (.observe (bareListener "10.0.0.1:80" false "shop" "web")), .pass 30, .send,
    .pass 31, .receive, .pass 55, .act (.observe (bareListener "0.0.0.0:81" true "shop" "db")),
    .pass 60, .send, .pass 62]

theorem residency_bounded_sweptOnce : ∃ j,
    Foundation.run (Janitor.step (sweepEvery 30 0 5)) (.start (sweepEvery 30 0 5) [] 0)
      sweptOnce = some j ∧
    (run 30 j.state).storedKeys.length = 2 ∧
      ∀ key l, (run 30 j.state).entry key = some l → 62 < l.expires + 30 + 5 := by
  have hvalues : (Foundation.run (Janitor.step (sweepEvery 30 0 5))
      (.start (sweepEvery 30 0 5) [] 0) sweptOnce).map (fun j =>
        (j.returned, j.now, (run 30 j.state).storedKeys.length)) = some (false, 62, 2) := by
    decide +kernel
  obtain ⟨j, hj, hfields⟩ := Option.map_eq_some_iff.mp hvalues
  simp only [Prod.mk.injEq] at hfields
  obtain ⟨hlive, hnow, hstored⟩ := hfields
  obtain ⟨hresident, -⟩ := residency_bounded 30 0 5 hj hlive
  rw [hnow] at hresident
  exact ⟨j, hj, hstored, hresident⟩

end Registry

end KloudlensAggregator.ClusterPeers
