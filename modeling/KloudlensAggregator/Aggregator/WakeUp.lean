import KloudlensAggregator.Aggregator.FlushLoop
import KloudlensAggregator.Foundation.Progress

/-!
# No wake-up is lost

`Save` marks the map dirty under the lock and knocks afterwards, without waiting, at a
channel with one place.  The knock may find the place taken and be dropped, and the
flush it was meant for may happen before it.  Still no save is left behind.
-/

namespace KloudlensAggregator.Aggregator

open KloudlensAggregator.Foundation

namespace FlushLoop

variable {found : CursorFile} {s t : FlushLoop}

/-- A flush is on its way: the loop is about to flush, or waits where a knock is under way
or lies in the channel. -/
def Pending (s : FlushLoop) : Prop :=
  s.phase = .woken ∨ s.phase = .flushing ∨
    (s.phase = .selecting ∧ (0 < s.unsent ∨ s.wake = true))

/-- What is not on disk will be looked at, unless the last attempt to write it failed. -/
structure Awake (found : CursorFile) (s : FlushLoop) : Prop where
  sound : s.Sound found
  pending : s.guarded.store.dirty = true → s.guarded.lastFailed = false → s.Pending

namespace Awake

theorem of_dirty_eq (hsound : s.Sound found)
    (h : s.guarded.store.dirty = s.guarded.lastFailed) : s.Awake found := by
  -- Behind a flush, what is dirty is so because the flush failed.
  refine ⟨hsound, fun hdirty hfailed => ?_⟩
  rw [h, hfailed] at hdirty
  cases hdirty

theorem of_flushLocked {order : List (Sigma fun _ : String => PersistedCursor)}
    {fault : FlushFault} {flushed : FlushLoop} (hsound : t.Sound found)
    (hflush : s.flushLocked order fault = some flushed) (hguarded : t.guarded = flushed.guarded) :
    t.Awake found := by
  obtain ⟨-, rfl⟩ := flushLocked_eq_some.mp hflush
  apply of_dirty_eq hsound
  rw [hguarded]
  exact (GuardedStore.flushLockedBare_cases s.guarded order fault).2.1

theorem opened (file : CursorFile) : (opened file).Awake file :=
  of_dirty_eq (sound_run (run_nil _ _)) rfl

private theorem phase_of_open (h : s.Sound found) (hclosing : s.closing = false) :
    s.phase = .selecting ∨ s.phase = .woken ∨ s.phase = .flushing := by
  cases hphase : s.phase with
  | selecting => exact .inl rfl
  | woken => exact .inr (.inl rfl)
  | flushing => exact .inr (.inr rfl)
  | lastFlush =>
      rw [h.wakeClosed (h.lastFlush hphase)] at hclosing
      cases hclosing
  | done =>
      rw [(h.done hphase).1] at hclosing
      cases hclosing

theorem save {agent stream : String} {cursor : Option Cursor} (h : s.Awake found)
    (hclosing : s.closing = false) (hsound : t.Sound found)
    (hguarded : t.guarded =
      { s.guarded with store := s.guarded.store.save agent stream cursor })
    (hunsent : t.unsent =
      if s.guarded.store.accepts agent stream cursor then s.unsent + 1 else s.unsent)
    (hwake : t.wake = s.wake) (hphase : t.phase = s.phase) : t.Awake found := by
  refine ⟨hsound, fun hdirty hfailed => ?_⟩
  rw [Pending, hwake, hphase]
  cases haccepts : s.guarded.store.accepts agent stream cursor with
  | true =>
      rw [haccepts, if_pos rfl] at hunsent
      rcases phase_of_open h.sound hclosing with hselecting | hwoken | hflushing
      · exact .inr (.inr ⟨hselecting, .inl (by omega)⟩)
      · exact .inl hwoken
      · exact .inr (.inl hflushing)
  | false =>
      have hsame : s.guarded.store.save agent stream cursor = s.guarded.store := by
        unfold CursorStore.accepts at haccepts
        unfold CursorStore.save
        cases cursor with
        | none => rfl
        | some c => exact if_pos (by simpa using haccepts)
      rw [haccepts, if_neg Bool.false_ne_true] at hunsent
      rw [hsame] at hguarded
      rw [hguarded] at hdirty hfailed
      rw [hunsent]
      exact h.pending hdirty hfailed

theorem step {e : FlushEvent} (h : s.Awake found) (hstep : s.step e = some t) : t.Awake found := by
  have hsound := h.sound.step hstep
  cases e with
  | save agent stream cursor =>
      simp only [FlushLoop.step] at hstep
      split at hstep
      · cases hstep
      · rename_i hclosing
        cases hstep
        exact h.save (Bool.eq_false_iff.mpr hclosing) hsound rfl rfl rfl rfl
  | wake =>
      simp only [FlushLoop.step] at hstep
      split at hstep
      · cases hstep
        refine ⟨hsound, fun hdirty hfailed => ?_⟩
        rcases h.pending hdirty hfailed with hwoken | hflushing | ⟨hselecting, -⟩
        · exact .inl hwoken
        · exact .inr (.inl hflushing)
        · exact .inr (.inr ⟨hselecting, .inr rfl⟩)
      · cases hstep
  | flush order fault => exact of_flushLocked hsound hstep rfl
  | tick =>
      simp only [FlushLoop.step] at hstep
      split at hstep
      · cases hstep
        exact ⟨hsound, fun _ _ => .inl rfl⟩
      · cases hstep
  | wakeRecv =>
      simp only [FlushLoop.step] at hstep
      split at hstep
      · cases hstep
        exact ⟨hsound, fun _ _ => .inl rfl⟩
      · cases hstep
  | wakeEnd =>
      simp only [FlushLoop.step] at hstep
      split at hstep
      · rename_i hready
        obtain ⟨hselecting, hwake, hclosed⟩ := hready
        cases hstep
        -- The channel is empty, and it is closed behind the last knock.
        have hunsent := h.sound.unsent (h.sound.wakeClosed hclosed)
        refine ⟨hsound, fun hdirty hfailed => ?_⟩
        have hpending := h.pending hdirty hfailed
        simp [Pending, hselecting, hwake, hunsent] at hpending
      · cases hstep
  | check order fault =>
      simp only [FlushLoop.step] at hstep
      split at hstep
      · split at hstep
        · obtain ⟨next, hflush, rfl⟩ := Option.map_eq_some_iff.mp hstep
          exact of_flushLocked hsound hflush rfl
        · cases hstep
          exact ⟨hsound, fun _ _ => .inr (.inl rfl)⟩
      · cases hstep
  | loopFlush order fault =>
      simp only [FlushLoop.step] at hstep
      split at hstep
      · obtain ⟨next, hflush, rfl⟩ := Option.map_eq_some_iff.mp hstep
        exact of_flushLocked hsound hflush rfl
      · obtain ⟨next, hflush, rfl⟩ := Option.map_eq_some_iff.mp hstep
        exact of_flushLocked hsound hflush rfl
      · cases hstep
  | close =>
      simp only [FlushLoop.step] at hstep
      split at hstep
      · cases hstep
        exact ⟨hsound, h.pending⟩
      · cases hstep
  | closeWake =>
      simp only [FlushLoop.step] at hstep
      split at hstep
      · cases hstep
        exact ⟨hsound, h.pending⟩
      · cases hstep
  | closeReturn =>
      simp only [FlushLoop.step] at hstep
      split at hstep
      · cases hstep
        exact ⟨hsound, h.pending⟩
      · cases hstep

theorem run {file : CursorFile} {events : List FlushEvent}
    (hrun : Foundation.run FlushLoop.step (FlushLoop.opened file) events = some s) :
    s.Awake file :=
  run_invariant (Awake file) (fun _ _ _ h hstep => h.step hstep) (opened file) hrun

end Awake

/-! ## From the map to the file -/

/-- The steps that follow from a knock, with a disk that works: no ticker, and no `Flush`
from outside. -/
def unaided : FlushEvent → Bool
  | .wake => true
  | .wakeRecv => true
  | .check _ .none => true
  | .loopFlush _ .none => true
  | _ => false

def wakeStep : FlushLoop → FlushEvent → Option FlushLoop := restrict (fun _ => unaided) step

def lag (s : FlushLoop) : Nat :=
  if s.guarded.store.dirty then
    match s.phase with
    | .flushing => 1
    | .woken => 2
    | _ => if s.wake then 3 else 4
  else 0

private theorem lag_le (s : FlushLoop) : s.lag ≤ 4 := by
  unfold lag
  repeat' split
  all_goals omega

private theorem flushLocked_clean (s : FlushLoop) :
    ∃ flushed, s.flushLocked s.guarded.store.data.entries .none = some flushed ∧
      flushed.guarded.store.data = s.guarded.store.data ∧
      flushed.guarded.store.dirty = false ∧ flushed.guarded.lastFailed = false := by
  refine ⟨_, if_pos (.refl _), ?_⟩
  unfold GuardedStore.flushLockedBare
  split
  · exact ⟨rfl, rfl, rfl⟩
  · rename_i hclean
    exact ⟨rfl, Bool.not_eq_true _ ▸ hclean, rfl⟩

theorem Awake.exists_wakeStep (h : s.Awake found) (hdirty : s.guarded.store.dirty = true)
    (hfailed : s.guarded.lastFailed = false) :
    ∃ e t, s.wakeStep e = some t ∧ t.guarded.store.data = s.guarded.store.data ∧
      t.guarded.lastFailed = false ∧ t.lag < s.lag := by
  obtain ⟨flushed, hflush, hdata, hclean, hworked⟩ := s.flushLocked_clean
  have hlag : ∀ t : FlushLoop, t.guarded = flushed.guarded → t.lag = 0 := by
    intro t ht
    rw [lag, ht, hclean]
    rfl
  rcases h.pending hdirty hfailed with hwoken | hflushing | ⟨hselecting, hknock⟩
  · cases hclosing : s.closing with
    | true =>
        refine ⟨.check s.guarded.store.data.entries .none, flushed.finish,
          restrict_eq_some.mpr ⟨rfl, ?_⟩, hdata, hworked, ?_⟩
        · simp [FlushLoop.step, hwoken, hclosing, hflush]
        · rw [hlag flushed.finish rfl]
          simp [lag, hdirty, hwoken]
    | false =>
        refine ⟨.check s.guarded.store.data.entries .none, { s with phase := .flushing },
          restrict_eq_some.mpr ⟨rfl, ?_⟩, rfl, hfailed, ?_⟩
        · simp [FlushLoop.step, hwoken, hclosing]
        · simp [lag, hdirty, hwoken]
  · refine ⟨.loopFlush s.guarded.store.data.entries .none, { flushed with phase := .selecting },
      restrict_eq_some.mpr ⟨rfl, ?_⟩, hdata, hworked, ?_⟩
    · simp [FlushLoop.step, hflushing, hflush]
    · rw [hlag { flushed with phase := .selecting } rfl]
      simp [lag, hdirty, hflushing]
  · cases hwake : s.wake with
    | true =>
        refine ⟨.wakeRecv, { s with wake := false, phase := .woken },
          restrict_eq_some.mpr ⟨rfl, ?_⟩, rfl, hfailed, ?_⟩
        · simp [FlushLoop.step, hselecting, hwake]
        · simp [lag, hdirty, hselecting, hwake]
    | false =>
        have hunsent : 0 < s.unsent := by simpa [hwake] using hknock
        refine ⟨.wake, { s with unsent := s.unsent - 1, wake := true },
          restrict_eq_some.mpr ⟨rfl, ?_⟩, rfl, hfailed, ?_⟩
        · simp [FlushLoop.step, hunsent]
        · simp [lag, hdirty, hselecting, hwake]

/-- Without the ticker, and without a `Flush` from outside, what was saved comes to the disk
within four steps, unless the disk refused the last attempt. -/
theorem saves_reach_disk {file : CursorFile} {events : List FlushEvent}
    (hrun : run step (opened file) events = some s) (hfailed : s.guarded.lastFailed = false) :
    (s.guarded.store.dirty = true → s.Pending) ∧
      ∃ more t, run wakeStep s more = some t ∧ more.length ≤ 4 ∧
        t.guarded.store.data = s.guarded.store.data ∧ t.guarded.Current file := by
  have hawake := Awake.run hrun
  refine ⟨fun hdirty => hawake.pending hdirty hfailed, ?_⟩
  obtain ⟨more, t, hmore, ⟨ht, hdata, -⟩, hclean, hlength⟩ := exists_run_of_progress
    (fun t => t.Awake file ∧ t.guarded.store.data = s.guarded.store.data ∧
      t.guarded.lastFailed = false)
    (fun t => t.guarded.store.dirty = false) lag
    (fun t ht hnot => by
      obtain ⟨hawake, hdata, hfailed⟩ := ht
      obtain ⟨e, next, hstep, hkept, hworked, hlt⟩ :=
        hawake.exists_wakeStep (Bool.eq_true_of_not_eq_false hnot) hfailed
      exact ⟨e, next, hstep,
        ⟨hawake.step (restrict_eq_some.mp hstep).2, hkept.trans hdata, hworked⟩, hlt⟩)
    ⟨hawake, rfl, hfailed⟩
  exact ⟨more, t, hmore, hlength.trans s.lag_le, hdata, ht.sound.guarded.clean hclean⟩

def knockedTwice : List FlushEvent :=
  [.save "agent-a" "intent" (some ⟨"node-a", "intent", 1⟩), .wake,
    .save "agent-a" "intent" (some ⟨"node-a", "intent", 2⟩), .wake]

theorem saves_reach_disk_knockedTwice :
    ∃ s, run step (opened none) knockedTwice = some s ∧ s.unsent = 0 ∧
      s.guarded.store.dirty = true ∧ s.Pending ∧
      ∃ more t, run wakeStep s more = some t ∧ more.length ≤ 4 ∧
        t.guarded.store.data = s.guarded.store.data ∧ t.guarded.Current none := by
  have hvalues : (run step (opened none) knockedTwice).map
      (fun s => (s.unsent, s.guarded.store.dirty, s.guarded.lastFailed)) =
        some (0, true, false) := by
    decide +kernel
  obtain ⟨s, hs, heq⟩ := Option.map_eq_some_iff.mp hvalues
  simp only [Prod.mk.injEq] at heq
  obtain ⟨hunsent, hdirty, hfailed⟩ := heq
  obtain ⟨hpending, hreach⟩ := saves_reach_disk hs hfailed
  exact ⟨s, hs, hunsent, hdirty, hpending hdirty, hreach⟩

end FlushLoop

end KloudlensAggregator.Aggregator
