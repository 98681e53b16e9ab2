import KloudlensAggregator.Aggregator.FanOut

/-!
# The drops that Stats reports

A subscriber that leaves is neither in the set nor in the total between its removal
and the addition of its drops, and `Stats` reads the total before it takes the lock.
A report misses the drops of a subscriber that is on its way from the one to the
other.  Where no `Stats` meets such a subscriber, the reports do not go down.
-/

namespace KloudlensAggregator.Aggregator

open KloudlensAggregator.Foundation

namespace FanOut

variable {s t : FanOut} {i : Nat}

def statsPending (s : FanOut) : Bool := s.calls.any fun call => call.report.isNone

/-- `Stats` starts while no removed subscriber has drops to add, and no subscriber with
drops is removed during a `Stats`. -/
def unmixed (s : FanOut) : FanOutEvent → Bool
  | .statsLoad => s.dropsIn [.removed] = 0
  | .remove i => !s.statsPending || s.subs[i]?.all fun sub => sub.drops = 0
  | _ => true

/-- Each report is at least as large as those that were complete when its call began. -/
def Monotone (s : FanOut) : Prop :=
  ∀ call ∈ s.calls, ∀ report ∈ call.report, ∀ earlier ∈ call.earlier, earlier ≤ report

/-! ## How the counts grow -/

def totalDrops (s : FanOut) : Nat := (s.subs.map LiveSubscriber.drops).sum

theorem Sound.totalDrops_eq (h : s.Sound) :
    s.totalDrops = s.subsDropped + s.dropsIn [.removed] + s.dropsIn [.registered] := by
  rw [h.counted, totalDrops, dropsIn_total]

structure Grows (s t : FanOut) : Prop where
  calls : t.calls = s.calls
  folded : s.subsDropped ≤ t.subsDropped
  total : s.totalDrops ≤ t.totalDrops
  registered : s.dropsIn [.registered] ≤ t.dropsIn [.registered] ∨ s.statsPending = false

theorem Grows.setSub {sub sub' : LiveSubscriber} {total : Nat} (hsub : s.subs[i]? = some sub)
    (hfolded : s.subsDropped ≤ total) (hdrops : sub.drops ≤ sub'.drops)
    (hregistered : sub.dropsIn [.registered] ≤ sub'.dropsIn [.registered] ∨
      s.statsPending = false) :
    s.Grows { s.setSub i sub' with subsDropped := total } := by
  refine ⟨rfl, hfolded, ?_, hregistered.imp_left fun hle => ?_⟩
  · have hsum := sum_map_set LiveSubscriber.drops hsub sub'
    simp only [totalDrops, FanOut.setSub]
    omega
  · have hsum := dropsIn_setSub [.registered] hsub sub'
    change s.dropsIn [.registered] ≤ (s.setSub i sub').dropsIn [.registered]
    omega

private theorem grows_of_step {e : FanOutEvent} (h : s.Sound) (hunmixed : s.unmixed e = true)
    (hstep : s.step e = some t) :
    s.Grows t ∨ e = .statsLoad ∨ ∃ k, e = .statsSum k := by
  cases e with
  | register buf =>
      obtain ⟨-, rfl⟩ := register_of_step hstep
      refine Or.inl ⟨rfl, Nat.le_refl _, ?_, Or.inl ?_⟩
      · simp [totalDrops]
      · simp [dropsIn]
  | broadcast ev order =>
      obtain ⟨-, -, rfl⟩ := broadcast_of_step hstep
      exact Or.inl ⟨rfl, Nat.le_refl _, Nat.le_refl _, Or.inl (Nat.le_refl _)⟩
  | offer =>
      obtain ⟨ev, i, rest, sub, hbroadcasting, hsub, rfl⟩ := offer_of_step hstep
      have hstage : sub.stage = .registered := (isRegistered_of_getElem? hsub).mp
        ((h.order ev _ hbroadcasting).2 i List.mem_cons_self)
      rw [if_neg (by simp [hstage])]
      have hgrows := Grows.setSub hsub (Nat.le_refl _)
        (sub.offer_drops ev) (Or.inl (by
          simp [LiveSubscriber.dropsIn, LiveSubscriber.offer_stage, hstage, sub.offer_drops ev]))
      exact Or.inl ⟨hgrows.calls, hgrows.folded, hgrows.total, hgrows.registered⟩
  | unlock =>
      obtain ⟨-, rfl⟩ := unlock_of_step hstep
      exact Or.inl ⟨rfl, Nat.le_refl _, Nat.le_refl _, Or.inl (Nat.le_refl _)⟩
  | receive i =>
      obtain ⟨sub, ev, rest, hsub, -, -, rfl⟩ := receive_of_step hstep
      exact Or.inl (Grows.setSub hsub (Nat.le_refl _) (Nat.le_refl _) (Or.inl (Nat.le_refl _)))
  | remove i =>
      obtain ⟨sub, hsub, -, hstage, rfl⟩ := remove_of_step hstep
      refine Or.inl (Grows.setSub hsub (Nat.le_refl _) (Nat.le_refl _) ?_)
      simp only [unmixed, hsub, Option.all_some, Bool.or_eq_true, Bool.not_eq_true',
        decide_eq_true_eq] at hunmixed
      rcases hunmixed with hidle | hzero
      · exact Or.inr hidle
      · exact Or.inl (by simp [LiveSubscriber.dropsIn, hzero])
  | fold i =>
      obtain ⟨sub, hsub, hstage, rfl⟩ := fold_of_step hstep
      exact Or.inl (Grows.setSub hsub (Nat.le_add_right _ _) (Nat.le_refl _)
        (Or.inl (by simp [LiveSubscriber.dropsIn, hstage])))
  | close i =>
      obtain ⟨sub, hsub, hstage, rfl⟩ := close_of_step hstep
      exact Or.inl (Grows.setSub hsub (Nat.le_refl _) (Nat.le_refl _)
        (Or.inl (by simp [LiveSubscriber.dropsIn, hstage])))
  | statsLoad => exact Or.inr (Or.inl rfl)
  | statsSum k => exact Or.inr (Or.inr ⟨k, rfl⟩)

/-! ## Reports between the counts -/

/-- A report does not exceed the drops so far, and a call under way will not report less
than the calls before it. -/
structure Bounded (s : FanOut) : Prop where
  sound : s.Sound
  loaded : ∀ call ∈ s.calls, call.total ≤ s.subsDropped
  reported : ∀ report ∈ s.reports, report ≤ s.totalDrops
  underWay : ∀ call ∈ s.calls, call.report = none →
    ∀ earlier ∈ call.earlier, earlier ≤ call.total + s.dropsIn [.registered]
  monotone : s.Monotone

theorem Bounded.grows (h : s.Bounded) (ht : t.Sound) (hgrows : s.Grows t) : t.Bounded := by
  refine ⟨ht, ?_, ?_, ?_, ?_⟩
  · intro call hcall
    rw [hgrows.calls] at hcall
    exact (h.loaded call hcall).trans hgrows.folded
  · intro report hreport
    rw [reports, hgrows.calls] at hreport
    exact (h.reported report hreport).trans hgrows.total
  · intro call hcall hnone earlier hearlier
    rw [hgrows.calls] at hcall
    have hbound := h.underWay call hcall hnone earlier hearlier
    rcases hgrows.registered with hle | hidle
    · omega
    · rw [statsPending, List.any_eq_false] at hidle
      exact absurd (by rw [hnone]; rfl) (hidle call hcall)
  · intro call hcall
    rw [hgrows.calls] at hcall
    exact h.monotone call hcall

theorem Bounded.statsLoad (h : s.Bounded) (hunmixed : s.unmixed .statsLoad = true)
    (hstep : s.step .statsLoad = some t) : t.Bounded := by
  have hsound := h.sound.step hstep
  cases hstep
  simp only [unmixed, decide_eq_true_eq] at hunmixed
  have htotal := h.sound.totalDrops_eq
  rw [hunmixed, Nat.add_zero] at htotal
  refine ⟨hsound, ?_, ?_, ?_, ?_⟩
  · intro call hcall
    rcases List.mem_append.mp hcall with hold | hnew
    · exact h.loaded call hold
    · rw [List.mem_singleton.mp hnew]
  · intro report hreport
    rw [reports, List.filterMap_append] at hreport
    rcases List.mem_append.mp hreport with hold | hnew
    · exact h.reported report hold
    · cases hnew
  · intro call hcall hnone earlier hearlier
    rcases List.mem_append.mp hcall with hold | hnew
    · exact h.underWay call hold hnone earlier hearlier
    · rw [List.mem_singleton.mp hnew] at hearlier ⊢
      exact (h.reported earlier hearlier).trans (Nat.le_of_eq htotal)
  · intro call hcall
    rcases List.mem_append.mp hcall with hold | hnew
    · exact h.monotone call hold
    · rw [List.mem_singleton.mp hnew]
      intro report hreport
      cases hreport

theorem Bounded.statsSum {k : Nat} (h : s.Bounded) (hstep : s.step (.statsSum k) = some t) :
    t.Bounded := by
  have hsound := h.sound.step hstep
  obtain ⟨call, hcall, -, hnone, rfl⟩ := statsSum_of_step hstep
  have hmem := List.mem_of_getElem? hcall
  have hcases : ∀ call' ∈ s.calls.set k
      { call with report := some (call.total + s.dropsIn [.registered]) },
      call' ∈ s.calls ∨
        call' = { call with report := some (call.total + s.dropsIn [.registered]) } :=
    fun _ => List.mem_or_eq_of_mem_set
  refine ⟨hsound, ?_, ?_, ?_, ?_⟩
  · intro call' hcall'
    rcases hcases call' hcall' with hold | rfl
    · exact h.loaded call' hold
    · exact h.loaded call hmem
  · intro report hreport
    obtain ⟨call', hcall', hsome⟩ := List.mem_filterMap.mp hreport
    rcases hcases call' hcall' with hold | rfl
    · exact h.reported report (List.mem_filterMap.mpr ⟨call', hold, hsome⟩)
    · cases hsome
      have htotal := h.sound.totalDrops_eq
      have hloaded := h.loaded call hmem
      change _ ≤ s.totalDrops
      omega
  · intro call' hcall' hnone' earlier hearlier
    rcases hcases call' hcall' with hold | rfl
    · exact h.underWay call' hold hnone' earlier hearlier
    · cases hnone'
  · intro call' hcall'
    rcases hcases call' hcall' with hold | rfl
    · exact h.monotone call' hold
    · intro report hreport earlier hearlier
      cases hreport
      exact h.underWay call hmem hnone earlier hearlier

theorem Bounded.step {e : FanOutEvent} (h : s.Bounded) (hunmixed : s.unmixed e = true)
    (hstep : s.step e = some t) : t.Bounded := by
  rcases grows_of_step h.sound hunmixed hstep with hgrows | rfl | ⟨k, rfl⟩
  · exact h.grows (h.sound.step hstep) hgrows
  · exact h.statsLoad hunmixed hstep
  · exact h.statsSum hstep

private theorem bounded_new : new.Bounded := by
  refine ⟨sound_new, ?_, ?_, ?_, ?_⟩ <;> intro _ h <;> cases h

theorem reports_monotone (events : List FanOutEvent) (s : FanOut)
    (hrun : run (restrict unmixed step) new events = some s) : s.Monotone := by
  have hbounded := run_invariant Bounded
    (fun s e t h hstep => h.step (restrict_eq_some.mp hstep).1 (restrict_eq_some.mp hstep).2)
    bounded_new hrun
  exact hbounded.monotone

/-! ## Reports that go down -/

def oneReported : List FanOutEvent :=
  .register 1 :: broadcastTo 1 [0] ++ broadcastTo 2 [0] ++ [.statsLoad, .statsSum 0]

def readInBetween : List FanOutEvent := oneReported ++ [.remove 0, .statsLoad, .statsSum 1]

def leftInBetween : List FanOutEvent :=
  oneReported ++ [.statsLoad, .remove 0, .fold 0, .statsSum 1]

def readAfterwards : List FanOutEvent :=
  oneReported ++ [.remove 0, .fold 0, .statsLoad, .close 0, .statsSum 1]

theorem reports_go_down :
    (∃ s, run step new readInBetween = some s ∧
      s.calls[1]? = some ⟨0, [1], some 0⟩ ∧ ¬ s.Monotone) ∧
    ∃ s, run step new leftInBetween = some s ∧
      s.calls[1]? = some ⟨0, [1], some 0⟩ ∧ ¬ s.Monotone := by
  have hfewer : ∀ {s : FanOut}, s.calls[1]? = some ⟨0, [1], some 0⟩ → ¬ s.Monotone := by
    intro s hcall hmonotone
    have hle := hmonotone _ (List.mem_of_getElem? hcall) 0 rfl 1 List.mem_cons_self
    omega
  have hread : (run step new readInBetween).map (fun s => s.calls[1]?) =
      some (some ⟨0, [1], some 0⟩) := by
    decide +kernel
  have hleft : (run step new leftInBetween).map (fun s => s.calls[1]?) =
      some (some ⟨0, [1], some 0⟩) := by
    decide +kernel
  obtain ⟨s, hrun, hcall⟩ := Option.map_eq_some_iff.mp hread
  obtain ⟨t, hrun', hcall'⟩ := Option.map_eq_some_iff.mp hleft
  exact ⟨⟨s, hrun, hcall, hfewer hcall⟩, t, hrun', hcall', hfewer hcall'⟩

theorem reports_monotone_readAfterwards :
    ∃ s, run (restrict unmixed step) new readAfterwards = some s ∧
      s.calls[1]? = some ⟨1, [1], some 1⟩ ∧ s.Monotone := by
  have hvalues : (run (restrict unmixed step) new readAfterwards).map (fun s => s.calls[1]?) =
      some (some ⟨1, [1], some 1⟩) := by
    decide +kernel
  obtain ⟨s, hrun, hcall⟩ := Option.map_eq_some_iff.mp hvalues
  exact ⟨s, hrun, hcall, reports_monotone readAfterwards s hrun⟩

end FanOut

end KloudlensAggregator.Aggregator
