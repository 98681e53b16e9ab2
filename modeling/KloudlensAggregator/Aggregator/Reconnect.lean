import KloudlensAggregator.Aggregator.Uplink

/-!
# The pace of the reconnects

`subscribeOnce` never returns without an error, so that every call of it but the last is
followed by a wait of `Config.Backoff` and counted in the errors of the aggregator.
-/

namespace KloudlensAggregator.Aggregator.Uplinks

open KloudlensAggregator.Foundation

variable {logs : String → String → AgentLog} {backoff now : Int} {s t : Uplinks} {i : Nat}
  {phase phase' : UplinkPhase}

def attemptsOf (s : Uplinks) (i : Nat) : List Int :=
  (s.attempts.filter fun attempt => attempt.1 = i).map Prod.snd

def Rested (backoff time : Int) (times : List Int) : Prop :=
  ∀ last, times.getLast? = some last → last + backoff ≤ time

/-- Where a goroutine stands, given its attempts and its errors. -/
def Pace (backoff now : Int) (done : Prop) (times : List Int) (errors : Nat) :
    UplinkPhase → Prop
  | .top => (Rested backoff now times ∧ times.length = errors) ∨
      (done ∧ errors ≤ times.length ∧ times.length ≤ errors + 1)
  | .waiting time => Rested backoff time times ∧ times.length = errors
  | .returned => errors ≤ times.length ∧ times.length ≤ errors + 1
  | _ => times.length = errors + 1

structure Paced (backoff : Int) (s : Uplinks) : Prop where
  spaced : ∀ i, (s.attemptsOf i).IsChain fun a b => a + backoff ≤ b
  past : ∀ i, Rested 0 s.now (s.attemptsOf i)
  pace : ∀ i phase, s.lines[i]? = some phase →
    Pace backoff s.now (i ∈ s.cancelled) (s.attemptsOf i) (s.errors.count i) phase
  fresh : ∀ i, s.lines[i]? = none → s.attemptsOf i = [] ∧ s.errors.count i = 0

theorem Rested.mono {times : List Int} {time time' : Int} (h : Rested backoff time times)
    (htime : time ≤ time') : Rested backoff time' times :=
  fun last hlast => (h last hlast).trans htime

theorem Pace.count_le {done : Prop} {times : List Int} {errors : Nat}
    (h : Pace backoff now done times errors phase) :
    errors ≤ times.length ∧ times.length ≤ errors + 1 := by
  cases phase with
  | top =>
      rcases h with ⟨-, hcount⟩ | ⟨-, hcount⟩
      · omega
      · exact hcount
  | waiting time =>
      have hcount := h.2
      omega
  | returned => exact h
  | _ =>
      have hcount : times.length = errors + 1 := h
      omega

theorem Pace.mono {now' : Int} {done done' : Prop} {times : List Int} {errors : Nat}
    (h : Pace backoff now done times errors phase) (hnow : now ≤ now') (hdone : done → done') :
    Pace backoff now' done' times errors phase := by
  cases phase with
  | top =>
      rcases h with ⟨hrested, hcount⟩ | ⟨hd, hcount⟩
      · exact .inl ⟨hrested.mono hnow, hcount⟩
      · exact .inr ⟨hdone hd, hcount⟩
  | _ => exact h

private theorem attemptsOf_concat (s : Uplinks) (i j : Nat) (time : Int) :
    ({ s with attempts := s.attempts ++ [(i, time)] } : Uplinks).attemptsOf j =
      if i = j then s.attemptsOf j ++ [time] else s.attemptsOf j := by
  by_cases hij : i = j <;> simp [attemptsOf, List.filter_append, hij]

namespace Paced

theorem move (h : s.Paced backoff) (hline : s.lines[i]? = some phase)
    (hlines : t.lines = s.lines.set i phase') (hnow : t.now = s.now)
    (hcancelled : t.cancelled = s.cancelled)
    (hothers : ∀ j, i ≠ j → t.attemptsOf j = s.attemptsOf j ∧
      t.errors.count j = s.errors.count j)
    (hspaced : (t.attemptsOf i).IsChain fun a b => a + backoff ≤ b)
    (hpast : Rested 0 s.now (t.attemptsOf i))
    (hpace : Pace backoff s.now (i ∈ s.cancelled) (t.attemptsOf i) (t.errors.count i) phase') :
    t.Paced backoff := by
  have hi := (List.getElem?_eq_some_iff.mp hline).1
  refine ⟨?_, ?_, ?_, ?_⟩
  · intro j
    by_cases hij : i = j
    · exact hij ▸ hspaced
    · rw [(hothers j hij).1]
      exact h.spaced j
  · intro j
    rw [hnow]
    by_cases hij : i = j
    · exact hij ▸ hpast
    · rw [(hothers j hij).1]
      exact h.past j
  · intro j phase₂ hline₂
    rw [hnow, hcancelled]
    by_cases hij : i = j
    · subst hij
      rw [hlines, List.getElem?_set_self hi] at hline₂
      cases hline₂
      exact hpace
    · rw [hlines, List.getElem?_set_ne hij] at hline₂
      rw [(hothers j hij).1, (hothers j hij).2]
      exact h.pace j phase₂ hline₂
  · intro j hnone
    rw [hlines, List.getElem?_eq_none_iff, List.length_set] at hnone
    have hij : i ≠ j := by omega
    rw [(hothers j hij).1, (hothers j hij).2]
    exact h.fresh j (List.getElem?_eq_none hnone)

theorem setLine (h : s.Paced backoff) (hline : s.lines[i]? = some phase)
    (hlines : t.lines = s.lines.set i phase') (hnow : t.now = s.now)
    (hcancelled : t.cancelled = s.cancelled) (hattempts : t.attempts = s.attempts)
    (herrors : t.errors = s.errors)
    (hpace : ∀ {times errors}, Pace backoff s.now (i ∈ s.cancelled) times errors phase →
      Pace backoff s.now (i ∈ s.cancelled) times errors phase') : t.Paced backoff := by
  have hsame : ∀ j, t.attemptsOf j = s.attemptsOf j := by
    intro j
    rw [attemptsOf, hattempts, attemptsOf]
  refine h.move hline hlines hnow hcancelled (fun j _ => ⟨hsame j, by rw [herrors]⟩) ?_ ?_ ?_
  · rw [hsame]
    exact h.spaced i
  · rw [hsame]
    exact h.past i
  · rw [hsame, herrors]
    exact hpace (h.pace i phase hline)

theorem enter (h : s.Paced backoff) (hline : s.lines[i]? = some .top) (hlive : i ∉ s.cancelled) :
    Paced backoff { s.setLine i .dialing with attempts := s.attempts ++ [(i, s.now)] } := by
  obtain ⟨hrested, hcount⟩ : Rested backoff s.now (s.attemptsOf i) ∧
      (s.attemptsOf i).length = s.errors.count i :=
    (h.pace i .top hline).resolve_right fun hdone => hlive hdone.1
  have htimes : ∀ j, ({ s.setLine i .dialing with
      attempts := s.attempts ++ [(i, s.now)] } : Uplinks).attemptsOf j =
        if i = j then s.attemptsOf j ++ [s.now] else s.attemptsOf j :=
    fun j => attemptsOf_concat (s.setLine i .dialing) i j s.now
  have hself := (htimes i).trans (if_pos rfl)
  refine h.move hline rfl rfl rfl (fun j hij => ⟨(htimes j).trans (if_neg hij), rfl⟩) ?_ ?_ ?_
  · rw [hself]
    refine List.isChain_append.mpr ⟨h.spaced i, List.isChain_singleton _, ?_⟩
    intro last hlast next hnext
    cases hnext
    exact hrested last hlast
  · rw [hself]
    intro last hlast
    rw [List.getLast?_concat] at hlast
    cases hlast
    exact le_of_eq (Int.add_zero _)
  · rw [hself]
    change (s.attemptsOf i ++ [s.now]).length = s.errors.count i + 1
    rw [List.length_append, hcount]
    rfl

theorem backOff (h : s.Paced backoff) (hline : s.lines[i]? = some .failed) :
    Paced backoff
      { s.setLine i (.waiting (s.now + backoff)) with errors := s.errors ++ [i] } := by
  refine h.move hline rfl rfl rfl (fun j hij => ⟨rfl, ?_⟩) (h.spaced i) (h.past i) ⟨?_, ?_⟩
  · simp [List.count_append, hij]
  · intro last hlast
    have hpast := h.past i last hlast
    omega
  · have hcount : (s.attemptsOf i).length = s.errors.count i + 1 := h.pace i .failed hline
    change (s.attemptsOf i).length = (s.errors ++ [i]).count i
    rw [hcount, List.count_append, List.count_singleton_self]

theorem step {e : UplinkEvent} (h : s.Paced backoff) (hstep : Step logs backoff s e t) :
    t.Paced backoff := by
  cases hstep with
  | start =>
      refine ⟨h.spaced, h.past, ?_, ?_⟩
      · intro j phase hline
        rcases of_getElem?_concat hline with hline | ⟨rfl, rfl⟩
        · exact h.pace j phase hline
        · obtain ⟨hnone, hcount⟩ := h.fresh s.lines.length (List.getElem?_eq_none (le_refl _))
          refine .inl ⟨?_, ?_⟩
          · intro last hlast
            change (s.attemptsOf s.lines.length).getLast? = some last at hlast
            rw [hnone] at hlast
            cases hlast
          · change (s.attemptsOf s.lines.length).length = s.errors.count s.lines.length
            rw [hnone, hcount]
            rfl
      · intro j hnone
        refine h.fresh j ?_
        rw [List.getElem?_eq_none_iff] at hnone ⊢
        exact le_trans (by simp) hnone
  | cancel =>
      refine ⟨h.spaced, h.past, ?_, h.fresh⟩
      intro j phase hline
      exact (h.pace j phase hline).mono (le_refl _) (List.mem_cons_of_mem _)
  | pass htime =>
      refine ⟨h.spaced, fun j => (h.past j).mono htime, ?_, h.fresh⟩
      intro j phase hline
      exact (h.pace j phase hline).mono htime id
  | enter hline hlive => exact h.enter hline hlive
  | quit hline hdone => exact h.setLine hline rfl rfl rfl rfl rfl Pace.count_le
  | load hline hloop => exact h.setLine hline rfl rfl rfl rfl rfl id
  | unreachable hline => exact h.setLine hline rfl rfl rfl rfl rfl id
  | attach hline hloop => exact h.setLine hline rfl rfl rfl rfl rfl id
  | refused hline hloop => exact h.setLine hline rfl rfl rfl rfl rfl id
  | recv hline hloop hphase henv => exact h.setLine hline rfl rfl rfl rfl rfl id
  | broken hline hloop hphase => exact h.setLine hline rfl rfl rfl rfl rfl id
  | backOff hline hlive => exact h.backOff hline
  | ended hline hdone =>
      exact h.setLine hline rfl rfl rfl rfl rfl fun hpace => .inr ⟨hdone, hpace.count_le⟩
  | wake hline htime =>
      refine h.setLine hline rfl rfl rfl rfl rfl ?_
      rintro times errors ⟨hrested, hcount⟩
      exact .inl ⟨hrested.mono htime, hcount⟩
  | leave hline hdone => exact h.setLine hline rfl rfl rfl rfl rfl Pace.count_le
  | save hloop hphase => exact ⟨h.spaced, h.past, h.pace, h.fresh⟩
  | enqueue hloop hphase => exact ⟨h.spaced, h.past, h.pace, h.fresh⟩
  | behind hloops hreceived hdata hpassed => exact ⟨h.spaced, h.past, h.pace, h.fresh⟩

end Paced

/-- The calls of `subscribeOnce` by one goroutine are a backoff apart, and all of them but
at most one are counted in the errors. -/
theorem reconnects_back_off {configured ttl start : Int} {queueDepth : Nat} {file : CursorFile}
    {events : List UplinkEvent}
    (hrun : run (step logs (backoffOf configured)) (new queueDepth ttl file start) events = some s)
    (i : Nat) :
    ((s.attemptsOf i).IsChain fun a b => a + backoffOf configured ≤ b) ∧
      s.errors.count i ≤ (s.attemptsOf i).length ∧
      (s.attemptsOf i).length ≤ s.errors.count i + 1 := by
  have hnew : (new queueDepth ttl file start).Paced (backoffOf configured) := by
    refine ⟨fun _ => List.isChain_nil, fun _ last hlast => ?_, fun j phase hline => ?_,
      fun _ _ => ⟨rfl, rfl⟩⟩
    · cases hlast
    · simp [new] at hline
  have hpaced := run_invariant (Paced (backoffOf configured))
    (fun _ _ _ h hstep => h.step (step_of_step hstep)) hnew hrun
  refine ⟨hpaced.spaced i, ?_⟩
  cases hline : s.lines[i]? with
  | none =>
      obtain ⟨hnone, hcount⟩ := hpaced.fresh i hline
      rw [hnone, hcount]
      exact ⟨le_refl _, Nat.zero_le _⟩
  | some phase => exact (hpaced.pace i phase hline).count_le

theorem reconnects_back_off_brokenTwice : ∃ s,
    run (step fourEnvelopes (backoffOf 10))
      (new 8 60 (some [⟨"node-1", "node-1", "intent", 3⟩]) 0) brokenTwice = some s ∧
    s.attemptsOf 0 = [0, 10, 20] ∧ s.errors.count 0 = 2 ∧
      (s.attemptsOf 0).IsChain fun a b => a + 10 ≤ b := by
  have hvalues : (run (step fourEnvelopes (backoffOf 10))
      (new 8 60 (some [⟨"node-1", "node-1", "intent", 3⟩]) 0) brokenTwice).map
        (fun s => (s.attemptsOf 0, s.errors.count 0)) = some ([0, 10, 20], 2) := by
    decide +kernel
  obtain ⟨s, hs, hfields⟩ := Option.map_eq_some_iff.mp hvalues
  simp only [Prod.mk.injEq] at hfields
  obtain ⟨hspaced, -⟩ := reconnects_back_off hs 0
  exact ⟨s, hs, hfields.1, hfields.2, hspaced⟩

end KloudlensAggregator.Aggregator.Uplinks
