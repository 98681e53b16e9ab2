import KloudlensAggregator.Aggregator.ReExport
import KloudlensAggregator.Foundation.Progress

/-!
# The fan-out

The writer broadcasts to the registered subscribers under a lock, one after another
and without waiting.  A subscriber leaves in three steps, of which only the first
holds the lock: it is removed from the set, its drops are added to the total, its
channel is closed.  `Stats` reads the total and, under the lock, the drops of the
registered subscribers.
-/

namespace KloudlensAggregator.Aggregator

open KloudlensAggregator.Foundation

inductive SubStage where
  | registered
  | removed
  | folded
  | closed
  deriving DecidableEq, Repr

/-- `history` says of each broadcast to the subscriber whether it was queued; `since`
and `upto` are the numbers of broadcasts at its registration and at its removal. -/
structure LiveSubscriber where
  capacity : Nat
  ch : List LiveEnvelope
  drops : Nat
  stage : SubStage
  closes : Nat
  since : Nat
  upto : Option Nat
  history : List (LiveEnvelope × Bool)
  received : List LiveEnvelope
  deriving DecidableEq, Repr

/-- A call of `Stats`: the total it has loaded, the reports of the calls that were
complete by then, and its own report. -/
structure StatsCall where
  total : Nat
  earlier : List Nat
  report : Option Nat
  deriving DecidableEq, Repr

/-- `broadcasting` is the envelope the writer holds the lock for, with the subscribers
still to come; `log` are all envelopes broadcast so far. -/
structure FanOut where
  subs : List LiveSubscriber
  subsDropped : Nat
  broadcasting : Option (LiveEnvelope × List Nat)
  log : List LiveEnvelope
  calls : List StatsCall
  panicked : Bool

inductive FanOutEvent where
  | register (buf : Int)
  /-- The lock is taken and the range over the set begins. -/
  | broadcast (ev : LiveEnvelope) (order : List Nat)
  | offer
  | unlock
  | receive (i : Nat)
  | remove (i : Nat)
  | fold (i : Nat)
  | close (i : Nat)
  | statsLoad
  | statsSum (k : Nat)

namespace LiveSubscriber

def new (buf : Int) (since : Nat) : LiveSubscriber :=
  { capacity := if buf ≤ 0 then 1024 else buf.toNat
    ch := []
    drops := 0
    stage := .registered
    closes := 0
    since := since
    upto := none
    history := []
    received := [] }

def offer (sub : LiveSubscriber) (ev : LiveEnvelope) : LiveSubscriber :=
  if sub.ch.length < sub.capacity then
    { sub with ch := sub.ch ++ [ev], history := sub.history ++ [(ev, true)] }
  else { sub with drops := sub.drops + 1, history := sub.history ++ [(ev, false)] }

/-- The broadcasts that fell into the registration. -/
def window (sub : LiveSubscriber) (log : List LiveEnvelope) : List LiveEnvelope :=
  slice log sub.since (sub.upto.getD log.length)

def dropsIn (stages : List SubStage) (sub : LiveSubscriber) : Nat :=
  if sub.stage ∈ stages then sub.drops else 0

end LiveSubscriber

namespace FanOut

def new : FanOut := ⟨[], 0, none, [], [], false⟩

def dropsIn (s : FanOut) (stages : List SubStage) : Nat :=
  (s.subs.map (LiveSubscriber.dropsIn stages)).sum

def isRegistered (s : FanOut) (i : Nat) : Bool :=
  s.subs[i]?.any fun sub => sub.stage = .registered

def registeredIds (s : FanOut) : List Nat := (List.range s.subs.length).filter s.isRegistered

def setSub (s : FanOut) (i : Nat) (sub : LiveSubscriber) : FanOut :=
  { s with subs := s.subs.set i sub }

def reports (s : FanOut) : List Nat := s.calls.filterMap StatsCall.report

def step (s : FanOut) : FanOutEvent → Option FanOut
  | .register buf =>
      if s.broadcasting = none then
        some { s with subs := s.subs ++ [LiveSubscriber.new buf s.log.length] }
      else none
  | .broadcast ev order =>
      if s.broadcasting = none ∧ order.Perm s.registeredIds then
        some { s with broadcasting := some (ev, order), log := s.log ++ [ev] }
      else none
  | .offer =>
      match s.broadcasting with
      | some (ev, i :: rest) =>
          s.subs[i]?.map fun sub =>
            let t := { s with broadcasting := some (ev, rest) }
            -- A send on a closed channel panics.
            if sub.stage = .closed then { t with panicked := true } else t.setSub i (sub.offer ev)
      | _ => none
  | .unlock =>
      match s.broadcasting with
      | some (_, []) => some { s with broadcasting := none }
      | _ => none
  | .receive i =>
      s.subs[i]?.bind fun sub =>
        match sub.stage, sub.ch with
        | .registered, ev :: rest =>
            some (s.setSub i { sub with ch := rest, received := sub.received ++ [ev] })
        | _, _ => none
  | .remove i =>
      s.subs[i]?.bind fun sub =>
        if s.broadcasting = none ∧ sub.stage = .registered then
          some (s.setSub i { sub with stage := .removed, upto := some s.log.length })
        else none
  | .fold i =>
      s.subs[i]?.bind fun sub =>
        if sub.stage = .removed then
          some { s.setSub i { sub with stage := .folded } with
            subsDropped := s.subsDropped + sub.drops }
        else none
  | .close i =>
      s.subs[i]?.bind fun sub =>
        if sub.stage = .folded then
          some (s.setSub i { sub with stage := .closed, closes := sub.closes + 1 })
        else none
  | .statsLoad =>
      some { s with calls := s.calls ++ [⟨s.subsDropped, s.reports, none⟩] }
  | .statsSum k =>
      s.calls[k]?.bind fun call =>
        if s.broadcasting = none ∧ call.report = none then
          some { s with
            calls := s.calls.set k
              { call with report := some (call.total + s.dropsIn [.registered]) } }
        else none

/-! ## What one step does -/

variable {s t : FanOut} {i : Nat} {sub : LiveSubscriber}

theorem register_of_step {buf : Int} (h : s.step (.register buf) = some t) :
    s.broadcasting = none ∧
      t = { s with subs := s.subs ++ [LiveSubscriber.new buf s.log.length] } := by
  simp only [step] at h
  split at h <;> cases h
  exact ⟨‹_›, rfl⟩

theorem broadcast_of_step {ev : LiveEnvelope} {order : List Nat}
    (h : s.step (.broadcast ev order) = some t) :
    s.broadcasting = none ∧ order.Perm s.registeredIds ∧
      t = { s with broadcasting := some (ev, order), log := s.log ++ [ev] } := by
  simp only [step] at h
  split at h <;> cases h
  rename_i hready
  exact ⟨hready.1, hready.2, rfl⟩

theorem offer_of_step (h : s.step .offer = some t) :
    ∃ ev i rest sub, s.broadcasting = some (ev, i :: rest) ∧ s.subs[i]? = some sub ∧
      t = if sub.stage = .closed then
          { s with broadcasting := some (ev, rest), panicked := true }
        else { s with broadcasting := some (ev, rest), subs := s.subs.set i (sub.offer ev) } := by
  simp only [step] at h
  split at h
  · rename_i ev i rest hbroadcasting
    obtain ⟨sub, hsub, rfl⟩ := Option.map_eq_some_iff.mp h
    exact ⟨ev, i, rest, sub, hbroadcasting, hsub, rfl⟩
  · cases h

theorem unlock_of_step (h : s.step .unlock = some t) :
    (∃ ev, s.broadcasting = some (ev, [])) ∧ t = { s with broadcasting := none } := by
  simp only [step] at h
  split at h
  · rename_i ev hbroadcasting
    cases h
    exact ⟨⟨ev, hbroadcasting⟩, rfl⟩
  · cases h

theorem receive_of_step (h : s.step (.receive i) = some t) :
    ∃ sub ev rest, s.subs[i]? = some sub ∧ sub.stage = .registered ∧ sub.ch = ev :: rest ∧
      t = s.setSub i { sub with ch := rest, received := sub.received ++ [ev] } := by
  simp only [step, Option.bind_eq_some_iff] at h
  obtain ⟨sub, hsub, h⟩ := h
  split at h
  · rename_i ev rest hstage hch
    cases h
    exact ⟨sub, ev, rest, hsub, hstage, hch, rfl⟩
  · cases h

theorem remove_of_step (h : s.step (.remove i) = some t) :
    ∃ sub, s.subs[i]? = some sub ∧ s.broadcasting = none ∧ sub.stage = .registered ∧
      t = s.setSub i { sub with stage := .removed, upto := some s.log.length } := by
  simp only [step, Option.bind_eq_some_iff] at h
  obtain ⟨sub, hsub, h⟩ := h
  split at h <;> cases h
  rename_i hready
  exact ⟨sub, hsub, hready.1, hready.2, rfl⟩

theorem fold_of_step (h : s.step (.fold i) = some t) :
    ∃ sub, s.subs[i]? = some sub ∧ sub.stage = .removed ∧
      t = { s.setSub i { sub with stage := .folded } with
        subsDropped := s.subsDropped + sub.drops } := by
  simp only [step, Option.bind_eq_some_iff] at h
  obtain ⟨sub, hsub, h⟩ := h
  split at h <;> cases h
  exact ⟨sub, hsub, ‹_›, rfl⟩

theorem close_of_step (h : s.step (.close i) = some t) :
    ∃ sub, s.subs[i]? = some sub ∧ sub.stage = .folded ∧
      t = s.setSub i { sub with stage := .closed, closes := sub.closes + 1 } := by
  simp only [step, Option.bind_eq_some_iff] at h
  obtain ⟨sub, hsub, h⟩ := h
  split at h <;> cases h
  exact ⟨sub, hsub, ‹_›, rfl⟩

theorem statsSum_of_step {k : Nat} (h : s.step (.statsSum k) = some t) :
    ∃ call, s.calls[k]? = some call ∧ s.broadcasting = none ∧ call.report = none ∧
      t = { s with
        calls := s.calls.set k
          { call with report := some (call.total + s.dropsIn [.registered]) } } := by
  simp only [step, Option.bind_eq_some_iff] at h
  obtain ⟨call, hcall, h⟩ := h
  split at h <;> cases h
  rename_i hready
  exact ⟨call, hcall, hready.1, hready.2, rfl⟩

/-! ## Sums of drops -/

theorem dropsIn_setSub (stages : List SubStage) (h : s.subs[i]? = some sub)
    (sub' : LiveSubscriber) :
    (s.setSub i sub').dropsIn stages + sub.dropsIn stages =
      s.dropsIn stages + sub'.dropsIn stages :=
  sum_map_set _ h sub'

private theorem dropsIn_append (stages : List SubStage) (subs : List LiveSubscriber)
    (sub : LiveSubscriber) :
    ((subs ++ [sub]).map (LiveSubscriber.dropsIn stages)).sum =
      (subs.map (LiveSubscriber.dropsIn stages)).sum + sub.dropsIn stages := by
  simp

theorem dropsIn_total (s : FanOut) :
    s.dropsIn [.folded, .closed] + s.dropsIn [.removed] + s.dropsIn [.registered] =
      (s.subs.map LiveSubscriber.drops).sum := by
  unfold dropsIn
  induction s.subs with
  | nil => rfl
  | cons sub subs ih =>
      simp only [List.map_cons, List.sum_cons]
      have hsub : sub.dropsIn [.folded, .closed] + sub.dropsIn [.removed] +
          sub.dropsIn [.registered] = sub.drops := by
        cases hstage : sub.stage <;> simp [LiveSubscriber.dropsIn, hstage]
      omega

end FanOut

/-! ## One subscriber -/

namespace LiveSubscriber

variable {sub : LiveSubscriber} {log pending : List LiveEnvelope} {ev : LiveEnvelope}

/-- Each broadcast that fell into the registration was queued or dropped, in order, but
for the one that is still pending; what was queued is received or still in the channel;
what was dropped is counted. -/
structure Accounts (sub : LiveSubscriber) (log pending : List LiveEnvelope) : Prop where
  window : sub.history.map Prod.fst ++ pending = sub.window log
  queued : (sub.history.filter fun p => p.2).map Prod.fst = sub.received ++ sub.ch
  dropped : (sub.history.filter fun p => !p.2).length = sub.drops

structure Consistent (sub : LiveSubscriber) (length : Nat) : Prop where
  since : sub.since ≤ length
  upto : ∀ n ∈ sub.upto, n ≤ length
  registered : sub.stage = .registered ↔ sub.upto = none
  closes : sub.closes = if sub.stage = .closed then 1 else 0

theorem Accounts.offer (h : sub.Accounts log [ev]) : (sub.offer ev).Accounts log [] := by
  have hwindow : sub.history.map Prod.fst ++ [ev] = sub.window log := h.window
  unfold LiveSubscriber.offer
  split
  · refine ⟨?_, ?_, ?_⟩
    · rw [List.append_nil, List.map_append]
      exact hwindow
    · simp [h.queued]
    · simp [h.dropped]
  · refine ⟨?_, ?_, ?_⟩
    · rw [List.append_nil, List.map_append]
      exact hwindow
    · simp [h.queued]
    · simp [h.dropped]

theorem Consistent.offer {length : Nat} (h : sub.Consistent length) :
    (sub.offer ev).Consistent length := by
  unfold LiveSubscriber.offer
  split <;> exact ⟨h.since, h.upto, h.registered, h.closes⟩

theorem offer_stage (sub : LiveSubscriber) (ev : LiveEnvelope) :
    (sub.offer ev).stage = sub.stage := by
  unfold LiveSubscriber.offer
  split <;> rfl

theorem offer_drops (sub : LiveSubscriber) (ev : LiveEnvelope) :
    sub.drops ≤ (sub.offer ev).drops := by
  unfold LiveSubscriber.offer
  split
  · exact Nat.le_refl _
  · exact Nat.le_succ _

theorem Consistent.mono {length : Nat} (h : sub.Consistent length) :
    sub.Consistent (length + 1) :=
  ⟨Nat.le_succ_of_le h.since, fun n hn => Nat.le_succ_of_le (h.upto n hn), h.registered, h.closes⟩

theorem Consistent.window_append (h : sub.Consistent log.length) (ev : LiveEnvelope) :
    sub.window (log ++ [ev]) =
      sub.window log ++ if sub.stage = .registered then [ev] else [] := by
  unfold window
  cases hupto : sub.upto with
  | none =>
      rw [if_pos (h.registered.mpr hupto), Option.getD_none, Option.getD_none,
        List.length_append, List.length_singleton, slice_succ h.since List.getElem?_concat_length,
        slice_append_left log [ev] (Nat.le_refl _)]
  | some n =>
      have hstage : sub.stage ≠ .registered := by
        rw [ne_eq, h.registered, hupto]
        exact Option.some_ne_none n
      rw [if_neg hstage, List.append_nil, Option.getD_some, Option.getD_some,
        slice_append_left log [ev] (h.upto n hupto)]

end LiveSubscriber

namespace FanOut

variable {s t : FanOut} {i : Nat} {sub : LiveSubscriber}

def pending (s : FanOut) (i : Nat) : List LiveEnvelope :=
  match s.broadcasting with
  | some (ev, order) => if i ∈ order then [ev] else []
  | none => []

/-! ## Every state -/

structure Sound (s : FanOut) : Prop where
  accounts : ∀ (i : Nat) (sub : LiveSubscriber), s.subs[i]? = some sub →
    sub.Accounts s.log (s.pending i)
  consistent : ∀ (i : Nat) (sub : LiveSubscriber), s.subs[i]? = some sub →
    sub.Consistent s.log.length
  order : ∀ ev order, s.broadcasting = some (ev, order) →
    order.Nodup ∧ ∀ i ∈ order, s.isRegistered i = true
  counted : s.subsDropped = s.dropsIn [.folded, .closed]
  calm : s.panicked = false

theorem getElem?_set_cases {j : Nat} {sub' m : LiveSubscriber}
    (h : (s.subs.set i sub')[j]? = some m) :
    (i = j ∧ m = sub') ∨ (i ≠ j ∧ s.subs[j]? = some m) := by
  rw [List.getElem?_set] at h
  split at h
  · rename_i hij
    split at h
    · cases h
      exact Or.inl ⟨hij, rfl⟩
    · cases h
  · rename_i hij
    exact Or.inr ⟨hij, h⟩

theorem Sound.setSub (h : s.Sound) {sub' : LiveSubscriber} {total : Nat}
    (haccounts : sub'.Accounts s.log (s.pending i)) (hconsistent : sub'.Consistent s.log.length)
    (horder : ∀ ev order, s.broadcasting = some (ev, order) → i ∈ order →
      sub'.stage = .registered)
    (hcounted : total = (s.setSub i sub').dropsIn [.folded, .closed]) :
    Sound { s.setSub i sub' with subsDropped := total } := by
  refine ⟨?_, ?_, ?_, hcounted, h.calm⟩
  · intro j m hm
    rcases getElem?_set_cases hm with ⟨rfl, rfl⟩ | ⟨-, hold⟩
    · exact haccounts
    · exact h.accounts j m hold
  · intro j m hm
    rcases getElem?_set_cases hm with ⟨rfl, rfl⟩ | ⟨-, hold⟩
    · exact hconsistent
    · exact h.consistent j m hold
  · intro ev order hbroadcasting
    refine ⟨(h.order ev order hbroadcasting).1, ?_⟩
    intro j hj
    have hregistered := (h.order ev order hbroadcasting).2 j hj
    simp only [isRegistered, Option.any_eq_true, FanOut.setSub] at hregistered ⊢
    obtain ⟨m, hm, hstage⟩ := hregistered
    by_cases hij : i = j
    · subst hij
      obtain ⟨hlt, -⟩ := List.getElem?_eq_some_iff.mp hm
      refine ⟨sub', List.getElem?_set_self hlt, ?_⟩
      simp [horder ev order hbroadcasting hj]
    · exact ⟨m, (List.getElem?_set_ne hij).trans hm, hstage⟩

theorem pending_of_none (h : s.broadcasting = none) (i : Nat) : s.pending i = [] := by
  simp [pending, h]

theorem mem_registeredIds : i ∈ s.registeredIds ↔ s.isRegistered i = true := by
  simp only [registeredIds, List.mem_filter, List.mem_range, and_iff_right_iff_imp]
  intro hregistered
  obtain ⟨sub, hsub, -⟩ := Option.any_eq_true _ _ |>.mp hregistered
  exact (List.getElem?_eq_some_iff.mp hsub).1

theorem isRegistered_of_getElem? (h : s.subs[i]? = some sub) :
    s.isRegistered i = true ↔ sub.stage = .registered := by
  simp [isRegistered, h]

theorem Sound.register {buf : Int} (h : s.Sound) (hstep : s.step (.register buf) = some t) :
    t.Sound := by
  obtain ⟨hidle, rfl⟩ := register_of_step hstep
  have hcases : ∀ {j : Nat} {m : LiveSubscriber},
      (s.subs ++ [LiveSubscriber.new buf s.log.length])[j]? = some m →
      s.subs[j]? = some m ∨ m = LiveSubscriber.new buf s.log.length := by
    intro j m hm
    rw [List.getElem?_append] at hm
    split at hm
    · exact Or.inl hm
    · exact Or.inr (List.mem_singleton.mp (List.mem_of_getElem? hm))
  refine ⟨?_, ?_, ?_, ?_, h.calm⟩
  · intro j m hm
    rcases hcases hm with hold | rfl
    · exact h.accounts j m hold
    · have hwindow : (LiveSubscriber.new buf s.log.length).window s.log = [] :=
        slice_eq_nil s.log (Nat.le_refl _)
      refine ⟨?_, rfl, rfl⟩
      rw [hwindow]
      exact pending_of_none (s := { s with subs := _ }) hidle j
  · intro j m hm
    rcases hcases hm with hold | rfl
    · exact h.consistent j m hold
    · refine ⟨Nat.le_refl _, ?_, by simp [LiveSubscriber.new], by simp [LiveSubscriber.new]⟩
      intro n hn
      cases hn
  · intro ev order hbroadcasting
    rw [hidle] at hbroadcasting
    cases hbroadcasting
  · rw [h.counted, dropsIn, dropsIn, dropsIn_append]
    rfl

theorem Sound.broadcast {ev : LiveEnvelope} {order : List Nat} (h : s.Sound)
    (hstep : s.step (.broadcast ev order) = some t) : t.Sound := by
  obtain ⟨hidle, hperm, rfl⟩ := broadcast_of_step hstep
  refine ⟨?_, ?_, ?_, h.counted, h.calm⟩
  · intro j m hm
    change s.subs[j]? = some m at hm
    have haccounts := h.accounts j m hm
    have hwindow := haccounts.window
    rw [pending_of_none hidle, List.append_nil] at hwindow
    have hmem : j ∈ order ↔ m.stage = .registered := by
      rw [hperm.mem_iff, mem_registeredIds, isRegistered_of_getElem? hm]
    refine ⟨?_, haccounts.queued, haccounts.dropped⟩
    rw [(h.consistent j m hm).window_append ev, ← hwindow]
    simp only [pending, hmem]
  · intro j m hm
    rw [List.length_append, List.length_singleton]
    exact (h.consistent j m hm).mono
  · intro ev' order' hbroadcasting
    cases hbroadcasting
    refine ⟨hperm.nodup_iff.mpr (List.nodup_range.filter _), ?_⟩
    intro j hj
    exact mem_registeredIds.mp (hperm.mem_iff.mp hj)

theorem Sound.offer (h : s.Sound) (hstep : s.step .offer = some t) : t.Sound := by
  obtain ⟨ev, i, rest, sub, hbroadcasting, hsub, rfl⟩ := offer_of_step hstep
  obtain ⟨hnodup, hregistered⟩ := h.order ev (i :: rest) hbroadcasting
  rw [List.nodup_cons] at hnodup
  have hstage : sub.stage = .registered :=
    (isRegistered_of_getElem? hsub).mp (hregistered i List.mem_cons_self)
  rw [if_neg (by simp [hstage])]
  have hcases := @getElem?_set_cases s i
  refine ⟨?_, ?_, ?_, ?_, h.calm⟩
  · intro j m hm
    rcases hcases hm with ⟨rfl, rfl⟩ | ⟨hij, hold⟩
    · have haccounts := h.accounts i sub hsub
      simp only [pending, hbroadcasting, List.mem_cons_self, if_true] at haccounts
      simp only [pending, hnodup.1, if_false]
      exact haccounts.offer
    · have haccounts := h.accounts j m hold
      simpa only [pending, hbroadcasting, List.mem_cons, Ne.symm hij, false_or] using haccounts
  · intro j m hm
    rcases hcases hm with ⟨rfl, rfl⟩ | ⟨-, hold⟩
    · exact (h.consistent i sub hsub).offer
    · exact h.consistent j m hold
  · intro ev' order' heq
    cases heq
    refine ⟨hnodup.2, ?_⟩
    intro j hj
    have hij : i ≠ j := fun heq => hnodup.1 (heq ▸ hj)
    have hold := hregistered j (List.mem_cons_of_mem _ hj)
    simpa only [isRegistered, List.getElem?_set_ne hij] using hold
  · have hsum := dropsIn_setSub [.folded, .closed] hsub (sub.offer ev)
    have hbefore : sub.dropsIn [.folded, .closed] = 0 := by
      simp [LiveSubscriber.dropsIn, hstage]
    have hafter : (sub.offer ev).dropsIn [.folded, .closed] = 0 := by
      simp [LiveSubscriber.dropsIn, LiveSubscriber.offer_stage, hstage]
    rw [hbefore, hafter] at hsum
    exact h.counted.trans hsum.symm

theorem Sound.unlock (h : s.Sound) (hstep : s.step .unlock = some t) : t.Sound := by
  obtain ⟨⟨ev, hbroadcasting⟩, rfl⟩ := unlock_of_step hstep
  refine ⟨?_, h.consistent, ?_, h.counted, h.calm⟩
  · intro j m hm
    have haccounts := h.accounts j m hm
    simpa only [pending, hbroadcasting, List.not_mem_nil, if_false] using haccounts
  · intro ev' order heq
    cases heq

theorem Sound.receive (h : s.Sound) (hstep : s.step (.receive i) = some t) : t.Sound := by
  obtain ⟨sub, ev, rest, hsub, hstage, hch, rfl⟩ := receive_of_step hstep
  have haccounts := h.accounts i sub hsub
  have hconsistent := h.consistent i sub hsub
  refine h.setSub ?_ ?_ (fun _ _ _ _ => hstage) ?_
  · refine ⟨haccounts.window, ?_, haccounts.dropped⟩
    rw [haccounts.queued, hch, List.append_assoc, List.singleton_append]
  · exact ⟨hconsistent.since, hconsistent.upto, hconsistent.registered, hconsistent.closes⟩
  · have hsum := dropsIn_setSub [.folded, .closed] hsub
      { sub with ch := rest, received := sub.received ++ [ev] }
    rw [h.counted]
    exact (Nat.add_right_cancel hsum).symm

theorem Sound.remove (h : s.Sound) (hstep : s.step (.remove i) = some t) : t.Sound := by
  obtain ⟨sub, hsub, hidle, hstage, rfl⟩ := remove_of_step hstep
  have haccounts := h.accounts i sub hsub
  have hconsistent := h.consistent i sub hsub
  have hupto := hconsistent.registered.mp hstage
  refine h.setSub ?_ ?_ ?_ ?_
  · refine ⟨haccounts.window.trans ?_, haccounts.queued, haccounts.dropped⟩
    simp only [LiveSubscriber.window, hupto, Option.getD_none, Option.getD_some]
  · refine ⟨hconsistent.since, ?_, by simp, ?_⟩
    · intro n hn
      cases hn
      exact Nat.le_refl _
    · simpa [hstage] using hconsistent.closes
  · intro ev order hbroadcasting
    rw [hidle] at hbroadcasting
    cases hbroadcasting
  · have hsum := dropsIn_setSub [.folded, .closed] hsub
      { sub with stage := .removed, upto := some s.log.length }
    simp only [LiveSubscriber.dropsIn, hstage] at hsum
    rw [h.counted]
    simpa using hsum.symm

theorem Sound.advance (h : s.Sound) (hsub : s.subs[i]? = some sub)
    (hleft : sub.stage ≠ .registered) {stage : SubStage} {closes total : Nat}
    (hstage : stage ≠ .registered) (hcloses : closes = if stage = .closed then 1 else 0)
    (hcounted : total =
      (s.setSub i { sub with stage := stage, closes := closes }).dropsIn [.folded, .closed]) :
    Sound { s.setSub i { sub with stage := stage, closes := closes } with
      subsDropped := total } := by
  have haccounts := h.accounts i sub hsub
  have hconsistent := h.consistent i sub hsub
  refine h.setSub ⟨haccounts.window, haccounts.queued, haccounts.dropped⟩ ?_ ?_ hcounted
  · refine ⟨hconsistent.since, hconsistent.upto, ?_, hcloses⟩
    exact (iff_of_false hstage hleft).trans hconsistent.registered
  · intro ev order hbroadcasting hi
    have hregistered := (h.order ev order hbroadcasting).2 i hi
    exact absurd ((isRegistered_of_getElem? hsub).mp hregistered) hleft

theorem Sound.fold (h : s.Sound) (hstep : s.step (.fold i) = some t) : t.Sound := by
  obtain ⟨sub, hsub, hstage, rfl⟩ := fold_of_step hstep
  have hcloses := (h.consistent i sub hsub).closes
  refine h.advance hsub (by simp [hstage]) (by simp) (by simpa [hstage] using hcloses) ?_
  have hsum := dropsIn_setSub [.folded, .closed] hsub { sub with stage := .folded }
  simp only [LiveSubscriber.dropsIn, hstage] at hsum
  rw [h.counted]
  simpa using hsum.symm

theorem Sound.close (h : s.Sound) (hstep : s.step (.close i) = some t) : t.Sound := by
  obtain ⟨sub, hsub, hstage, rfl⟩ := close_of_step hstep
  have hcloses := (h.consistent i sub hsub).closes
  refine h.advance hsub (by simp [hstage]) (by simp) (by simpa [hstage] using hcloses) ?_
  have hsum := dropsIn_setSub [.folded, .closed] hsub
    { sub with stage := .closed, closes := sub.closes + 1 }
  simp only [LiveSubscriber.dropsIn, hstage] at hsum
  rw [h.counted]
  simpa using hsum.symm

theorem Sound.step {e : FanOutEvent} (h : s.Sound) (hstep : s.step e = some t) : t.Sound := by
  cases e with
  | register buf => exact h.register hstep
  | broadcast ev order => exact h.broadcast hstep
  | offer => exact h.offer hstep
  | unlock => exact h.unlock hstep
  | receive i => exact h.receive hstep
  | remove i => exact h.remove hstep
  | fold i => exact h.fold hstep
  | close i => exact h.close hstep
  | statsLoad =>
      cases hstep
      exact ⟨h.accounts, h.consistent, h.order, h.counted, h.calm⟩
  | statsSum k =>
      obtain ⟨call, -, -, -, rfl⟩ := statsSum_of_step hstep
      exact ⟨h.accounts, h.consistent, h.order, h.counted, h.calm⟩

theorem sound_new : new.Sound := by
  refine ⟨?_, ?_, ?_, rfl, rfl⟩
  · intro i sub hsub
    cases hsub
  · intro i sub hsub
    cases hsub
  · intro ev order hbroadcasting
    cases hbroadcasting

theorem sound_run {events : List FanOutEvent} (hrun : run step new events = some s) : s.Sound :=
  run_invariant Sound (fun _ _ _ h hstep => h.step hstep) sound_new hrun

def everDropped (s : FanOut) : Nat :=
  (s.subs.map fun sub => (sub.history.filter fun p => !p.2).length).sum

theorem Sound.everDropped_eq (h : s.Sound) :
    s.everDropped = s.subsDropped + s.dropsIn [.removed] + s.dropsIn [.registered] := by
  rw [h.counted, dropsIn_total, everDropped]
  congr 1
  apply List.map_congr_left
  intro sub hmem
  obtain ⟨i, hi⟩ := List.getElem?_of_mem hmem
  exact (h.accounts i sub hi).dropped

theorem fan_out_conserves (events : List FanOutEvent) (s : FanOut)
    (hrun : run step new events = some s) :
    s.panicked = false ∧ (∀ sub ∈ s.subs, sub.closes ≤ 1) ∧
      (∀ (i : Nat) (sub : LiveSubscriber), s.subs[i]? = some sub →
        sub.Accounts s.log (s.pending i)) ∧
      ((∀ sub ∈ s.subs, sub.stage ≠ .removed) →
        s.subsDropped + s.dropsIn [.registered] = s.everDropped) := by
  have hsound := sound_run hrun
  refine ⟨hsound.calm, ?_, hsound.accounts, ?_⟩
  · intro sub hmem
    obtain ⟨i, hi⟩ := List.getElem?_of_mem hmem
    rw [(hsound.consistent i sub hi).closes]
    split <;> omega
  · intro hidle
    have hnone : s.dropsIn [.removed] = 0 := by
      rw [dropsIn, List.sum_eq_zero]
      intro n hn
      obtain ⟨sub, hmem, rfl⟩ := List.mem_map.mp hn
      simp [LiveSubscriber.dropsIn, hidle sub hmem]
    rw [hsound.everDropped_eq, hnone, Nat.add_zero]

def liveEnvelope (seq : Nat) : LiveEnvelope := ⟨seq, "agent-a", ⟨none, .other⟩⟩

def broadcastTo (seq : Nat) (order : List Nat) : List FanOutEvent :=
  .broadcast (liveEnvelope seq) order :: (order.map fun _ => .offer) ++ [.unlock]

def oneLeaves : List FanOutEvent :=
  .register 1 :: broadcastTo 1 [0] ++ broadcastTo 2 [0] ++ [.receive 0, .register 0] ++
    broadcastTo 3 [1, 0] ++ [.remove 0, .fold 0, .receive 1, .close 0]

theorem fan_out_conserves_oneLeaves :
    ∃ s, run step new oneLeaves = some s ∧ s.subsDropped = 1 ∧ s.everDropped = 1 ∧
      s.panicked = false := by
  have hvalues : (run step new oneLeaves).map (fun s => (s.subsDropped, s.everDropped)) =
      some (1, 1) := by
    decide +kernel
  obtain ⟨s, hrun, hvalues⟩ := Option.map_eq_some_iff.mp hvalues
  obtain ⟨hdropped, hever⟩ := Prod.mk.inj hvalues
  exact ⟨s, hrun, hdropped, hever, (fan_out_conserves oneLeaves s hrun).1⟩

end FanOut

end KloudlensAggregator.Aggregator
