import KloudlensAggregator.Aggregator.ReExport

/-!
# Drops on a live stream

`broadcast` drops an envelope for a subscriber whose channel is full and counts
the drop; the live loop of `Subscribe` never looks at the count.  This module
follows one live subscriber through any interleaving of broadcasts and receives
and says when a drop stays without a trace on its stream.
-/

namespace KloudlensAggregator.Aggregator

open KloudlensAggregator.Foundation
open KloudlensAggregator.Envwal

variable {pj : ProtoJson EventEnvelope} {aggregatorId : String} {sub next : Subscriber}

inductive LiveEvent where
  | broadcast (ev : LiveEnvelope)
  | receive

def Subscriber.liveStep (aggregatorId : String) (sub : Subscriber) :
    LiveEvent → Option Subscriber
  | .broadcast ev => some (sub.offer ev)
  | .receive =>
      match sub.ch with
      | [] => none
      | ev :: rest => some (sub.receive aggregatorId ev rest)

def LiveEvent.seqs (events : List LiveEvent) : List Nat :=
  events.filterMap fun
    | .broadcast ev => some ev.seq
    | .receive => none

def Mark.lost (request : SubscribeRequest) : Mark → Option LiveEnvelope
  | .dropped ev => if request.accepts ev.envelope then some ev else none
  | _ => none

def Subscriber.lost (sub : Subscriber) : List LiveEnvelope :=
  sub.history.filterMap (Mark.lost sub.request)

/-- After an accepted envelope was dropped, nothing with a higher seq is sent. -/
def Subscriber.NoSilentGap (sub : Subscriber) : Prop :=
  sub.history.Pairwise fun earlier later => ∀ ev seq out, earlier = .dropped ev →
    later = .sent seq out → sub.request.accepts ev.envelope = true → seq ≤ ev.seq

def Subscriber.QueueBehindLost (sub : Subscriber) : Prop :=
  ∀ ev ∈ sub.ch, sub.request.accepts ev.envelope = true → ∀ lost ∈ sub.lost, ev.seq ≤ lost.seq

/-- What a step must leave alone: an accepted envelope enters the channel only if
no older one was lost, and is lost only if no newer one waits. -/
def Subscriber.leavesNoGap (sub : Subscriber) : LiveEvent → Bool
  | .broadcast ev =>
      !sub.request.accepts ev.envelope ||
        if sub.ch.length < sub.capacity then sub.lost.all fun lost => ev.seq ≤ lost.seq
        else sub.ch.all fun waiting =>
          !sub.request.accepts waiting.envelope || waiting.seq ≤ ev.seq
  | .receive => true

/-! ## One step, forwards and backwards -/

/-- No gap was sent, and nothing that waits in the channel would open one. -/
def Subscriber.Gapless (sub : Subscriber) : Prop := sub.NoSilentGap ∧ sub.QueueBehindLost

private theorem pairwise_concat_mark {request : SubscribeRequest} {history : List Mark}
    {mark : Mark} (hmark : ∀ seq out, mark ≠ .sent seq out) :
    ((history ++ [mark]).Pairwise fun earlier later => ∀ ev seq out, earlier = .dropped ev →
      later = .sent seq out → request.accepts ev.envelope = true → seq ≤ ev.seq) ↔
    history.Pairwise fun earlier later => ∀ ev seq out, earlier = .dropped ev →
      later = .sent seq out → request.accepts ev.envelope = true → seq ≤ ev.seq := by
  rw [List.pairwise_append]
  constructor
  · exact fun h => h.1
  · intro h
    refine ⟨h, List.pairwise_singleton _ _, ?_⟩
    intro earlier hearlier later hlater ev seq out _ hsent
    rw [List.mem_singleton.mp hlater] at hsent
    exact absurd hsent (hmark seq out)

theorem Subscriber.mem_lost {ev : LiveEnvelope} :
    ev ∈ sub.lost ↔ .dropped ev ∈ sub.history ∧ sub.request.accepts ev.envelope = true := by
  unfold Subscriber.lost
  rw [List.mem_filterMap]
  constructor
  · rintro ⟨mark, hmark, h⟩
    unfold Mark.lost at h
    split at h
    · split at h
      · cases h
        exact ⟨hmark, by assumption⟩
      · cases h
    · cases h
  · rintro ⟨hmark, haccepts⟩
    exact ⟨_, hmark, by simp [Mark.lost, haccepts]⟩

namespace Subscriber

private theorem gapless_queue {ev : LiveEnvelope} :
    (sub.queue ev).Gapless ↔ sub.Gapless ∧ (sub.request.accepts ev.envelope = true →
      ∀ lost ∈ sub.lost, ev.seq ≤ lost.seq) := by
  have hlost : (sub.queue ev).lost = sub.lost := by simp [lost, queue, Mark.lost]
  have hgap : (sub.queue ev).NoSilentGap ↔ sub.NoSilentGap := pairwise_concat_mark (by simp)
  rw [Gapless, Gapless, hgap, QueueBehindLost, hlost, and_assoc]
  simp [QueueBehindLost, queue, or_imp, forall_and]

private theorem gapless_drop {ev : LiveEnvelope} :
    (sub.drop ev).Gapless ↔ sub.Gapless ∧ (sub.request.accepts ev.envelope = true →
      ∀ waiting ∈ sub.ch, sub.request.accepts waiting.envelope = true →
        waiting.seq ≤ ev.seq) := by
  have hlost : ∀ lost, lost ∈ (sub.drop ev).lost ↔
      lost ∈ sub.lost ∨ (lost = ev ∧ sub.request.accepts ev.envelope = true) := by
    intro lost
    simp only [mem_lost, drop, List.mem_append, List.mem_singleton, Mark.dropped.injEq]
    constructor
    · rintro ⟨hold | rfl, haccepts⟩
      · exact .inl ⟨hold, haccepts⟩
      · exact .inr ⟨rfl, haccepts⟩
    · rintro (⟨hold, haccepts⟩ | ⟨rfl, haccepts⟩)
      · exact ⟨.inl hold, haccepts⟩
      · exact ⟨.inr rfl, haccepts⟩
  have hgap : (sub.drop ev).NoSilentGap ↔ sub.NoSilentGap := pairwise_concat_mark (by simp)
  rw [Gapless, Gapless, hgap, and_assoc]
  apply and_congr_right
  intro _
  simp only [QueueBehindLost, hlost]
  constructor
  · intro h
    exact ⟨fun waiting hwaiting hw lost hlost => h waiting hwaiting hw lost (.inl hlost),
      fun haccepts waiting hwaiting hw => h waiting hwaiting hw ev (.inr ⟨rfl, haccepts⟩)⟩
  · rintro ⟨hold, hnew⟩ waiting hwaiting hw lost (hlost | ⟨rfl, haccepts⟩)
    · exact hold waiting hwaiting hw lost hlost
    · exact hnew haccepts waiting hwaiting hw

theorem gapless_offer (hlive : sub.phase = .live) (ev : LiveEnvelope) :
    (sub.offer ev).Gapless ↔ sub.Gapless ∧ sub.leavesNoGap (.broadcast ev) = true := by
  rcases sub.offer_cases ev with ⟨-, hreturned⟩ | ⟨heq, hroom⟩ | ⟨heq, hfull⟩
  · rw [hlive] at hreturned
    cases hreturned
  · rw [heq, gapless_queue]
    simp [leavesNoGap, hroom, ← Bool.not_eq_true, ← imp_iff_not_or]
  · rw [heq, gapless_drop]
    simp [leavesNoGap, Nat.not_lt.mpr hfull, ← Bool.not_eq_true, ← imp_iff_not_or]

theorem gapless_send {ev : LiveEnvelope} {rest : List LiveEnvelope} (hch : sub.ch = ev :: rest)
    (haccepts : sub.request.accepts ev.envelope = true) :
    ({ sub with ch := rest }.send aggregatorId ev.seq ev.envelope).Gapless ↔ sub.Gapless := by
  have hlost : ({ sub with ch := rest }.send aggregatorId ev.seq ev.envelope).lost = sub.lost := by
    simp [lost, send, Mark.lost]
  have hgap : ({ sub with ch := rest }.send aggregatorId ev.seq ev.envelope).NoSilentGap ↔
      sub.NoSilentGap ∧ ∀ lost ∈ sub.lost, ev.seq ≤ lost.seq := by
    simp only [NoSilentGap, send, List.pairwise_append, List.mem_singleton, forall_eq,
      List.pairwise_singleton, true_and, Mark.sent.injEq]
    apply and_congr_right
    intro _
    constructor
    · intro h lost hlost
      obtain ⟨hmark, hlostAccepts⟩ := mem_lost.mp hlost
      exact h _ hmark lost ev.seq _ rfl ⟨rfl, rfl⟩ hlostAccepts
    · rintro h mark hmark lost seq out rfl ⟨rfl, -⟩ hlostAccepts
      exact h lost (mem_lost.mpr ⟨hmark, hlostAccepts⟩)
  rw [Gapless, Gapless, hgap, QueueBehindLost, QueueBehindLost, hlost, hch, and_assoc]
  simp [send, haccepts]

theorem gapless_tail {ev : LiveEnvelope} {rest : List LiveEnvelope} (hch : sub.ch = ev :: rest) :
    sub.Gapless ↔ { sub with ch := rest }.Gapless ∧
      (sub.request.accepts ev.envelope = true → ∀ lost ∈ sub.lost, ev.seq ≤ lost.seq) := by
  simp only [Gapless, QueueBehindLost, NoSilentGap, hch, List.forall_mem_cons, and_assoc]
  apply and_congr_right
  intro _
  exact and_comm

theorem Gapless.receive (h : sub.Gapless) {ev : LiveEnvelope} {rest : List LiveEnvelope}
    (hch : sub.ch = ev :: rest) : (sub.receive aggregatorId ev rest).Gapless := by
  simp only [Subscriber.receive]
  split
  · exact ((gapless_tail hch).mp h).1
  · split
    · rename_i haccepts
      exact (gapless_send hch haccepts).mpr h
    · exact ((gapless_tail hch).mp h).1

private theorem gapless_of_receive {ev : LiveEnvelope} {rest : List LiveEnvelope}
    (hch : sub.ch = ev :: rest) (hfresh : sub.lastSentSeq < ev.seq)
    (h : (sub.receive aggregatorId ev rest).Gapless) : sub.Gapless := by
  -- Backwards, provided that the receive does not skip a seq as already sent.
  simp only [Subscriber.receive, Nat.not_le.mpr hfresh, if_false] at h
  split at h
  · rename_i haccepts
    exact (gapless_send hch haccepts).mp h
  · rename_i hrefused
    exact (gapless_tail hch).mpr ⟨h, fun haccepts => absurd haccepts hrefused⟩

/-! ## Runs -/

def InOrder (sub : Subscriber) (events : List LiveEvent) : Prop :=
  (sub.lastSentSeq :: (sub.ch.map LiveEnvelope.seq ++ LiveEvent.seqs events)).Pairwise (· < ·)

theorem liveStep_phase {event : LiveEvent} (h : sub.liveStep aggregatorId event = some next) :
    next.phase = sub.phase := by
  cases event with
  | broadcast ev =>
      cases h
      exact offer_phase ev sub
  | receive =>
      simp only [liveStep] at h
      split at h
      · cases h
      · cases h
        simp only [receive]
        split
        · rfl
        · split <;> rfl

theorem InOrder.step {event : LiveEvent} {events : List LiveEvent}
    (h : sub.InOrder (event :: events)) (hstep : sub.liveStep aggregatorId event = some next) :
    next.InOrder events := by
  cases event with
  | broadcast ev =>
      cases hstep
      have hdropped : sub.InOrder events := by
        refine h.sublist (List.Sublist.cons_cons _ (List.Sublist.append_left ?_ _))
        exact List.sublist_cons_self ev.seq _
      rcases sub.offer_cases ev with ⟨heq, -⟩ | ⟨heq, -⟩ | ⟨heq, -⟩ <;> rw [heq]
      · exact hdropped
      · simpa [InOrder, queue, LiveEvent.seqs] using h
      · exact hdropped
  | receive =>
      simp only [liveStep] at hstep
      split at hstep
      · cases hstep
      · rename_i ev rest hch
        cases hstep
        unfold InOrder at h
        rw [hch] at h
        have hskipped : { sub with ch := rest }.InOrder events :=
          h.sublist (List.Sublist.cons_cons _ (List.sublist_cons_self ev.seq _))
        simp only [receive]
        split
        · exact hskipped
        · split
          · exact (List.pairwise_cons.mp h).2
          · exact hskipped

theorem InOrder.lt_head {events : List LiveEvent} (h : sub.InOrder events) {ev : LiveEnvelope}
    {rest : List LiveEnvelope} (hch : sub.ch = ev :: rest) : sub.lastSentSeq < ev.seq := by
  unfold InOrder at h
  rw [hch] at h
  exact (List.pairwise_cons.mp h).1 _ List.mem_cons_self

theorem Gapless.run {events : List LiveEvent} {final : Subscriber} (h : sub.Gapless)
    (hlive : sub.phase = .live)
    (hrun : Foundation.run (restrict leavesNoGap (liveStep aggregatorId)) sub events =
      some final) : final.Gapless := by
  have hinv : final.phase = .live ∧ final.Gapless := by
    apply run_invariant (fun sub : Subscriber => sub.phase = .live ∧ sub.Gapless) _ ⟨hlive, h⟩
      hrun
    rintro sub event next ⟨hlive, h⟩ hstep
    obtain ⟨hguard, hstep⟩ := restrict_eq_some.mp hstep
    refine ⟨(liveStep_phase hstep).trans hlive, ?_⟩
    cases event with
    | broadcast ev =>
        cases hstep
        exact (gapless_offer hlive ev).mpr ⟨h, hguard⟩
    | receive =>
        simp only [liveStep] at hstep
        split at hstep
        · cases hstep
        · rename_i ev rest hch
          cases hstep
          exact h.receive hch
  exact hinv.2

theorem gapless_of_run {events : List LiveEvent} {final : Subscriber}
    (hlive : sub.phase = .live) (hordered : sub.InOrder events)
    (hrun : Foundation.run (liveStep aggregatorId) sub events = some final)
    (hfinal : final.Gapless) :
    sub.Gapless ∧
      Foundation.run (restrict leavesNoGap (liveStep aggregatorId)) sub events = some final := by
  -- Backwards: where a run in order ends without a gap, each of its steps left none.
  induction events generalizing sub with
  | nil =>
      cases hrun
      exact ⟨hfinal, rfl⟩
  | cons event events ih =>
      obtain ⟨next, hstep, hrest⟩ := run_cons_eq_some.mp hrun
      obtain ⟨hnext, hguarded⟩ := ih ((liveStep_phase hstep).trans hlive)
        (hordered.step hstep) hrest
      have hback : sub.Gapless ∧ sub.leavesNoGap event = true := by
        cases event with
        | broadcast ev =>
            cases hstep
            exact (gapless_offer hlive ev).mp hnext
        | receive =>
            simp only [liveStep] at hstep
            split at hstep
            · cases hstep
            · rename_i ev rest hch
              cases hstep
              exact ⟨gapless_of_receive hch (hordered.lt_head hch) hnext, rfl⟩
      refine ⟨hback.1, ?_⟩
      rw [run_cons_eq_some]
      exact ⟨next, restrict_eq_some.mpr ⟨hback.2, hstep⟩, hguarded⟩

private theorem exists_drained (aggregatorId : String) (sub : Subscriber) :
    ∃ n t, Foundation.run (liveStep aggregatorId) sub (List.replicate n .receive) = some t ∧
      t.ch = [] := by
  induction hch : sub.ch generalizing sub with
  | nil => exact ⟨0, sub, rfl, hch⟩
  | cons ev rest ih =>
      have hrest : (sub.receive aggregatorId ev rest).ch = rest := by
        simp only [receive]
        split
        · rfl
        · split <;> rfl
      obtain ⟨n, t, hrun, ht⟩ := ih (sub.receive aggregatorId ev rest) hrest
      refine ⟨n + 1, t, ?_, ht⟩
      rw [List.replicate_succ, run_cons_eq_some]
      exact ⟨_, by simp [liveStep, hch], hrun⟩

theorem Gapless.drain {n : Nat} {t : Subscriber} (h : sub.Gapless)
    (hrun : Foundation.run (liveStep aggregatorId) sub (List.replicate n .receive) = some t) :
    t.Gapless := by
  induction n generalizing sub with
  | zero =>
      cases hrun
      exact h
  | succ n ih =>
      obtain ⟨next, hstep, hrest⟩ := run_cons_eq_some.mp hrun
      simp only [liveStep] at hstep
      split at hstep
      · cases hstep
      · rename_i ev rest hch
        cases hstep
        exact ih (h.receive hch) hrest

theorem InOrder.replicate_receive (h : sub.InOrder []) (n : Nat) :
    sub.InOrder (List.replicate n .receive) := by
  have hseqs : LiveEvent.seqs (List.replicate n .receive) = [] := by
    simp [LiveEvent.seqs]
  unfold InOrder
  rw [hseqs]
  exact h

theorem InOrder.run {events : List LiveEvent} {final : Subscriber} (h : sub.InOrder events)
    (hrun : Foundation.run (liveStep aggregatorId) sub events = some final) :
    final.InOrder [] := by
  induction events generalizing sub with
  | nil =>
      cases hrun
      exact h
  | cons event events ih =>
      obtain ⟨next, hstep, hrest⟩ := run_cons_eq_some.mp hrun
      exact ih (h.step hstep) hrest

private theorem run_phase {events : List LiveEvent} {final : Subscriber}
    (hrun : Foundation.run (liveStep aggregatorId) sub events = some final) :
    final.phase = sub.phase :=
  run_invariant (fun s : Subscriber => s.phase = sub.phase)
    (fun _ _ _ hs hstep => (liveStep_phase hstep).trans hs) rfl hrun

private theorem gapless_of_lost_eq_nil (h : sub.lost = []) : sub.Gapless := by
  constructor
  · apply List.pairwise_of_forall_mem_list
    rintro earlier hearlier later - ev seq out rfl - haccepts
    have := mem_lost.mpr ⟨hearlier, haccepts⟩
    rw [h] at this
    cases this
  · intro ev _ _ lost hlost
    rw [h] at hlost
    cases hlost

end Subscriber

/-! ## The subscribers of the system -/

theorem System.run_returned {s t : System} {events : List SystemEvent} {k : Nat}
    (hk : s.subs[k]? = some sub) (hreturned : sub.phase = .returned)
    (hrun : run (System.step pj aggregatorId) s events = some t) :
    ∃ final, t.subs[k]? = some final ∧ final.phase = .returned := by
  apply run_invariant (fun s : System => ∃ sub, s.subs[k]? = some sub ∧ sub.phase = .returned) _
    ⟨sub, hk, hreturned⟩ hrun
  rintro s event t ⟨sub, hk, hreturned⟩ hstep
  obtain ⟨next, hnext, hadvance⟩ := System.advance_of_step hstep hk
  refine ⟨next, hnext, ?_⟩
  cases hadvance with
  | emit => exact hreturned
  | broadcast => simpa using hreturned
  | gc => exact hreturned
  | other => exact hreturned
  | snapshot hphase => simp [hphase] at hreturned
  | read hphase => simp [hphase] at hreturned
  | receive hphase => simp [hphase] at hreturned
  | disconnect => rfl

/-- In the system a subscriber that is live and stays so takes the steps above. -/
theorem System.exists_liveRun {s t : System} {events : List SystemEvent} {k : Nat}
    {final : Subscriber} (hrun : run (System.step pj aggregatorId) s events = some t)
    (hk : s.subs[k]? = some sub) (hlive : sub.phase = .live)
    (ht : t.subs[k]? = some final) (hfinal : final.phase = .live) :
    ∃ lives, run (Subscriber.liveStep aggregatorId) sub lives = some final := by
  induction events generalizing s sub with
  | nil =>
      cases hrun
      rw [hk] at ht
      cases ht
      exact ⟨[], rfl⟩
  | cons event events ih =>
      obtain ⟨middle, hstep, hrest⟩ := run_cons_eq_some.mp hrun
      obtain ⟨next, hnext, hadvance⟩ := System.advance_of_step hstep hk
      cases hadvance with
      | emit => exact ih hrest hnext hlive
      | @broadcast ev =>
          obtain ⟨lives, hlives⟩ := ih hrest hnext ((Subscriber.offer_phase ev sub).trans hlive)
          exact ⟨.broadcast ev :: lives, run_cons_eq_some.mpr ⟨_, rfl, hlives⟩⟩
      | gc => exact ih hrest hnext hlive
      | other => exact ih hrest hnext hlive
      | snapshot hphase => simp [hphase] at hlive
      | read hphase => simp [hphase] at hlive
      | @receive i ev rest _ hphase hch =>
          have hreceive : sub.liveStep aggregatorId .receive =
              some (sub.receive aggregatorId ev rest) := by
            simp [Subscriber.liveStep, hch]
          obtain ⟨lives, hlives⟩ := ih hrest hnext
            ((Subscriber.liveStep_phase hreceive).trans hlive)
          exact ⟨.receive :: lives, run_cons_eq_some.mpr ⟨_, hreceive, hlives⟩⟩
      | disconnect =>
          obtain ⟨final', ht', hreturned⟩ := System.run_returned hnext rfl hrest
          rw [ht] at ht'
          cases ht'
          rw [hfinal] at hreturned
          cases hreturned

/-! ## The theorem -/

/-- For a live subscriber that has lost nothing so far, no gap opens on the stream,
however far the channel is drained, if every step leaves none, and only if so
where the seqs come in order. -/
theorem noSilentGap_iff {sub final : Subscriber} {events : List LiveEvent}
    (hlive : sub.phase = .live) (hlost : sub.lost = [])
    (hrun : run (Subscriber.liveStep aggregatorId) sub events = some final) :
    (run (restrict Subscriber.leavesNoGap (Subscriber.liveStep aggregatorId)) sub events =
        some final →
      ∀ n t, run (Subscriber.liveStep aggregatorId) final (List.replicate n .receive) = some t →
        t.NoSilentGap) ∧
    (sub.InOrder events →
      (∀ n t, run (Subscriber.liveStep aggregatorId) final (List.replicate n .receive) =
        some t → t.NoSilentGap) →
      run (restrict Subscriber.leavesNoGap (Subscriber.liveStep aggregatorId)) sub events =
        some final) := by
  constructor
  · intro hguarded n t hdrain
    have hfinal := (Subscriber.gapless_of_lost_eq_nil hlost).run hlive hguarded
    exact (hfinal.drain hdrain).1
  · intro hordered hnever
    obtain ⟨n, t, hdrain, hch⟩ := final.exists_drained aggregatorId
    have hfinalLive := (Subscriber.run_phase hrun).trans hlive
    have hdrained : t.Gapless := ⟨hnever n t hdrain, by simp [Subscriber.QueueBehindLost, hch]⟩
    have hfinal := (Subscriber.gapless_of_run hfinalLive
      ((hordered.run hrun).replicate_receive n) hdrain hdrained).1
    exact (Subscriber.gapless_of_run hlive hordered hrun hfinal).2

def narrowSubscriber : Subscriber :=
  (registerSubscriber ⟨[], none, none⟩ 1).snapshot none

def slowClient : List SystemEvent :=
  [.subscribe ⟨[], none, none⟩ 1, .snapshot 0,
    .emit "node-a" bareEnvelope ⟨1, 1, 1⟩ .none, .broadcast,
    .emit "node-a" bareEnvelope ⟨2, 2, 2⟩ .none, .broadcast, .receive 0,
    .emit "node-a" bareEnvelope ⟨3, 3, 3⟩ .none, .broadcast, .receive 0]

theorem slowClient_silentGap :
    ∃ world s sub,
      run (World.safeStep sampleMessages) (World.empty 0)
        [.openLog ⟨"wal", 0, 1000, 10⟩ 0] = some world ∧
      run (System.step sampleMessages "cluster-a") (System.start world) slowClient = some s ∧
      s.subs[0]? = some sub ∧ ¬ sub.NoSilentGap := by
  have hvalues : (do
      let world ← run (World.safeStep sampleMessages) (World.empty 0)
        [.openLog ⟨"wal", 0, 1000, 10⟩ 0]
      let s ← run (System.step sampleMessages "cluster-a") (System.start world) slowClient
      s.subs[0]?) = some
        { narrowSubscriber with
          drops := 1
          lastSentSeq := 3
          history := [.queued ⟨1, "node-a", bareEnvelope⟩, .dropped ⟨2, "node-a", bareEnvelope⟩,
            .sent 1 (stampCursor "cluster-a" bareEnvelope 1 ""),
            .queued ⟨3, "node-a", bareEnvelope⟩,
            .sent 3 (stampCursor "cluster-a" bareEnvelope 3 "")] } := by
    decide +kernel
  simp only [bind, Option.bind_eq_some_iff] at hvalues
  obtain ⟨world, hopened, s, hrun, hsub⟩ := hvalues
  refine ⟨world, s, _, hopened, hrun, hsub, ?_⟩
  intro h
  simp only [Subscriber.NoSilentGap, List.pairwise_cons] at h
  exact absurd (h.2.1 (.sent 3 (stampCursor "cluster-a" bareEnvelope 3 "")) (by simp) _ _ _
    rfl rfl (by decide)) (by decide)

def promptClient : List LiveEvent :=
  [.broadcast ⟨1, "node-a", bareEnvelope⟩, .receive, .broadcast ⟨2, "node-a", bareEnvelope⟩]

theorem noSilentGap_promptClient :
    ∃ final, run (Subscriber.liveStep "cluster-a") narrowSubscriber promptClient = some final ∧
      ∀ n t, run (Subscriber.liveStep "cluster-a") final (List.replicate n .receive) = some t →
        t.NoSilentGap := by
  obtain ⟨final, hrun⟩ : ∃ final,
      run (Subscriber.liveStep "cluster-a") narrowSubscriber promptClient = some final :=
    ⟨_, rfl⟩
  have hguarded : run (restrict Subscriber.leavesNoGap (Subscriber.liveStep "cluster-a"))
      narrowSubscriber promptClient =
        run (Subscriber.liveStep "cluster-a") narrowSubscriber promptClient := by
    decide +kernel
  exact ⟨final, hrun, (noSilentGap_iff rfl rfl hrun).1 (hguarded.trans hrun)⟩

end KloudlensAggregator.Aggregator
