import KloudlensAggregator.Aggregator.ReExport

/-!
# Resuming from a cursor

A client that reconnects with the last seq it has seen expects nothing up to it.
The replay starts behind the cursor, but the live tail only skips what the same
call has already sent.  So everything depends on the envelope that is in flight,
appended and not yet broadcast, when the new subscriber registers.
-/

namespace KloudlensAggregator.Aggregator

open KloudlensAggregator.Foundation
open KloudlensAggregator.Envwal

variable {pj : ProtoJson EventEnvelope} {aggregatorId : String}

/-! ## What keeps a subscriber behind its cursor -/

/-- Everything that can still reach the stream lies behind the cursor. -/
structure System.Resumed (s : System) (cursor : Cursor) (sub : Subscriber) : Prop where
  cursor_eq : sub.request.cursor = some cursor
  wal : ∃ w, s.wal = some w ∧ cursor.seq ≤ w.seq
  inflight : ∀ ev, s.inflight = some ev → sub.request.accepts ev.envelope = true →
    cursor.seq < ev.seq
  waiting : ∀ ev ∈ sub.ch, sub.request.accepts ev.envelope = true → cursor.seq < ev.seq
  reading : ∀ reader, sub.phase = .replaying reader → reader.fromSeq = cursor.seq
  sent : ∀ seq ∈ sub.sentSeqs, cursor.seq < seq

namespace System.Resumed

variable {s t : System} {cursor : Cursor} {sub : Subscriber}

private theorem keep (h : s.Resumed cursor sub) (hwriter : t.writer = s.writer)
    (hinflight : t.inflight = s.inflight) {next : Subscriber}
    (hrequest : next.request = sub.request) (hch : ∀ ev ∈ next.ch, ev ∈ sub.ch)
    (hreading : ∀ reader, next.phase = .replaying reader → reader.fromSeq = cursor.seq)
    (hsent : ∀ seq ∈ next.sentSeqs, cursor.seq < seq) : t.Resumed cursor next := by
  refine ⟨hrequest ▸ h.cursor_eq, ?_, ?_, ?_, hreading, hsent⟩
  · rw [System.wal, hwriter]
    exact h.wal
  · rw [hinflight, hrequest]
    exact h.inflight
  · rw [hrequest]
    exact fun ev hev => h.waiting ev (hch ev hev)

theorem offer (h : s.Resumed cursor sub) {ev : LiveEnvelope} (hev : s.inflight = some ev)
    (hwriter : t.writer = s.writer) (hinflight : t.inflight = none) :
    t.Resumed cursor (sub.offer ev) := by
  refine ⟨by simpa using h.cursor_eq, ?_, by simp [hinflight], ?_, ?_, ?_⟩
  · rw [System.wal, hwriter]
    exact h.wal
  · intro waiting hwaiting
    rw [Subscriber.offer_request]
    rcases Subscriber.mem_of_mem_offer hwaiting with hold | rfl
    · exact h.waiting waiting hold
    · exact h.inflight waiting hev
  · simpa using h.reading
  · simpa using h.sent

theorem send (h : s.Resumed cursor sub) {seq : Nat} (hseq : cursor.seq < seq)
    (env : EventEnvelope) : s.Resumed cursor (sub.send aggregatorId seq env) := by
  refine ⟨h.cursor_eq, h.wal, h.inflight, h.waiting, h.reading, ?_⟩
  rw [Subscriber.sentSeqs_send]
  intro seq' hseq'
  rcases List.mem_append.mp hseq' with hold | hnew
  · exact h.sent seq' hold
  · rw [List.mem_singleton.mp hnew]
    exact hseq

theorem snapshot (h : s.Resumed cursor sub) : s.Resumed cursor (sub.snapshot s.wal) := by
  obtain ⟨w, hwal, hle⟩ := h.wal
  simp only [Subscriber.snapshot, h.cursor_eq, hwal]
  refine h.keep rfl rfl rfl (fun ev hev => hev) ?_ h.sent
  rintro reader ⟨⟩
  rfl

theorem read (h : s.Resumed cursor sub) (pj : ProtoJson EventEnvelope)
    (aggregatorId : String) {reader : Reader}
    (hphase : sub.phase = .replaying reader) :
    s.Resumed cursor (sub.read pj aggregatorId s.dir reader) := by
  have hfrom := h.reading reader hphase
  unfold Subscriber.read
  split
  · exact h.keep rfl rfl rfl (fun ev hev => hev) (by simp) h.sent
  · exact h.keep rfl rfl rfl (fun ev hev => hev) (by simp) h.sent
  · have hnext : s.Resumed cursor
        { sub with phase := .replaying (reader.step pj s.dir).1 } := by
      refine h.keep rfl rfl rfl (fun ev hev => hev) ?_ h.sent
      rintro next ⟨⟩
      rw [Reader.step_fromSeq, hfrom]
    dsimp only
    split
    · exact hnext
    · rename_i e hentry
      unfold Subscriber.replayEntry
      split
      · exact hnext.send (hfrom ▸ Reader.fromSeq_lt_of_step hentry) _
      · exact hnext

theorem receive (h : s.Resumed cursor sub) (aggregatorId : String)
    (hphase : sub.phase = .live) {ev : LiveEnvelope} {rest : List LiveEnvelope}
    (hch : sub.ch = ev :: rest) :
    s.Resumed cursor (sub.receive aggregatorId ev rest) := by
  have hrest : s.Resumed cursor { sub with ch := rest } := by
    refine h.keep rfl rfl rfl ?_ (by simp [hphase]) h.sent
    exact fun ev' hev' => hch ▸ List.mem_cons_of_mem ev hev'
  simp only [Subscriber.receive]
  split
  · exact hrest
  · split
    · rename_i haccepts
      exact hrest.send (h.waiting ev (hch ▸ List.mem_cons_self) haccepts) _
    · exact hrest

theorem step (h : s.Resumed cursor sub) {event : SystemEvent} {k : Nat}
    (hk : s.subs[k]? = some sub) (hstep : s.loggedStep pj aggregatorId event = some t) :
    ∃ next, t.subs[k]? = some next ∧ t.Resumed cursor next := by
  obtain ⟨hsucceeds, hstep⟩ := restrict_eq_some.mp hstep
  obtain ⟨next, hnext, hadvance⟩ := System.advance_of_step hstep hk
  refine ⟨next, hnext, ?_⟩
  cases hadvance with
  | emit hidle hwriter hinflight =>
      -- A seq assigned from now on lies behind every seq the WAL has.
      obtain ⟨w, text, hwal, hopen, htext, rfl, hseq, hworld⟩ :=
        s.appendSucceeds_emit hsucceeds
      obtain ⟨w', hwal', hle⟩ := h.wal
      rw [hwal] at hwal'
      cases hwal'
      refine ⟨h.cursor_eq, ?_, ?_, h.waiting, h.reading, h.sent⟩
      · rw [System.wal, hwriter, hworld]
        refine ⟨_, rfl, ?_⟩
        rw [append_seq hopen _ htext]
        exact Nat.le_succ_of_le hle
      · rw [hinflight]
        rintro ev ⟨⟩ -
        rw [hseq]
        exact Nat.lt_succ_of_le hle
  | broadcast hev hwriter hinflight => exact h.offer hev hwriter hinflight
  | gc hwal hwriter hinflight =>
      obtain ⟨w', hwal', hle⟩ := h.wal
      rw [hwal] at hwal'
      cases hwal'
      refine ⟨h.cursor_eq, ?_, hinflight ▸ h.inflight, h.waiting, h.reading,
        h.sent⟩
      rw [System.wal, hwriter]
      exact ⟨_, rfl, hle⟩
  | other hwriter hinflight =>
      exact h.keep hwriter hinflight rfl (fun ev hev => hev) h.reading h.sent
  | snapshot hphase hwriter hinflight =>
      have hnext := h.snapshot
      exact hnext.keep hwriter hinflight rfl (fun ev hev => hev) hnext.reading hnext.sent
  | read hphase hwriter hinflight =>
      have hnext := h.read pj aggregatorId hphase
      exact hnext.keep hwriter hinflight rfl (fun ev hev => hev) hnext.reading hnext.sent
  | receive hphase hch hwriter hinflight =>
      have hnext := h.receive aggregatorId hphase hch
      exact hnext.keep hwriter hinflight rfl (fun ev hev => hev) hnext.reading hnext.sent
  | disconnect hwriter hinflight =>
      exact h.keep hwriter hinflight rfl (fun ev hev => hev) (by simp) h.sent

theorem run (h : s.Resumed cursor sub) {events : List SystemEvent} {k : Nat}
    (hk : s.subs[k]? = some sub)
    (hrun : Foundation.run (System.loggedStep pj aggregatorId) s events = some t) :
    ∃ next, t.subs[k]? = some next ∧ t.Resumed cursor next := by
  have hpreserved : ∀ (s' : System) (event : SystemEvent) (t' : System),
      (∃ sub, s'.subs[k]? = some sub ∧ s'.Resumed cursor sub) →
      s'.loggedStep pj aggregatorId event = some t' →
      ∃ next, t'.subs[k]? = some next ∧ t'.Resumed cursor next := by
    rintro s' event t' ⟨sub, hk, h⟩ hstep
    exact h.step hk hstep
  exact run_invariant (fun s' : System => ∃ sub, s'.subs[k]? = some sub ∧ s'.Resumed cursor sub)
    hpreserved ⟨sub, hk, h⟩ hrun

end System.Resumed

/-! ## A replay with nothing to send -/

private theorem subs_update {s : System} {k : Nat} {sub : Subscriber}
    (hk : s.subs[k]? = some sub) (next : Subscriber) :
    (s.update k next).subs[k]? = some next :=
  List.getElem?_set_self (List.getElem?_eq_some_iff.mp hk).1

private theorem step_read (pj : ProtoJson EventEnvelope) (aggregatorId : String) {s : System}
    {k : Nat} {sub : Subscriber} {reader : Reader} (hk : s.subs[k]? = some sub)
    (hphase : sub.phase = .replaying reader) :
    s.loggedStep pj aggregatorId (.read k) =
      some (s.update k (sub.read pj aggregatorId s.dir reader)) := by
  simp [System.loggedStep, restrict, System.appendSucceeds, System.step, hk, hphase]

private theorem run_reads_of_skipped (pj : ProtoJson EventEnvelope) (aggregatorId : String)
    {s : System} {k : Nat} {sub : Subscriber} {reader : Reader} (hk : s.subs[k]? = some sub)
    (hphase : sub.phase = .replaying reader)
    (hstatus : reader.status = .reading) (hpending : reader.pending = none)
    (hgap : reader.gap = false) (hskip : ∀ v ∈ reader.views, v.endSeq ≤ reader.fromSeq) :
    ∃ reads t, run (System.loggedStep pj aggregatorId) s reads = some t ∧
      t.subs[k]? = some { sub with phase := .live } ∧ t.inflight = s.inflight := by
  induction hviews : reader.views generalizing s sub reader with
  | nil =>
      have hreturned : reader.step pj s.dir = ({ reader with status := .returned none }, none) := by
        simp [Reader.step, Reader.openStep, hstatus, hpending, hviews, hgap]
      have hread : sub.read pj aggregatorId s.dir reader =
          { sub with phase := .replaying { reader with status := .returned none } } := by
        simp [Subscriber.read, hstatus, hreturned]
      have hfirst := step_read pj aggregatorId hk hphase
      rw [hread] at hfirst
      have hk' := subs_update hk
        { sub with phase := .replaying { reader with status := .returned none } }
      have hsecond := step_read pj aggregatorId hk' rfl
      refine ⟨[.read k, .read k], _, ?_, subs_update hk' { sub with phase := .live }, rfl⟩
      rw [run_cons_eq_some]
      exact ⟨_, hfirst, by rw [run_singleton, hsecond]; rfl⟩
  | cons v views ih =>
      have hfile : v.endSeq ≤ reader.fromSeq := hskip v (by simp [hviews])
      have hnext : reader.step pj s.dir = ({ reader with views := views }, none) := by
        simp [Reader.step, Reader.openStep, hstatus, hpending, hviews, hfile]
      have hread : sub.read pj aggregatorId s.dir reader =
          { sub with phase := .replaying { reader with views := views } } := by
        simp [Subscriber.read, hstatus, hnext]
      have hfirst := step_read pj aggregatorId hk hphase
      rw [hread] at hfirst
      have hk' := subs_update hk { sub with phase := .replaying { reader with views := views } }
      obtain ⟨reads, t, hrun, hsub, hinflight⟩ := ih hk' rfl hstatus hpending hgap
        (fun v' hv' => hskip v' (by simp only [hviews]; exact List.mem_cons_of_mem v hv')) rfl
      refine ⟨.read k :: reads, t, ?_, hsub, hinflight⟩
      rw [run_cons_eq_some]
      exact ⟨_, hfirst, hrun⟩

private theorem run_broadcast_receive (pj : ProtoJson EventEnvelope) (aggregatorId : String)
    {s : System} {k : Nat} {sub : Subscriber} {ev : LiveEnvelope} (hk : s.subs[k]? = some sub)
    (hphase : sub.phase = .live)
    (hch : sub.ch = []) (hcapacity : 0 < sub.capacity) (hlast : sub.lastSentSeq = 0)
    (hev : s.inflight = some ev) (hpos : 0 < ev.seq)
    (haccepts : sub.request.accepts ev.envelope = true) :
    ∃ t sub', run (System.loggedStep pj aggregatorId) s [.broadcast, .receive k] = some t ∧
      t.subs[k]? = some sub' ∧ ev.seq ∈ sub'.sentSeqs := by
  have hoffer : sub.offer ev =
      { sub with ch := [ev], history := sub.history ++ [.queued ev] } := by
    simp [Subscriber.offer, Subscriber.isRegistered, Subscriber.queue, hphase, hch, hcapacity]
  have hk' : (s.subs.map (Subscriber.offer ev))[k]? = some (sub.offer ev) := by simp [hk]
  have hfresh : ¬ ev.seq ≤ sub.lastSentSeq := by omega
  refine ⟨_, _, ?_, subs_update (s := { s with inflight := none, subs := _ }) hk'
    ((sub.offer ev).receive aggregatorId ev []), ?_⟩
  · rw [run_cons_eq_some]
    refine ⟨{ s with inflight := none, subs := s.subs.map (Subscriber.offer ev) }, ?_, ?_⟩
    · simp [System.loggedStep, restrict, System.appendSucceeds, System.step, hev]
    · rw [run_singleton]
      simp [System.loggedStep, restrict, System.appendSucceeds, System.step, hk, hoffer, hphase]
  · simp [hoffer, Subscriber.receive, hfresh, haccepts]

private theorem exists_resent (pj : ProtoJson EventEnvelope) (aggregatorId : String)
    {s : System} {k : Nat} {sub : Subscriber} {cursor : Cursor} {w : Wal} {ev : LiveEnvelope}
    (hk : s.subs[k]? = some sub) (hphase : sub.phase = .registered)
    (hcursor : sub.request.cursor = some cursor) (hwal : s.wal = some w)
    (hlive : w.cursorExpired cursor.seq = false)
    (hskip : ∀ v ∈ (w.snapshot cursor.seq).views, v.endSeq ≤ cursor.seq)
    (hch : sub.ch = []) (hcapacity : 0 < sub.capacity) (hlast : sub.lastSentSeq = 0)
    (hev : s.inflight = some ev) (hpos : 0 < ev.seq)
    (haccepts : sub.request.accepts ev.envelope = true) :
    ∃ after t sub', run (System.loggedStep pj aggregatorId) s after = some t ∧
      t.subs[k]? = some sub' ∧ ev.seq ∈ sub'.sentSeqs := by
  have hsnapshot : s.loggedStep pj aggregatorId (.snapshot k) =
      some (s.update k { sub with phase := .replaying (w.snapshot cursor.seq) }) := by
    simp [System.loggedStep, restrict, System.appendSucceeds, System.step, hk, hphase,
      Subscriber.snapshot, hcursor, hwal]
  obtain ⟨reads, live, hreads, hsub, hinflight⟩ := run_reads_of_skipped pj aggregatorId
    (subs_update hk { sub with phase := .replaying (w.snapshot cursor.seq) }) rfl
    (by simp [Wal.snapshot, hlive]) rfl rfl hskip
  obtain ⟨t, sub', hend, ht, hsent⟩ := run_broadcast_receive pj aggregatorId hsub rfl hch
    hcapacity hlast (hinflight.trans hev) hpos haccepts
  refine ⟨.snapshot k :: (reads ++ [.broadcast, .receive k]), t, sub', ?_, ht, hsent⟩
  rw [run_cons_eq_some]
  refine ⟨_, hsnapshot, ?_⟩
  rw [run_append_eq_some]
  exact ⟨live, hreads, hend⟩

/-! ## The theorem -/

/-- In a Subscribe whose cursor the WAL has reached, nothing up to the cursor is
ever sent exactly when no envelope up to the cursor that the subscription
accepts is in flight at its registration. -/
theorem resumed_behind_cursor_iff {now : Int} {opened : List (Event EventEnvelope)}
    {world : World EventEnvelope}
    (hopened : run (World.safeStep pj) (World.empty now) opened = some world)
    {before : List SystemEvent} {s : System}
    (hbefore : run (System.loggedStep pj aggregatorId) (System.start world) before = some s)
    {w : Wal} (hwal : s.wal = some w) (hbound : w.lastSeq + 1 < 2 ^ 64)
    {request : SubscribeRequest} {cursor : Cursor} (hcursor : request.cursor = some cursor)
    (hreached : cursor.seq ≤ w.lastSeq) (buf : Int) :
    (∀ after t sub, run (System.loggedStep pj aggregatorId) s
        (.subscribe request buf :: after) = some t →
      t.subs[s.subs.length]? = some sub → ∀ seq ∈ sub.sentSeqs, cursor.seq < seq) ↔
    ∀ ev, s.inflight = some ev → request.accepts ev.envelope = true → cursor.seq < ev.seq := by
  have hsubscribe : s.loggedStep pj aggregatorId (.subscribe request buf) =
      some { s with subs := s.subs ++ [registerSubscriber request buf] } := by
    simp [System.loggedStep, restrict, System.appendSucceeds, System.step]
  have hregistered : (s.subs ++ [registerSubscriber request buf])[s.subs.length]? =
      some (registerSubscriber request buf) := by simp
  constructor
  · intro hnever ev hev haccepts
    by_contra hcovered
    -- The cursor is the last seq of the WAL, so the replay skips every file.
    obtain ⟨log, hkeeps, -, -⟩ := run_keeps hopened
    obtain ⟨log', hlogged⟩ := (System.Logged.start hkeeps).run hbefore
    have hlayout := hlogged.keeps.layout w hwal
    obtain ⟨hseq, hpos⟩ := hlogged.inflight_seq hev hwal
    unfold Wal.lastSeq at hreached hbound
    have hlast : cursor.seq = w.seq := by omega
    have hlive : w.cursorExpired cursor.seq = false := hlast ▸ hlayout.seq_not_expired hbound
    have hskip : ∀ v ∈ (w.snapshot cursor.seq).views, v.endSeq ≤ cursor.seq := by
      intro v hv
      exact hlast ▸ hlayout.view_endSeq_le hv
    obtain ⟨after, t, sub, hrun, ht, hsent⟩ := exists_resent pj aggregatorId
      (s := { s with subs := s.subs ++ [registerSubscriber request buf] }) hregistered rfl
      hcursor hwal hlive hskip rfl (Subscriber.capacity_pos request buf) rfl hev (by omega)
      haccepts
    refine hcovered (hnever after t sub ?_ ht ev.seq hsent)
    rw [run_cons_eq_some]
    exact ⟨_, hsubscribe, hrun⟩
  · intro hbehind after t sub hrun ht
    obtain ⟨next, hnext, hafter⟩ := run_cons_eq_some.mp hrun
    rw [hsubscribe] at hnext
    cases hnext
    have hresumed : { s with subs := s.subs ++ [registerSubscriber request buf] }.Resumed
        cursor (registerSubscriber request buf) :=
      ⟨hcursor, ⟨w, hwal, hreached⟩, hbehind, by simp [registerSubscriber],
        by simp [registerSubscriber],
        by simp [registerSubscriber, Subscriber.sentSeqs, Subscriber.sent]⟩
    obtain ⟨final, hfinal, hdone⟩ := hresumed.run hregistered hafter
    rw [ht] at hfinal
    cases hfinal
    exact hdone.sent

/-! ## A client that reconnects too early, and one that does not -/

def firstVisit : List SystemEvent :=
  [.emit "node-a" bareEnvelope ⟨1, 1, 1⟩ .none, .subscribe (fromCursor 0) 0, .snapshot 0,
    .read 0, .read 0, .disconnect 0]

def secondVisit : List SystemEvent :=
  [.snapshot 1, .read 1, .read 1, .read 1, .broadcast, .receive 1]

def resumeScenario (visit after : List SystemEvent) :
    Option (World EventEnvelope × System × Wal × System × Subscriber × Subscriber) := do
  let world ← run (World.safeStep sampleMessages) (World.empty 0)
    [.openLog ⟨"wal", 0, 1000, 10⟩ 0]
  let s ← run (System.loggedStep sampleMessages "cluster-a") (System.start world) visit
  let w ← s.wal
  let t ← run (System.loggedStep sampleMessages "cluster-a") s
    (.subscribe (fromCursor 1) 0 :: after)
  let first ← t.subs[0]?
  let second ← t.subs[1]?
  some (world, s, w, t, first, second)

theorem resumeScenario_resent :
    ∃ world s w t first second,
      run (World.safeStep sampleMessages) (World.empty 0)
        [.openLog ⟨"wal", 0, 1000, 10⟩ 0] = some world ∧
      run (System.loggedStep sampleMessages "cluster-a") (System.start world) firstVisit =
        some s ∧
      s.wal = some w ∧ 1 ≤ w.lastSeq ∧
      run (System.loggedStep sampleMessages "cluster-a") s
        (.subscribe (fromCursor 1) 0 :: secondVisit) = some t ∧
      t.subs[0]? = some first ∧ 1 ∈ first.sentSeqs ∧
      t.subs[1]? = some second ∧ ¬ ∀ seq ∈ second.sentSeqs, 1 < seq := by
  have hvalues : (resumeScenario firstVisit secondVisit).map
      (fun (_, _, w, _, first, second) => (w.lastSeq, first.sentSeqs, second.sentSeqs)) =
      some (1, [1], [1]) := by
    decide +kernel
  obtain ⟨⟨world, s, w, t, first, second⟩, hscenario, hvalues⟩ :=
    Option.map_eq_some_iff.mp hvalues
  simp only [Prod.mk.injEq] at hvalues
  simp only [resumeScenario, bind, Option.bind_eq_some_iff] at hscenario
  obtain ⟨world', hopened, s', hvisit, w', hwal, t', hafter, first', hfirst, second', hsecond,
    heq⟩ := hscenario
  cases heq
  refine ⟨world, s, w, t, first, second, hopened, hvisit, hwal, ?_, hafter, hfirst, ?_,
    hsecond, ?_⟩
  · rw [hvalues.1]
  · rw [hvalues.2.1]
    decide
  · rw [hvalues.2.2]
    decide

theorem resumed_behind_cursor_broadcast :
    ∃ world s w t first second,
      resumeScenario (firstVisit ++ [.broadcast]) (secondVisit.take 4) =
        some (world, s, w, t, first, second) ∧
      ∀ after t sub, run (System.loggedStep sampleMessages "cluster-a") s
          (.subscribe (fromCursor 1) 0 :: after) = some t →
        t.subs[s.subs.length]? = some sub → ∀ seq ∈ sub.sentSeqs, 1 < seq := by
  have hvalues : (resumeScenario (firstVisit ++ [.broadcast]) (secondVisit.take 4)).map
      (fun (_, s, w, _) => (w.lastSeq, s.inflight)) = some (1, none) := by
    decide +kernel
  obtain ⟨⟨world, s, w, t, first, second⟩, hscenario, hvalues⟩ :=
    Option.map_eq_some_iff.mp hvalues
  simp only [Prod.mk.injEq] at hvalues
  refine ⟨world, s, w, t, first, second, hscenario, ?_⟩
  simp only [resumeScenario, bind, Option.bind_eq_some_iff] at hscenario
  obtain ⟨world', hopened, s', hvisit, w', hwal, t', hafter, first', hfirst, second', hsecond,
    heq⟩ := hscenario
  cases heq
  have hcursor : (fromCursor 1).cursor = some ⟨"cluster-a", "", 1⟩ := rfl
  exact (resumed_behind_cursor_iff hopened hvisit hwal (by rw [hvalues.1]; decide) hcursor
    (Nat.le_of_eq hvalues.1.symm) 0).mpr (by simp [hvalues.2])

end KloudlensAggregator.Aggregator
