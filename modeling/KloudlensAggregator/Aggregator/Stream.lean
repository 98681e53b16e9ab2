import KloudlensAggregator.Aggregator.Handoff

/-!
# A stream is a stretch of the log

What a `Subscribe` call should send is easily said: the entries of the log from
where the client starts, those its request accepts, stamped.  The code sends a
replay of the files first and the channel after it, while `Append`, the
broadcasts and GC go on.  This module proves that what it sends is such a stretch
all the same: as long as no broadcast finds the channel full, whatever the order
of the steps, and even where GC removes files under the replay, unless the call
fails for it.
-/

namespace KloudlensAggregator.Aggregator

open KloudlensAggregator.Foundation
open KloudlensAggregator.Envwal

variable {pj : ProtoJson EventEnvelope} {aggregatorId : String} {s t : System}
  {log : List (Entry EventEnvelope)} {w : Wal} {upTo first bound : Nat} {sub : Subscriber}

/-! ## The system with GC -/

def System.clockAdvances (s : System) : SystemEvent → Bool
  | .emit _ _ clock _ => clock.nondecreasing s.writer.world.now
  | .gc now => s.writer.world.now ≤ now
  | _ => true

/-- The steps of a run without Append failure under a clock that does not run backwards. -/
def System.timedStep (pj : ProtoJson EventEnvelope) (aggregatorId : String) :
    System → SystemEvent → Option System :=
  restrict System.clockAdvances (System.loggedStep pj aggregatorId)

def System.journal (s : System) : List (Entry EventEnvelope) :=
  match s.wal with
  | none => []
  | some w => s.writer.world.journal w

def System.broadcastSeq (s : System) : Nat :=
  match s.inflight with
  | none => s.journal.length
  | some ev => ev.seq - 1

/-- Behind which seq a request that registers now starts: behind its cursor, and without
one behind what was broadcast. -/
def System.startOf (s : System) (request : SubscribeRequest) : Nat :=
  match request.cursor with
  | some cursor => cursor.seq
  | none => s.broadcastSeq

/-- `System.Writes` for a log that GC trims. -/
structure System.Records (pj : ProtoJson EventEnvelope) (s : System) (w : Wal)
    (log : List (Entry EventEnvelope)) (upTo : Nat) : Prop where
  retained : s.writer.world.Retained pj log
  wal : s.wal = some w
  idle : s.inflight = none → upTo = log.length
  inflight : ∀ ev, s.inflight = some ev →
    log.length = upTo + 1 ∧ ∃ e, log[upTo]? = some e ∧ liveOf e = ev

namespace System.Records

theorem layout (h : s.Records pj w log upTo) : Layout pj s.writer.world.dir w log :=
  h.retained.keeps.layout w h.wal

theorem dense (h : s.Records pj w log upTo) : Dense pj log := h.layout.dense

theorem contiguous (h : s.Records pj w log upTo) : Contiguous w.segments := by
  rw [← World.segments_of_wal h.wal]
  exact h.retained.contiguous

theorem upTo_le (h : s.Records pj w log upTo) : upTo ≤ log.length := by
  cases hinflight : s.inflight with
  | none => exact Nat.le_of_eq (h.idle hinflight)
  | some ev =>
      have := (h.inflight ev hinflight).1
      omega

theorem journal_eq (h : s.Records pj w log upTo) : s.journal = log := by
  unfold System.journal
  rw [h.wal]
  exact h.retained.journal_eq h.wal

theorem broadcastSeq_eq (h : s.Records pj w log upTo) : s.broadcastSeq = upTo := by
  unfold System.broadcastSeq
  cases hinflight : s.inflight with
  | none => exact (congrArg List.length h.journal_eq).trans (h.idle hinflight).symm
  | some ev =>
      obtain ⟨-, e, hget, rfl⟩ := h.inflight ev hinflight
      have := h.dense.seq hget
      change e.seq - 1 = upTo
      omega

theorem congr (h : s.Records pj w log upTo) (hwriter : t.writer = s.writer)
    (hinflight : t.inflight = s.inflight) : t.Records pj w log upTo := by
  refine ⟨hwriter ▸ h.retained, ?_, hinflight ▸ h.idle, hinflight ▸ h.inflight⟩
  rw [System.wal, hwriter]
  exact h.wal

theorem emit (h : s.Records pj w log upTo) (hidle : s.inflight = none)
    {agent : String} {env : EventEnvelope} {clock : AppendClock} {text : Bytes}
    (hopen : w.curOpen = true) (htext : pj.marshal env = some text)
    (hclock : clock.nondecreasing s.writer.world.now = true)
    (hworld : t.writer.world = s.writer.world.append pj w agent (some env) clock .none)
    (hinflight : t.inflight = some ⟨w.seq + 1, agent, env⟩) :
    t.Records pj (w.append pj s.writer.world.dir agent (some env) clock .none).2.1
      (log ++ [⟨w.seq + 1, agent, env, clock.ts⟩]) upTo := by
  have hupTo := h.idle hidle
  refine ⟨?_, ?_, by simp [hinflight], ?_⟩
  · rw [hworld]
    exact h.retained.append h.wal hopen agent htext hclock
  · rw [System.wal, hworld]
    rfl
  · rw [hinflight]
    rintro ev ⟨⟩
    refine ⟨by simp [hupTo], ⟨w.seq + 1, agent, env, clock.ts⟩, ?_, rfl⟩
    rw [hupTo, List.getElem?_concat_length]

theorem broadcast (h : s.Records pj w log upTo) {ev : LiveEnvelope}
    (hev : s.inflight = some ev) (hwriter : t.writer = s.writer)
    (hinflight : t.inflight = none) : t.Records pj w log (upTo + 1) := by
  refine ⟨hwriter ▸ h.retained, ?_, fun _ => (h.inflight ev hev).1.symm, by simp [hinflight]⟩
  rw [System.wal, hwriter]
  exact h.wal

theorem gc (h : s.Records pj w log upTo) {now : Int} (hnow : s.writer.world.now ≤ now)
    (hworld : t.writer.world = s.writer.world.gc w now) (hinflight : t.inflight = s.inflight) :
    t.Records pj (w.gc s.writer.world.dir now).1 log upTo := by
  refine ⟨?_, ?_, hinflight ▸ h.idle, hinflight ▸ h.inflight⟩
  · rw [hworld]
    exact h.retained.gc h.wal hnow
  · rw [System.wal, hworld]
    rfl

theorem step (h : s.Records pj w log upTo) {event : SystemEvent}
    (hstep : s.timedStep pj aggregatorId event = some t) :
    ∃ w' log' upTo', t.Records pj w' log' upTo' := by
  obtain ⟨hclock, hstep⟩ := restrict_eq_some.mp hstep
  obtain ⟨hsucceeds, hstep⟩ := restrict_eq_some.mp hstep
  have hwriter := System.writerStep_of_step hstep
  obtain ⟨writer, inflight, subs⟩ := t
  cases hwriter with
  | emit hidle =>
      obtain ⟨w', text, hwal, hopen, htext, rfl, hseq, hworld⟩ := s.appendSucceeds_emit hsucceeds
      rw [h.wal] at hwal
      cases hwal
      exact ⟨_, _, _, h.emit hidle hopen htext hclock hworld (by simp only [hseq])⟩
  | broadcast hev => exact ⟨_, _, _, h.broadcast hev rfl rfl⟩
  | gc hwal =>
      rw [h.wal] at hwal
      cases hwal
      exact ⟨_, _, _, h.gc (of_decide_eq_true hclock) rfl rfl⟩
  | idle => exact ⟨_, _, _, h.congr rfl rfl⟩

end System.Records

/-! ## Stretches -/

/-- The stream is what a replay of the log from `first` to `bound` would send. -/
structure Subscriber.Stretch (aggregatorId : String) (log : List (Entry EventEnvelope))
    (sub : Subscriber) (first bound : Nat) : Prop where
  bound_le : bound ≤ log.length
  sent : sub.sent = sub.request.replayOf aggregatorId (slice log first bound)
  last : sub.lastSentSeq = sub.sentSeqs.getLast?.getD 0

namespace Subscriber.Stretch

theorem of_nothing (hsent : sub.sent = []) (hlast : sub.lastSentSeq = 0)
    (hbound : bound ≤ first) (hlength : bound ≤ log.length) :
    sub.Stretch aggregatorId log first bound := by
  refine ⟨hlength, ?_, ?_⟩
  · rw [hsent, slice_eq_nil log hbound]
    rfl
  · rw [Subscriber.sentSeqs, hsent, hlast]
    rfl

theorem congr (h : sub.Stretch aggregatorId log first bound) {next : Subscriber}
    (hrequest : next.request = sub.request) (hsent : next.sent = sub.sent)
    (hlast : next.lastSentSeq = sub.lastSentSeq) : next.Stretch aggregatorId log first bound := by
  refine ⟨h.bound_le, ?_, ?_⟩
  · rw [hsent, hrequest]
    exact h.sent
  · rw [Subscriber.sentSeqs, hsent, hlast]
    exact h.last

theorem append (h : sub.Stretch aggregatorId log first bound) (more : List (Entry EventEnvelope)) :
    sub.Stretch aggregatorId (log ++ more) first bound := by
  refine ⟨?_, ?_, h.last⟩
  · rw [List.length_append]
    exact Nat.le_add_right_of_le h.bound_le
  · rw [slice_append_left log more h.bound_le]
    exact h.sent

theorem sentSeqs_eq (h : sub.Stretch aggregatorId log first bound) :
    sub.sentSeqs = ((slice log first bound).filter fun e =>
      sub.request.accepts e.envelope).map Entry.seq := by
  rw [Subscriber.sentSeqs, h.sent, SubscribeRequest.replayOf, List.map_map]
  rfl

theorem increasing (h : sub.Stretch aggregatorId log first bound) (hdense : Dense pj log) :
    sub.sentSeqs.Pairwise (· < ·) := by
  have hall : ((slice log first bound).map Entry.seq).Pairwise (· < ·) := by
    rw [hdense.map_seq_slice h.bound_le]
    exact List.pairwise_lt_range' 1
  rw [h.sentSeqs_eq]
  exact hall.sublist (List.filter_sublist.map Entry.seq)

theorem last_le (h : sub.Stretch aggregatorId log first bound) (hdense : Dense pj log) :
    sub.lastSentSeq ≤ bound := by
  rw [h.last]
  cases hlast : sub.sentSeqs.getLast? with
  | none => exact Nat.zero_le _
  | some last =>
      have hmem := List.mem_of_getLast? hlast
      rw [h.sentSeqs_eq] at hmem
      obtain ⟨e, he, rfl⟩ := List.mem_map.mp hmem
      obtain ⟨i, -, hi, hget⟩ := mem_slice.mp (List.mem_filter.mp he).1
      have := hdense.seq hget
      change e.seq ≤ bound
      omega

theorem le_last (h : sub.Stretch aggregatorId log first bound) (hdense : Dense pj log)
    {start : Nat} {e : Entry EventEnvelope} (hget : log[start]? = some e) (hfirst : first ≤ start)
    (hbound : start < bound) (haccepts : sub.request.accepts e.envelope = true) :
    e.seq ≤ sub.lastSentSeq := by
  rw [h.last]
  apply le_getLast?_getD (h.increasing hdense)
  rw [h.sentSeqs_eq]
  refine List.mem_map.mpr ⟨e, List.mem_filter.mpr ⟨?_, haccepts⟩, rfl⟩
  exact mem_slice.mpr ⟨start, hfirst, hbound, hget⟩

theorem send (h : sub.Stretch aggregatorId log first bound) {e : Entry EventEnvelope}
    (hfirst : first ≤ bound) (hget : log[bound]? = some e)
    (haccepts : sub.request.accepts e.envelope = true) :
    (sub.send aggregatorId e.seq e.envelope).Stretch aggregatorId log first (bound + 1) := by
  refine ⟨(List.getElem?_eq_some_iff.mp hget).1, ?_, ?_⟩
  · rw [Subscriber.sent_send, h.sent, slice_succ hfirst hget]
    exact (SubscribeRequest.replayOf_concat_of_accepts _ haccepts).symm
  · rw [Subscriber.sentSeqs_send, List.getLast?_concat]
    rfl

theorem pass (h : sub.Stretch aggregatorId log first bound) {e : Entry EventEnvelope}
    (hfirst : first ≤ bound) (hget : log[bound]? = some e)
    (hrefuses : ¬ sub.request.accepts e.envelope = true) :
    sub.Stretch aggregatorId log first (bound + 1) := by
  refine ⟨(List.getElem?_eq_some_iff.mp hget).1, ?_, h.last⟩
  rw [h.sent, slice_succ hfirst hget]
  exact (SubscribeRequest.replayOf_concat_of_refuses _ hrefuses).symm

theorem receive (h : sub.Stretch aggregatorId log first bound) (hdense : Dense pj log)
    {start : Nat} {e : Entry EventEnvelope} (hfirst : first ≤ start) (hstart : start ≤ bound)
    (hget : log[start]? = some e) (rest : List LiveEnvelope) :
    ∃ bound', start + 1 ≤ bound' ∧
      (sub.receive aggregatorId (liveOf e) rest).Stretch aggregatorId log first bound' := by
  have hseq := hdense.seq hget
  have hrest : { sub with ch := rest }.Stretch aggregatorId log first bound := h.congr rfl rfl rfl
  simp only [Subscriber.receive]
  split
  · rename_i hsent
    have := h.last_le hdense
    change e.seq ≤ sub.lastSentSeq at hsent
    exact ⟨bound, by omega, hrest⟩
  · rename_i hfresh
    change ¬ e.seq ≤ sub.lastSentSeq at hfresh
    split
    · rename_i haccepts
      have hend : start = bound := by
        by_contra hne
        exact hfresh (h.le_last hdense hget hfirst (by omega) haccepts)
      subst hend
      exact ⟨start + 1, Nat.le_refl _, hrest.send hfirst hget haccepts⟩
    · rename_i hrefuses
      by_cases hend : start = bound
      · subst hend
        exact ⟨start + 1, Nat.le_refl _, hrest.pass hfirst hget hrefuses⟩
      · exact ⟨bound, by omega, hrest⟩

theorem of_progress {reader : Reader} {target pos : Nat} {tracks : List (Segment × Bool)}
    {delivered : List (Entry EventEnvelope)}
    (h : reader.Progress pj log target first tracks delivered pos)
    (hsent : sub.sent = sub.request.replayOf aggregatorId delivered)
    (hlast : sub.lastSentSeq = sub.sentSeqs.getLast?.getD 0) :
    sub.Stretch aggregatorId log first pos :=
  ⟨h.pos_le, h.delivered_eq ▸ hsent, hlast⟩

end Subscriber.Stretch

/-! ## The phases of a call -/

/-- A `Subscribe` call that starts behind `first`, phase by phase. -/
inductive Subscriber.Streams (pj : ProtoJson EventEnvelope) (aggregatorId : String)
    (world : World EventEnvelope) (w : Wal) (log : List (Entry EventEnvelope)) (upTo first : Nat)
    (sub : Subscriber) : Prop
  | registered {joined : Nat} (hphase : sub.phase = .registered)
      (hwaits : sub.Waits log upTo joined) (hfirst : first ≤ joined)
      (htail : sub.request.cursor = none → first = joined)
      (hcursor : ∀ cursor, sub.request.cursor = some cursor → first = cursor.seq)
      (hsent : sub.sent = []) (hlast : sub.lastSentSeq = 0)
  | replaying {reader : Reader} {joined target : Nat} {tracks : List (Segment × Bool)}
      {delivered : List (Entry EventEnvelope)} (hphase : sub.phase = .replaying reader)
      (hwaits : sub.Waits log upTo joined) (hfirst : first ≤ joined) (hreach : joined ≤ target)
      (hfrom : reader.fromSeq = first)
      (hfollows : reader.Follows pj world w log target first tracks delivered)
      (hsent : sub.sent = sub.request.replayOf aggregatorId delivered)
      (hlast : sub.lastSentSeq = sub.sentSeqs.getLast?.getD 0)
  | expired {reader : Reader} {err : ReadError} (hphase : sub.phase = .replaying reader)
      (hstatus : reader.status = .returned (some err)) (hsent : sub.sent = [])
      (hlast : sub.lastSentSeq = 0)
  | live {start bound : Nat} (hphase : sub.phase = .live) (hwaits : sub.Waits log upTo start)
      (hfirst : first ≤ start) (hstart : start ≤ bound)
      (hstretch : sub.Stretch aggregatorId log first bound)
  | returned {bound : Nat} (hphase : sub.phase = .returned)
      (hstretch : sub.Stretch aggregatorId log first bound)
  /-- Entries the call should send are trimmed, and it has failed for it or asked for
  whatever there is. -/
  | lost (htrimmed : ∃ d ∈ world.trimmed, first < d.seq)
      (hend : sub.phase = .returned ∨ ∃ cursor, sub.request.cursor = some cursor ∧ cursor.seq = 0)

@[simp] theorem Subscriber.snapshot_request (wal : Option Wal) (sub : Subscriber) :
    (sub.snapshot wal).request = sub.request := by
  unfold Subscriber.snapshot
  split <;> rfl

@[simp] theorem Subscriber.read_request (dir : Directory) (reader : Reader) (sub : Subscriber) :
    (sub.read pj aggregatorId dir reader).request = sub.request := by
  unfold Subscriber.read
  split
  · rfl
  · rfl
  · dsimp only
    split
    · rfl
    · unfold Subscriber.replayEntry
      split <;> rfl

theorem Subscriber.receive_frame (aggregatorId : String) (ev : LiveEnvelope)
    (rest : List LiveEnvelope) (sub : Subscriber) :
    (sub.receive aggregatorId ev rest).request = sub.request ∧
      (sub.receive aggregatorId ev rest).phase = sub.phase ∧
      (sub.receive aggregatorId ev rest).ch = rest := by
  simp only [Subscriber.receive]
  split
  · exact ⟨rfl, rfl, rfl⟩
  · split <;> exact ⟨rfl, rfl, rfl⟩

namespace Subscriber.Streams

/-- Nothing behind the call's start is trimmed, or it has come through its replay all the
same, which began behind its cursor. -/
def Intact (world : World EventEnvelope) (first : Nat) (sub : Subscriber) : Prop :=
  (∀ d ∈ world.trimmed, d.seq ≤ first) ∨
    (sub.phase = .live ∧ ∀ cursor, sub.request.cursor = some cursor → 0 < cursor.seq)

theorem stretch {world : World EventEnvelope}
    (h : sub.Streams pj aggregatorId world w log upTo first) (hupTo : upTo ≤ log.length)
    (hintact : Intact world first sub) :
    ∃ bound, sub.Stretch aggregatorId log first bound ∧
      (sub.phase = .live → sub.ch = [] → upTo ≤ bound) := by
  cases h with
  | registered hphase hwaits hfirst htail hcursor hsent hlast =>
      exact ⟨0, .of_nothing hsent hlast (Nat.zero_le _) (Nat.zero_le _), by simp [hphase]⟩
  | @replaying reader _ _ _ _ hphase hwaits hfirst hreach hfrom hfollows hsent hlast =>
      have hkept : ¬ ∃ d ∈ world.trimmed, reader.fromSeq < d.seq := by
        rintro ⟨d, hd, hlt⟩
        rcases hintact with hkept | ⟨hlive, -⟩
        · exact Nat.not_le_of_lt hlt (hfrom ▸ hkept d hd)
        · simp [hphase] at hlive
      obtain ⟨pos, hprogress⟩ := hfollows.progress
        (Bool.eq_false_iff.mpr fun h => hkept (hfollows.gap h))
        fun err h => hkept (hfollows.failed err h).2
      exact ⟨pos, .of_progress hprogress hsent hlast, by simp [hphase]⟩
  | expired hphase hstatus hsent hlast =>
      exact ⟨0, .of_nothing hsent hlast (Nat.zero_le _) (Nat.zero_le _), by simp [hphase]⟩
  | @live start bound hphase hwaits hfirst hstart hstretch =>
      refine ⟨bound, hstretch, fun _ hch => ?_⟩
      by_contra hlt
      have hget := List.getElem?_eq_getElem (show start < log.length by omega)
      have hwaiting := hwaits.2
      rw [slice_eq_cons (by omega) hget, hch] at hwaiting
      cases hwaiting
  | returned hphase hstretch => exact ⟨_, hstretch, by simp [hphase]⟩
  | lost htrimmed hend =>
      obtain ⟨d, hd, hlt⟩ := htrimmed
      rcases hintact with hkept | ⟨hlive, hcursor⟩
      · exact absurd hlt (Nat.not_lt_of_le (hkept d hd))
      · rcases hend with hreturned | ⟨cursor, hrequest, hzero⟩
        · simp [hlive] at hreturned
        · have := hcursor cursor hrequest
          omega

theorem append {world : World EventEnvelope}
    (h : sub.Streams pj aggregatorId world w log upTo first) (hlayout : Layout pj world.dir w log)
    (hupTo : upTo ≤ log.length) (hopen : w.curOpen = true) (agent : String)
    {env : EventEnvelope} {text : Bytes} (htext : pj.marshal env = some text)
    (clock : AppendClock) :
    sub.Streams pj aggregatorId (world.append pj w agent (some env) clock .none)
      (w.append pj world.dir agent (some env) clock .none).2.1
      (log ++ [⟨w.seq + 1, agent, env, clock.ts⟩]) upTo first := by
  have hwaits' : ∀ {start}, sub.Waits log upTo start →
      sub.Waits (log ++ [⟨w.seq + 1, agent, env, clock.ts⟩]) upTo start := by
    intro start hwaits
    refine ⟨hwaits.1, ?_⟩
    rw [slice_append_left log _ hupTo]
    exact hwaits.2
  cases h with
  | registered hphase hwaits hfirst htail hcursor hsent hlast =>
      exact .registered hphase (hwaits' hwaits) hfirst htail hcursor hsent hlast
  | replaying hphase hwaits hfirst hreach hfrom hfollows hsent hlast =>
      exact .replaying hphase (hwaits' hwaits) hfirst hreach hfrom
        (hfollows.append hlayout hopen agent htext clock) hsent hlast
  | expired hphase hstatus hsent hlast => exact .expired hphase hstatus hsent hlast
  | live hphase hwaits hfirst hstart hstretch =>
      exact .live hphase (hwaits' hwaits) hfirst hstart (hstretch.append _)
  | returned hphase hstretch => exact .returned hphase (hstretch.append _)
  | lost htrimmed hend => exact .lost htrimmed hend

theorem gc {world : World EventEnvelope}
    (h : sub.Streams pj aggregatorId world w log upTo first) (hlayout : Layout pj world.dir w log)
    (now : Int) :
    sub.Streams pj aggregatorId (world.gc w now) (w.gc world.dir now).1 log upTo first := by
  cases h with
  | registered hphase hwaits hfirst htail hcursor hsent hlast =>
      exact .registered hphase hwaits hfirst htail hcursor hsent hlast
  | replaying hphase hwaits hfirst hreach hfrom hfollows hsent hlast =>
      exact .replaying hphase hwaits hfirst hreach hfrom (hfollows.gc hlayout now) hsent hlast
  | expired hphase hstatus hsent hlast => exact .expired hphase hstatus hsent hlast
  | live hphase hwaits hfirst hstart hstretch => exact .live hphase hwaits hfirst hstart hstretch
  | returned hphase hstretch => exact .returned hphase hstretch
  | lost htrimmed hend =>
      obtain ⟨d, hd, hlt⟩ := htrimmed
      exact .lost ⟨d, List.mem_append_left _ hd, hlt⟩ hend

theorem offer {world : World EventEnvelope}
    (h : sub.Streams pj aggregatorId world w log upTo first) {e : Entry EventEnvelope}
    (hget : log[upTo]? = some e) (hdrops : (sub.offer (liveOf e)).drops = 0) :
    (sub.offer (liveOf e)).Streams pj aggregatorId world w log (upTo + 1) first := by
  rcases sub.offer_cases (liveOf e) with ⟨heq, hreturned⟩ | ⟨heq, -⟩ | ⟨heq, -⟩
  · rw [heq]
    cases h with
    | returned hphase hstretch => exact .returned hphase hstretch
    | lost htrimmed hend => exact .lost htrimmed hend
    | registered hphase => simp [hphase] at hreturned
    | replaying hphase => simp [hphase] at hreturned
    | expired hphase => simp [hphase] at hreturned
    | live hphase => simp [hphase] at hreturned
  · have hsame : (sub.queue (liveOf e)).sent = sub.sent := by
      rw [← heq]
      exact sub.sent_offer (liveOf e)
    have hwaits' : ∀ {start}, sub.Waits log upTo start →
        (sub.queue (liveOf e)).Waits log (upTo + 1) start := by
      rintro start ⟨hstart, hch⟩
      refine ⟨Nat.le_succ_of_le hstart, ?_⟩
      rw [slice_succ hstart hget, List.map_append, ← hch]
      rfl
    rw [heq]
    cases h with
    | registered hphase hwaits hfirst htail hcursor hsent hlast =>
        exact .registered hphase (hwaits' hwaits) hfirst htail hcursor (hsame.trans hsent) hlast
    | replaying hphase hwaits hfirst hreach hfrom hfollows hsent hlast =>
        refine .replaying hphase (hwaits' hwaits) hfirst hreach hfrom hfollows
          (hsame.trans hsent) ?_
        rw [sentSeqs, hsame]
        exact hlast
    | expired hphase hstatus hsent hlast =>
        exact .expired hphase hstatus (hsame.trans hsent) hlast
    | live hphase hwaits hfirst hstart hstretch =>
        exact .live hphase (hwaits' hwaits) hfirst hstart (hstretch.congr rfl hsame rfl)
    | returned hphase hstretch => exact .returned hphase (hstretch.congr rfl hsame rfl)
    | lost htrimmed hend => exact .lost htrimmed hend
  · rw [heq] at hdrops
    cases hdrops

theorem snapshot (hrecords : s.Records pj w log upTo)
    (h : sub.Streams pj aggregatorId s.writer.world w log upTo first)
    (hphase : sub.phase = .registered) :
    (sub.snapshot s.wal).Streams pj aggregatorId s.writer.world w log upTo first := by
  -- The call takes its snapshot of the WAL. Only a replay from 0 begins behind its cursor,
  -- with what GC has left.
  cases h with
  | @registered joined _ hwaits hfirst htail hcursor hsent hlast =>
      have hjoined : joined ≤ log.length := Nat.le_trans hwaits.1 hrecords.upTo_le
      unfold Subscriber.snapshot
      rw [hrecords.wal]
      cases hrequest : sub.request.cursor with
      | none =>
          exact .live rfl hwaits hfirst (Nat.le_refl joined)
            (.of_nothing hsent hlast (Nat.le_of_eq (htail hrequest).symm) hjoined)
      | some cursor =>
          have hseq := hcursor cursor hrequest
          by_cases hexpired : w.cursorExpired cursor.seq = true
          · have hstatus : (w.snapshot cursor.seq).status = .returned (some .cursorExpired) := by
              simp [Wal.snapshot, hexpired]
            exact .expired rfl hstatus hsent hlast
          · by_cases holdest : w.oldest ≤ cursor.seq + 1
            · have hstart : w.replayStart cursor.seq = first := by
                rw [Wal.replayStart]
                omega
              have hfollows := Wal.follows_snapshot hrecords.layout hrecords.contiguous
                (fun h => absurd h hexpired)
              rw [hstart] at hfollows
              refine .replaying rfl hwaits hfirst ?_ hseq.symm hfollows hsent ?_
              · rw [hrecords.layout.seq_eq]
                exact hjoined
              · change sub.lastSentSeq = sub.sentSeqs.getLast?.getD 0
                rw [sentSeqs, hsent, hlast]
                rfl
            · have hzero : cursor.seq = 0 := by
                have := Nat.mod_le (cursor.seq + 1) (2 ^ 64)
                simp only [Wal.cursorExpired, Bool.and_eq_true, decide_eq_true_eq] at hexpired
                omega
              have hsegs := World.segments_of_wal hrecords.wal
              obtain ⟨d, hd, hone⟩ := hrecords.retained.trimmed 1 (Nat.le_refl 1) (by
                rw [hsegs, ← w.oldest_eq]
                omega)
              exact .lost ⟨d, hd, by omega⟩ (.inr ⟨cursor, hrequest, hzero⟩)
  | lost htrimmed hend =>
      refine .lost htrimmed (.inr ?_)
      rcases hend with hreturned | hzero
      · simp [hphase] at hreturned
      · simpa using hzero
  | replaying hphase' => simp [hphase] at hphase'
  | expired hphase' => simp [hphase] at hphase'
  | live hphase' => simp [hphase] at hphase'
  | returned hphase' => simp [hphase] at hphase'

theorem read (hrecords : s.Records pj w log upTo)
    (h : sub.Streams pj aggregatorId s.writer.world w log upTo first) {reader : Reader}
    (hphase : sub.phase = .replaying reader) :
    (sub.read pj aggregatorId s.dir reader).Streams pj aggregatorId s.writer.world w log upTo
      first := by
  cases h with
  | @replaying reader' joined target tracks delivered hphase' hwaits hfirst hreach hfrom hfollows
      hsent hlast =>
      rw [hphase] at hphase'
      cases hphase'
      unfold Subscriber.read
      split
      · rename_i hdone
        obtain ⟨pos, hprogress⟩ := hfollows.progress (hfollows.gap_failed hdone)
          (by simp [hdone])
        have hstretch := Stretch.of_progress hprogress hsent hlast
        exact .live rfl hwaits hfirst (Nat.le_trans hreach (hprogress.done hdone))
          (hstretch.congr rfl rfl rfl)
      · rename_i err herr
        exact .lost (hfrom ▸ (hfollows.failed err herr).2) (.inl rfl)
      · obtain ⟨tracks', hnext⟩ := hfollows.read hrecords.layout
        have hfrom' : (reader.step pj s.dir).1.fromSeq = first := by
          rw [Reader.step_fromSeq, hfrom]
        dsimp only
        split
        · rename_i hentry
          rw [System.dir] at hentry
          rw [hentry, Option.toList_none, List.append_nil] at hnext
          exact .replaying rfl hwaits hfirst hreach hfrom' hnext hsent hlast
        · rename_i e hentry
          rw [System.dir] at hentry
          rw [hentry, Option.toList_some] at hnext
          unfold Subscriber.replayEntry
          split
          · rename_i haccepts
            refine .replaying rfl hwaits hfirst hreach hfrom' hnext ?_ ?_
            · rw [Subscriber.sent_send]
              exact (congrArg (· ++ _) hsent).trans
                (SubscribeRequest.replayOf_concat_of_accepts delivered haccepts).symm
            · rw [Subscriber.sentSeqs_send, List.getLast?_concat]
              rfl
          · rename_i hrefused
            exact .replaying rfl hwaits hfirst hreach hfrom' hnext
              (hsent.trans (SubscribeRequest.replayOf_concat_of_refuses delivered hrefused).symm)
              hlast
  | expired hphase' hstatus hsent hlast =>
      rw [hphase] at hphase'
      cases hphase'
      have hstretch : sub.Stretch aggregatorId log first 0 :=
        .of_nothing hsent hlast (Nat.zero_le _) (Nat.zero_le _)
      simp only [Subscriber.read, hstatus]
      exact .returned rfl (hstretch.congr rfl rfl rfl)
  | lost htrimmed hend =>
      refine .lost htrimmed (.inr ?_)
      rcases hend with hreturned | hzero
      · simp [hphase] at hreturned
      · simpa using hzero
  | registered hphase' => simp [hphase] at hphase'
  | live hphase' => simp [hphase] at hphase'
  | returned hphase' => simp [hphase] at hphase'

theorem receive (hrecords : s.Records pj w log upTo)
    (h : sub.Streams pj aggregatorId s.writer.world w log upTo first) (hphase : sub.phase = .live)
    {ev : LiveEnvelope} {rest : List LiveEnvelope} (hch : sub.ch = ev :: rest) :
    (sub.receive aggregatorId ev rest).Streams pj aggregatorId s.writer.world w log upTo
      first := by
  cases h with
  | @live start bound _ hwaits hfirst hstart hstretch =>
      obtain ⟨hupTo, hwaiting⟩ := hwaits
      have hlt : start < upTo := by
        by_contra hge
        rw [hwaiting, slice_eq_nil log (by omega)] at hch
        cases hch
      obtain ⟨e, hget⟩ : ∃ e, log[start]? = some e :=
        ⟨_, List.getElem?_eq_getElem (Nat.lt_of_lt_of_le hlt hrecords.upTo_le)⟩
      rw [hwaiting, slice_eq_cons hlt hget, List.map_cons] at hch
      cases hch
      obtain ⟨bound', hbound, hstretch'⟩ := hstretch.receive hrecords.dense hfirst hstart hget
        ((slice log (start + 1) upTo).map liveOf)
      obtain ⟨-, hphase', hch⟩ := sub.receive_frame aggregatorId (liveOf e)
        ((slice log (start + 1) upTo).map liveOf)
      exact .live (hphase'.trans hphase) ⟨hlt, hch⟩ (Nat.le_succ_of_le hfirst) hbound hstretch'
  | lost htrimmed hend =>
      refine .lost htrimmed (.inr ?_)
      rcases hend with hreturned | hzero
      · simp [hphase] at hreturned
      · rw [(sub.receive_frame aggregatorId ev rest).1]
        exact hzero
  | registered hphase' => simp [hphase] at hphase'
  | replaying hphase' => simp [hphase] at hphase'
  | expired hphase' => simp [hphase] at hphase'
  | returned hphase' => simp [hphase] at hphase'

theorem disconnect {world : World EventEnvelope}
    (h : sub.Streams pj aggregatorId world w log upTo first) (hupTo : upTo ≤ log.length) :
    { sub with phase := .returned }.Streams pj aggregatorId world w log upTo first := by
  by_cases hkept : ∀ d ∈ world.trimmed, d.seq ≤ first
  · obtain ⟨bound, hstretch, -⟩ := h.stretch hupTo (.inl hkept)
    exact .returned rfl (hstretch.congr rfl rfl rfl)
  · push Not at hkept
    exact .lost hkept (.inl rfl)

end Subscriber.Streams

/-! ## The system -/

def System.Streaming (pj : ProtoJson EventEnvelope) (aggregatorId : String) (k : Nat)
    (request : SubscribeRequest) (first : Nat) (s : System) : Prop :=
  ∃ w log upTo sub, s.Records pj w log upTo ∧ s.subs[k]? = some sub ∧ sub.request = request ∧
    (sub.drops = 0 → sub.Streams pj aggregatorId s.writer.world w log upTo first)

theorem System.Streaming.step {k : Nat} {request : SubscribeRequest}
    (h : s.Streaming pj aggregatorId k request first) {event : SystemEvent}
    (hstep : s.timedStep pj aggregatorId event = some t) :
    t.Streaming pj aggregatorId k request first := by
  obtain ⟨w, log, upTo, sub, hrecords, hk, hrequest, hstreams⟩ := h
  obtain ⟨hclock, hstep⟩ := restrict_eq_some.mp hstep
  obtain ⟨hsucceeds, hstep⟩ := restrict_eq_some.mp hstep
  obtain ⟨next, hnext, hadvance⟩ := System.advance_of_step hstep hk
  cases hadvance with
  | emit hidle hwriter hinflight =>
      obtain ⟨w', text, hwal, hopen, htext, rfl, hseq, hworld⟩ := s.appendSucceeds_emit hsucceeds
      rw [hrecords.wal] at hwal
      cases hwal
      rw [hseq] at hinflight
      rw [← hwriter] at hworld
      refine ⟨_, _, _, sub, hrecords.emit hidle hopen htext hclock hworld hinflight, hnext,
        hrequest, fun hdrops => ?_⟩
      rw [hworld]
      exact (hstreams hdrops).append hrecords.layout hrecords.upTo_le hopen _ htext _
  | broadcast hev hwriter hinflight =>
      obtain ⟨-, e, hget, rfl⟩ := hrecords.inflight _ hev
      refine ⟨_, _, _, _, hrecords.broadcast hev hwriter hinflight, hnext, by simpa using hrequest,
        fun hdrops => ?_⟩
      rw [hwriter]
      have hbefore : sub.drops = 0 := Nat.le_zero.mp (hdrops ▸ sub.drops_le_offer (liveOf e))
      exact (hstreams hbefore).offer hget hdrops
  | gc hwal hwriter hinflight =>
      rw [hrecords.wal] at hwal
      cases hwal
      have hworld := congrArg Writer.world hwriter
      refine ⟨_, _, _, sub, hrecords.gc (of_decide_eq_true hclock) hworld hinflight, hnext,
        hrequest, fun hdrops => ?_⟩
      rw [hworld]
      exact (hstreams hdrops).gc hrecords.layout _
  | other hwriter hinflight =>
      refine ⟨_, _, _, sub, hrecords.congr hwriter hinflight, hnext, hrequest, ?_⟩
      rw [hwriter]
      exact hstreams
  | snapshot hphase hwriter hinflight =>
      refine ⟨_, _, _, _, hrecords.congr hwriter hinflight, hnext, by simpa using hrequest, ?_⟩
      rw [hwriter, Subscriber.snapshot_drops]
      exact fun hdrops => .snapshot hrecords (hstreams hdrops) hphase
  | read hphase hwriter hinflight =>
      refine ⟨_, _, _, _, hrecords.congr hwriter hinflight, hnext, by simpa using hrequest, ?_⟩
      rw [hwriter, Subscriber.read_drops]
      exact fun hdrops => .read hrecords (hstreams hdrops) hphase
  | receive hphase hch hwriter hinflight =>
      refine ⟨_, _, _, _, hrecords.congr hwriter hinflight, hnext,
        (sub.receive_frame aggregatorId _ _).1.trans hrequest, ?_⟩
      rw [hwriter, Subscriber.receive_drops]
      exact fun hdrops => .receive hrecords (hstreams hdrops) hphase hch
  | disconnect hwriter hinflight =>
      refine ⟨_, _, _, _, hrecords.congr hwriter hinflight, hnext, hrequest, ?_⟩
      rw [hwriter]
      exact fun hdrops => (hstreams hdrops).disconnect hrecords.upTo_le

theorem System.Records.start {world : World EventEnvelope} (hretained : world.Retained pj log)
    (hwal : world.wal = some w) : (System.start world).Records pj w log log.length :=
  ⟨hretained, hwal, fun _ => rfl, by simp [System.start]⟩

theorem System.Records.run {events : List SystemEvent}
    (h : s.Records pj w log upTo)
    (hrun : Foundation.run (System.timedStep pj aggregatorId) s events = some t) :
    ∃ w' log' upTo', t.Records pj w' log' upTo' := by
  apply run_invariant (fun s : System => ∃ w log upTo, s.Records pj w log upTo) _
    ⟨w, log, upTo, h⟩ hrun
  rintro s event t ⟨w, log, upTo, h⟩ hstep
  exact h.step hstep

theorem System.Records.subscribe (h : s.Records pj w log upTo) {request : SubscribeRequest}
    (hsettled : s.startOf request ≤ s.broadcastSeq) {buf : Int}
    (hstep : s.timedStep pj aggregatorId (.subscribe request buf) = some t) :
    t.Streaming pj aggregatorId s.subs.length request (s.startOf request) := by
  obtain ⟨-, hstep⟩ := restrict_eq_some.mp hstep
  obtain ⟨-, hstep⟩ := restrict_eq_some.mp hstep
  cases hstep
  have hupTo := h.broadcastSeq_eq
  refine ⟨w, log, upTo, registerSubscriber request buf, h.congr rfl rfl, by simp, rfl, ?_⟩
  rintro -
  refine .registered rfl ⟨Nat.le_refl upTo, ?_⟩ (hupTo ▸ hsettled) ?_ ?_ rfl rfl
  · rw [slice_eq_nil log (Nat.le_refl upTo)]
    rfl
  · intro hnone
    change request.cursor = none at hnone
    rw [System.startOf, hnone]
    exact hupTo
  · intro cursor hsome
    change request.cursor = some cursor at hsome
    rw [System.startOf, hsome]

/-- Whatever the order of the steps, GC included, what a call has sent is the log from
where it started up to some point, those entries of it that the request accepts,
stamped; and once its channel is empty that point is the last broadcast. -/
theorem stream_eq_stretch {now : Int} {opened : List (Event EventEnvelope)}
    {world : World EventEnvelope}
    (hopened : run (World.timedStep pj) (World.empty now) opened = some world)
    (hwal : world.wal = some w) {before : List SystemEvent}
    (hbefore : run (System.timedStep pj aggregatorId) (System.start world) before = some s)
    {request : SubscribeRequest} (hsettled : s.startOf request ≤ s.broadcastSeq) {buf : Int}
    {after : List SystemEvent}
    (hafter : run (System.timedStep pj aggregatorId) s (.subscribe request buf :: after) = some t)
    (hsub : t.subs[s.subs.length]? = some sub) (hdrops : sub.drops = 0)
    (hintact : Subscriber.Streams.Intact t.writer.world (s.startOf request) sub) :
    ∃ bound ≤ t.journal.length,
      sub.sent = request.replayOf aggregatorId (slice t.journal (s.startOf request) bound) ∧
      (sub.phase = .live → sub.ch = [] → t.broadcastSeq ≤ bound) := by
  obtain ⟨log, hretained⟩ := run_retained hopened
  obtain ⟨w', log', upTo, hrecords⟩ := (System.Records.start hretained hwal).run hbefore
  obtain ⟨next, hsubscribe, hrest⟩ := run_cons_eq_some.mp hafter
  obtain ⟨w'', log'', upTo', sub', hrecords', hsub', hrequest, hstreams⟩ := run_invariant
    (System.Streaming pj aggregatorId s.subs.length request (s.startOf request))
    (fun _ _ _ h hstep => h.step hstep) (hrecords.subscribe hsettled hsubscribe) hrest
  rw [hsub] at hsub'
  cases hsub'
  obtain ⟨bound, hstretch, hcaught⟩ := (hstreams hdrops).stretch hrecords'.upTo_le hintact
  rw [hrecords'.journal_eq, hrecords'.broadcastSeq_eq]
  exact ⟨bound, hstretch.bound_le, hrequest ▸ hstretch.sent, hcaught⟩

/-- A client resumes behind seq 1 from a WAL of one record per file, GC removes the file of
seq 1 under the replay, and seq 3 is appended before the replay reads on. -/
def trimmedReplay : Option (World EventEnvelope × Wal × System × System × Subscriber) := do
  let world ← run (World.timedStep sampleMessages) (World.empty 0)
    [.openLog ⟨"wal", 0, 1, 10⟩ 0]
  let w ← world.wal
  let s ← run (System.timedStep sampleMessages "cluster-a") (System.start world)
    [.emit "node-a" bareEnvelope ⟨1, 1, 1⟩ .none, .broadcast,
      .emit "node-b" lifecycleEnvelope ⟨2, 2, 2⟩ .none, .broadcast]
  let t ← run (System.timedStep sampleMessages "cluster-a") s
    (.subscribe (fromCursor 1) 0 :: ([.snapshot 0, .gc 11,
      .emit "node-a" bareEnvelope ⟨12, 12, 12⟩ .none] ++ List.replicate 9 (.read 0) ++
      [.broadcast, .receive 0]))
  let sub ← t.subs[s.subs.length]?
  some (world, w, s, t, sub)

theorem stream_eq_stretch_trimmedReplay :
    ∃ world w s t sub, trimmedReplay = some (world, w, s, t, sub) ∧
      t.writer.world.trimmed.map DiskEntry.seq = [1] ∧ sub.sentSeqs = [2, 3] ∧
      ∃ bound ≤ t.journal.length,
        sub.sent = (fromCursor 1).replayOf "cluster-a" (slice t.journal 1 bound) ∧
        (sub.phase = .live → sub.ch = [] → t.broadcastSeq ≤ bound) := by
  have hvalues : trimmedReplay.map (fun (_, _, s, t, sub) =>
      ((s.broadcastSeq, t.writer.world.trimmed.map DiskEntry.seq),
        (sub.sentSeqs, sub.phase, sub.drops, sub.request.cursor.map Cursor.seq))) =
      some ((2, [1]), ([2, 3], .live, 0, some 1)) := by
    decide +kernel
  obtain ⟨⟨world, w, s, t, sub⟩, hscenario, hvalues⟩ := Option.map_eq_some_iff.mp hvalues
  simp only [Prod.mk.injEq] at hvalues
  obtain ⟨⟨hbroadcast, htrimmed⟩, hsent, hphase, hdrops, hcursor⟩ := hvalues
  refine ⟨world, w, s, t, sub, hscenario, htrimmed, hsent, ?_⟩
  simp only [trimmedReplay, bind, Option.bind_eq_some_iff] at hscenario
  obtain ⟨world', hopened, w', hwal, s', hbefore, t', hafter, sub', hsub, heq⟩ := hscenario
  cases heq
  have hsettled : s.startOf (fromCursor 1) ≤ s.broadcastSeq := by
    rw [hbroadcast]
    exact Nat.le_succ 1
  refine stream_eq_stretch hopened hwal hbefore hsettled hafter hsub hdrops (.inr ⟨hphase, ?_⟩)
  intro cursor hsome
  rw [hsome, Option.map_some, Option.some.injEq] at hcursor
  omega

end KloudlensAggregator.Aggregator
