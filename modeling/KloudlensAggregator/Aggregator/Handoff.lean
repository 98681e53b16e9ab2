import KloudlensAggregator.Aggregator.ReExport
import KloudlensAggregator.Envwal.Crash

/-!
# From replay to live

A `Subscribe` call registers its channel, replays the WAL and then goes live.
An envelope may reach it through the files, through the channel, or through
both.  The invariant of this module says where the log is cut: a stretch of it
has been replayed, and the channel holds the stretch from some point of the
replayed part, or just behind it, up to what was broadcast.
-/

namespace KloudlensAggregator.Aggregator

open KloudlensAggregator.Foundation
open KloudlensAggregator.Envwal

variable {pj : ProtoJson EventEnvelope} {aggregatorId : String} {s t : System}
  {log : List (Entry EventEnvelope)} {w : Wal} {upTo bound : Nat} {sub : Subscriber}

def SystemEvent.isGc : SystemEvent → Bool
  | .gc _ => true
  | _ => false

def System.handoffStep (pj : ProtoJson EventEnvelope) (aggregatorId : String) :
    System → SystemEvent → Option System :=
  restrict (fun _ event => !event.isGc) (System.loggedStep pj aggregatorId)

def liveOf (e : Entry EventEnvelope) : LiveEnvelope := ⟨e.seq, e.agent, e.envelope⟩

/-! ## The writer -/

/-- The first `upTo` entries of the log are broadcast, and the entry in flight, if
there is one, is the next. -/
structure System.Writes (pj : ProtoJson EventEnvelope) (s : System) (w : Wal)
    (log : List (Entry EventEnvelope)) (upTo : Nat) : Prop where
  complete : s.writer.world.Complete pj log
  wal : s.wal = some w
  idle : s.inflight = none → upTo = log.length
  inflight : ∀ ev, s.inflight = some ev →
    log.length = upTo + 1 ∧ ∃ e, log[upTo]? = some e ∧ liveOf e = ev

theorem System.Writes.layout (h : s.Writes pj w log upTo) :
    Layout pj s.writer.world.dir w log ∧ Whole pj s.writer.world.dir w.segments log :=
  h.complete.layout w h.wal

theorem System.Writes.dense (h : s.Writes pj w log upTo) : Dense pj log := h.layout.1.dense

theorem System.Writes.upTo_le (h : s.Writes pj w log upTo) : upTo ≤ log.length := by
  cases hinflight : s.inflight with
  | none => exact Nat.le_of_eq (h.idle hinflight)
  | some ev =>
      have := (h.inflight ev hinflight).1
      omega

/-! ## What a subscriber has been served -/

/-- Up to `bound` the stream has everything a resumed subscriber asked for. -/
structure Subscriber.Served (aggregatorId : String) (log : List (Entry EventEnvelope))
    (sub : Subscriber) (bound : Nat) : Prop where
  increasing : sub.sentSeqs.Pairwise (· < ·)
  le_last : ∀ seq ∈ sub.sentSeqs, seq ≤ sub.lastSentSeq
  last_le : sub.lastSentSeq ≤ bound
  bound_le : bound ≤ log.length
  covered : ∀ cursor, sub.request.cursor = some cursor → ∀ e ∈ log, cursor.seq < e.seq →
    e.seq ≤ bound → sub.request.accepts e.envelope = true →
    (e.seq, stampCursor aggregatorId e.envelope e.seq sub.request.streamName) ∈ sub.sent

namespace Subscriber.Served

theorem of_nothing (hdense : Dense pj log) (hsent : sub.sent = [])
    (hlast : sub.lastSentSeq = 0) : sub.Served aggregatorId log 0 := by
  have hseqs : sub.sentSeqs = [] := by rw [Subscriber.sentSeqs, hsent]; rfl
  refine ⟨by rw [hseqs]; exact .nil, by simp [hseqs], Nat.le_of_eq hlast, Nat.zero_le _, ?_⟩
  intro cursor _ e he _ hbound
  have := (hdense.getElem?_of_mem he).1
  omega

theorem congr (h : sub.Served aggregatorId log bound) {next : Subscriber}
    (hrequest : next.request = sub.request) (hsent : next.sent = sub.sent)
    (hlast : next.lastSentSeq = sub.lastSentSeq) : next.Served aggregatorId log bound := by
  have hseqs : next.sentSeqs = sub.sentSeqs := by
    rw [Subscriber.sentSeqs, hsent]
    rfl
  refine ⟨hseqs ▸ h.increasing, ?_, hlast ▸ h.last_le, h.bound_le, ?_⟩
  · rw [hseqs, hlast]
    exact h.le_last
  · rw [hrequest, hsent]
    exact h.covered

theorem append (h : sub.Served aggregatorId log bound) {e : Entry EventEnvelope}
    (hseq : e.seq = log.length + 1) : sub.Served aggregatorId (log ++ [e]) bound := by
  have hbound := h.bound_le
  refine ⟨h.increasing, h.le_last, h.last_le, ?_, ?_⟩
  · rw [List.length_append]
    omega
  · intro cursor hcursor e' he' hlow hhigh
    rcases List.mem_append.mp he' with hold | hnew
    · exact h.covered cursor hcursor e' hold hlow hhigh
    · rw [List.mem_singleton.mp hnew] at hhigh
      omega

theorem send (h : sub.Served aggregatorId log bound) (hdense : Dense pj log)
    {e : Entry EventEnvelope} {start : Nat} (hstart : start ≤ bound)
    (hget : log[start]? = some e) (hfresh : sub.lastSentSeq < e.seq) :
    (sub.send aggregatorId e.seq e.envelope).Served aggregatorId log
      (max bound (start + 1)) := by
  have hseq := hdense.seq hget
  have hlength := (List.getElem?_eq_some_iff.mp hget).1
  have hlast := h.last_le
  have hbound := h.bound_le
  refine ⟨?_, ?_, ?_, by omega, ?_⟩
  · rw [Subscriber.sentSeqs_send, List.pairwise_append]
    refine ⟨h.increasing, List.pairwise_singleton _ _, ?_⟩
    intro seq hsent seq' hnew
    rw [List.mem_singleton.mp hnew]
    exact Nat.lt_of_le_of_lt (h.le_last seq hsent) hfresh
  · rw [Subscriber.sentSeqs_send]
    intro seq hsent
    rcases List.mem_append.mp hsent with hold | hnew
    · exact Nat.le_of_lt (Nat.lt_of_le_of_lt (h.le_last seq hold) hfresh)
    · exact Nat.le_of_eq (List.mem_singleton.mp hnew)
  · change e.seq ≤ max bound (start + 1)
    omega
  · intro cursor hcursor e' he' hlow hhigh haccepts
    rw [Subscriber.sent_send]
    by_cases hold : e'.seq ≤ bound
    · exact List.mem_append_left _ (h.covered cursor hcursor e' he' hlow hold haccepts)
    · obtain ⟨-, -, hget'⟩ := hdense.getElem?_of_mem he'
      rw [show e'.seq - 1 = start by omega, hget] at hget'
      cases hget'
      exact List.mem_append_right _ (List.mem_singleton.mpr rfl)

theorem pass (h : sub.Served aggregatorId log bound) (hdense : Dense pj log)
    {e : Entry EventEnvelope} {start : Nat} (hstart : start ≤ bound)
    (hget : log[start]? = some e)
    (hpass : e.seq ≤ sub.lastSentSeq ∨ ¬ sub.request.accepts e.envelope = true) :
    sub.Served aggregatorId log (max bound (start + 1)) := by
  have hseq := hdense.seq hget
  have hlength := (List.getElem?_eq_some_iff.mp hget).1
  have hlast := h.last_le
  have hbound := h.bound_le
  refine ⟨h.increasing, h.le_last, by omega, by omega, ?_⟩
  intro cursor hcursor e' he' hlow hhigh haccepts
  by_cases hold : e'.seq ≤ bound
  · exact h.covered cursor hcursor e' he' hlow hold haccepts
  · obtain ⟨-, -, hget'⟩ := hdense.getElem?_of_mem he'
    rw [show e'.seq - 1 = start by omega, hget] at hget'
    cases hget'
    rcases hpass with hsent | hrefused
    · omega
    · exact absurd haccepts hrefused

end Subscriber.Served

def Subscriber.Waits (log : List (Entry EventEnvelope)) (upTo : Nat) (sub : Subscriber)
    (start : Nat) : Prop :=
  start ≤ upTo ∧ sub.ch = (slice log start upTo).map liveOf

def SubscribeRequest.replayOf (aggregatorId : String) (request : SubscribeRequest)
    (entries : List (Entry EventEnvelope)) : List (Nat × EventEnvelope) :=
  (entries.filter fun e => request.accepts e.envelope).map fun e =>
    (e.seq, stampCursor aggregatorId e.envelope e.seq request.streamName)

theorem SubscribeRequest.replayOf_concat_of_accepts {request : SubscribeRequest}
    (entries : List (Entry EventEnvelope)) {e : Entry EventEnvelope}
    (h : request.accepts e.envelope = true) :
    request.replayOf aggregatorId (entries ++ [e]) = request.replayOf aggregatorId entries ++
      [(e.seq, stampCursor aggregatorId e.envelope e.seq request.streamName)] := by
  have hkept : [e].filter (fun e => request.accepts e.envelope) = [e] :=
    List.filter_cons_of_pos h
  rw [replayOf, List.filter_append, hkept, List.map_append]
  rfl

theorem SubscribeRequest.replayOf_concat_of_refuses {request : SubscribeRequest}
    (entries : List (Entry EventEnvelope)) {e : Entry EventEnvelope}
    (h : ¬ request.accepts e.envelope = true) :
    request.replayOf aggregatorId (entries ++ [e]) = request.replayOf aggregatorId entries := by
  have hkept : [e].filter (fun e => request.accepts e.envelope) = [] :=
    List.filter_cons_of_neg h
  rw [replayOf, List.filter_append, hkept, List.append_nil]
  rfl

/-- The invariant of a `Subscribe` call, phase by phase. -/
inductive Subscriber.HandsOff (pj : ProtoJson EventEnvelope) (aggregatorId : String)
    (world : World EventEnvelope) (w : Wal) (log : List (Entry EventEnvelope)) (upTo : Nat)
    (sub : Subscriber) : Prop
  | registered {joined : Nat} (hphase : sub.phase = .registered)
      (hwaits : sub.Waits log upTo joined) (hsent : sub.sent = [])
      (hlast : sub.lastSentSeq = 0)
  | replaying {reader : Reader} {cursor : Cursor} {joined target : Nat}
      {tracks : List (Segment × Bool)} {delivered : List (Entry EventEnvelope)}
      (hphase : sub.phase = .replaying reader) (hcursor : sub.request.cursor = some cursor)
      (hwaits : sub.Waits log upTo joined) (hreach : joined ≤ target)
      (hfollows : reader.Follows pj world w log target cursor.seq tracks delivered)
      (hsent : sub.sent = sub.request.replayOf aggregatorId delivered)
      (hlast : sub.lastSentSeq = sub.sentSeqs.getLast?.getD 0)
  /-- The cursor is the last 64 bit value, whose successor is zero. -/
  | expired {reader : Reader} {err : ReadError} (hphase : sub.phase = .replaying reader)
      (hstatus : reader.status = .returned (some err)) (hsent : sub.sent = [])
      (hlast : sub.lastSentSeq = 0)
  | live {start bound : Nat} (hphase : sub.phase = .live)
      (hwaits : sub.Waits log upTo start) (hstart : start ≤ bound)
      (hserved : sub.Served aggregatorId log bound)
  | returned {bound : Nat} (hphase : sub.phase = .returned)
      (hserved : sub.Served aggregatorId log bound)

theorem le_getLast?_getD {seqs : List Nat} (h : seqs.Pairwise (· < ·)) :
    ∀ seq ∈ seqs, seq ≤ seqs.getLast?.getD 0 := by
  intro seq hseq
  rcases List.eq_nil_or_concat seqs with rfl | ⟨first, last, rfl⟩
  · cases hseq
  · rw [List.concat_eq_append] at h hseq ⊢
    rw [List.getLast?_concat, Option.getD_some]
    rcases List.mem_append.mp hseq with hold | hnew
    · have hlast := (List.pairwise_append.mp h).2.2 seq hold last (List.mem_singleton.mpr rfl)
      exact Nat.le_of_lt hlast
    · exact Nat.le_of_eq (List.mem_singleton.mp hnew)

theorem Subscriber.Served.of_progress {reader : Reader} {cursor : Cursor} {target pos : Nat}
    {tracks : List (Segment × Bool)} {delivered : List (Entry EventEnvelope)}
    (h : reader.Progress pj log target cursor.seq tracks delivered pos)
    (hdense : Dense pj log) (hcursor : sub.request.cursor = some cursor)
    (hsent : sub.sent = sub.request.replayOf aggregatorId delivered)
    (hlast : sub.lastSentSeq = sub.sentSeqs.getLast?.getD 0) :
    sub.Served aggregatorId log pos := by
  have hseqs : sub.sentSeqs =
      (delivered.filter fun e => sub.request.accepts e.envelope).map Entry.seq := by
    rw [Subscriber.sentSeqs, hsent, SubscribeRequest.replayOf, List.map_map]
    rfl
  have hincreasing : sub.sentSeqs.Pairwise (· < ·) := by
    have hall : (delivered.map Entry.seq).Pairwise (· < ·) := by
      rw [h.delivered_eq, hdense.map_seq_slice h.pos_le]
      exact List.pairwise_lt_range' 1
    rw [hseqs]
    exact hall.sublist (List.filter_sublist.map Entry.seq)
  have hle : ∀ seq ∈ sub.sentSeqs, seq ≤ pos := by
    rw [hseqs]
    intro seq hseq
    obtain ⟨e, he, rfl⟩ := List.mem_map.mp hseq
    have hmem := (List.mem_filter.mp he).1
    rw [h.delivered_eq] at hmem
    obtain ⟨i, -, hi, hget⟩ := mem_slice.mp hmem
    have := hdense.seq hget
    omega
  refine ⟨hincreasing, ?_, ?_, h.pos_le, ?_⟩
  · rw [hlast]
    exact le_getLast?_getD hincreasing
  · rw [hlast]
    cases hgetLast : sub.sentSeqs.getLast? with
    | none => exact Nat.zero_le _
    | some last => exact hle last (List.mem_of_getLast? hgetLast)
  · intro cursor' hcursor' e he hlow hhigh haccepts
    rw [hcursor] at hcursor'
    cases hcursor'
    obtain ⟨hpos, -, hget⟩ := hdense.getElem?_of_mem he
    have hdelivered : e ∈ delivered := by
      rw [h.delivered_eq]
      exact mem_slice.mpr ⟨e.seq - 1, by omega, by omega, hget⟩
    rw [hsent]
    exact List.mem_map.mpr ⟨e, List.mem_filter.mpr ⟨hdelivered, haccepts⟩, rfl⟩

namespace Subscriber.HandsOff

theorem served {world : World EventEnvelope}
    (h : sub.HandsOff pj aggregatorId world w log upTo) (hdense : Dense pj log)
    (htrimmed : world.trimmed = []) : ∃ bound, sub.Served aggregatorId log bound := by
  cases h with
  | registered hphase hwaits hsent hlast => exact ⟨0, .of_nothing hdense hsent hlast⟩
  | replaying hphase hcursor hwaits hreach hfollows hsent hlast =>
      obtain ⟨-, pos, hprogress⟩ := hfollows.progress_of_untrimmed htrimmed
      exact ⟨pos, .of_progress hprogress hdense hcursor hsent hlast⟩
  | expired hphase hstatus hsent hlast => exact ⟨0, .of_nothing hdense hsent hlast⟩
  | live hphase hwaits hstart hserved => exact ⟨_, hserved⟩
  | returned hphase hserved => exact ⟨_, hserved⟩

theorem append {world : World EventEnvelope}
    (h : sub.HandsOff pj aggregatorId world w log upTo) (hlayout : Layout pj world.dir w log)
    (hupTo : upTo ≤ log.length) (hopen : w.curOpen = true) (agent : String)
    {env : EventEnvelope} {text : Bytes} (htext : pj.marshal env = some text)
    (clock : AppendClock) :
    sub.HandsOff pj aggregatorId (world.append pj w agent (some env) clock .none)
      (w.append pj world.dir agent (some env) clock .none).2.1
      (log ++ [⟨w.seq + 1, agent, env, clock.ts⟩]) upTo := by
  have hseq : w.seq + 1 = log.length + 1 := by rw [hlayout.seq_eq]
  have hwaits' : ∀ {start}, sub.Waits log upTo start →
      sub.Waits (log ++ [⟨w.seq + 1, agent, env, clock.ts⟩]) upTo start := by
    intro start hwaits
    refine ⟨hwaits.1, ?_⟩
    rw [slice_append_left log _ hupTo]
    exact hwaits.2
  cases h with
  | registered hphase hwaits hsent hlast => exact .registered hphase (hwaits' hwaits) hsent hlast
  | replaying hphase hcursor hwaits hreach hfollows hsent hlast =>
      exact .replaying hphase hcursor (hwaits' hwaits) hreach
        (hfollows.append hlayout hopen agent htext clock) hsent hlast
  | expired hphase hstatus hsent hlast => exact .expired hphase hstatus hsent hlast
  | live hphase hwaits hstart hserved =>
      exact .live hphase (hwaits' hwaits) hstart (hserved.append hseq)
  | returned hphase hserved => exact .returned hphase (hserved.append hseq)

theorem offer {world : World EventEnvelope}
    (h : sub.HandsOff pj aggregatorId world w log upTo) {e : Entry EventEnvelope}
    (hget : log[upTo]? = some e) (hdrops : (sub.offer (liveOf e)).drops = 0) :
    (sub.offer (liveOf e)).HandsOff pj aggregatorId world w log (upTo + 1) := by
  rcases sub.offer_cases (liveOf e) with ⟨heq, hreturned⟩ | ⟨heq, -⟩ | ⟨heq, -⟩
  · rw [heq]
    cases h with
    | returned hphase hserved => exact .returned hphase hserved
    | registered hphase => simp [hphase] at hreturned
    | replaying hphase => simp [hphase] at hreturned
    | expired hphase => simp [hphase] at hreturned
    | live hphase => simp [hphase] at hreturned
  · rw [heq]
    have hsame : (sub.queue (liveOf e)).sent = sub.sent := by simp [Subscriber.queue, sent]
    have hwaits' : ∀ {start}, sub.Waits log upTo start →
        (sub.queue (liveOf e)).Waits log (upTo + 1) start := by
      rintro start ⟨hstart, hch⟩
      refine ⟨Nat.le_succ_of_le hstart, ?_⟩
      rw [slice_succ hstart hget, List.map_append, ← hch]
      rfl
    cases h with
    | registered hphase hwaits hsent hlast =>
        exact .registered hphase (hwaits' hwaits) (hsame.trans hsent) hlast
    | replaying hphase hcursor hwaits hreach hfollows hsent hlast =>
        refine .replaying hphase hcursor (hwaits' hwaits) hreach hfollows (hsame.trans hsent) ?_
        rw [sentSeqs, hsame]
        exact hlast
    | expired hphase hstatus hsent hlast =>
        exact .expired hphase hstatus (hsame.trans hsent) hlast
    | live hphase hwaits hstart hserved =>
        exact .live hphase (hwaits' hwaits) hstart (hserved.congr rfl hsame rfl)
    | returned hphase hserved => exact .returned hphase (hserved.congr rfl hsame rfl)
  · rw [heq] at hdrops
    cases hdrops

theorem snapshot (hwrites : s.Writes pj w log upTo)
    (h : sub.HandsOff pj aggregatorId s.writer.world w log upTo)
    (hphase : sub.phase = .registered) :
    (sub.snapshot s.wal).HandsOff pj aggregatorId s.writer.world w log upTo := by
  obtain ⟨hlayout, hwhole⟩ := hwrites.layout
  cases h with
  | @registered joined _ hwaits hsent hlast =>
      have hjoined : joined ≤ log.length := Nat.le_trans hwaits.1 hwrites.upTo_le
      unfold Subscriber.snapshot
      rw [hwrites.wal]
      cases hcursor : sub.request.cursor with
      | none =>
          have hserved : sub.Served aggregatorId log 0 := .of_nothing hwrites.dense hsent hlast
          refine .live rfl hwaits (Nat.le_refl joined)
            ⟨hserved.increasing, hserved.le_last, ?_, hjoined, ?_⟩
          · exact Nat.le_trans hserved.last_le (Nat.zero_le _)
          · intro cursor hcursor'
            rw [hcursor] at hcursor'
            cases hcursor'
      | some cursor =>
          by_cases hexpired : w.cursorExpired cursor.seq = true
          · have hstatus : (w.snapshot cursor.seq).status = .returned (some .cursorExpired) := by
              simp [Wal.snapshot, hexpired]
            exact .expired rfl hstatus hsent hlast
          · have hstart : w.replayStart cursor.seq = cursor.seq := by
              rw [Wal.replayStart, w.oldest_eq, hwhole.oldest]
              exact Nat.max_eq_left (Nat.zero_le _)
            have hfollows := Wal.follows_snapshot hlayout hwhole.contiguous
              (fun h => absurd h hexpired)
            rw [hstart] at hfollows
            refine .replaying rfl hcursor hwaits ?_ hfollows hsent ?_
            · rw [hlayout.seq_eq]
              exact hjoined
            · change sub.lastSentSeq = sub.sentSeqs.getLast?.getD 0
              rw [sentSeqs, hsent, hlast]
              rfl
  | replaying hphase' => simp [hphase] at hphase'
  | expired hphase' => simp [hphase] at hphase'
  | live hphase' => simp [hphase] at hphase'
  | returned hphase' => simp [hphase] at hphase'

theorem read (hwrites : s.Writes pj w log upTo)
    (h : sub.HandsOff pj aggregatorId s.writer.world w log upTo) {reader : Reader}
    (hphase : sub.phase = .replaying reader) :
    (sub.read pj aggregatorId s.dir reader).HandsOff pj aggregatorId s.writer.world w log
      upTo := by
  cases h with
  | @replaying reader' cursor joined target tracks delivered hphase' hcursor hwaits hreach
      hfollows hsent hlast =>
      rw [hphase] at hphase'
      cases hphase'
      obtain ⟨hfailed, pos, hprogress⟩ := hfollows.progress_of_untrimmed hwrites.complete.untrimmed
      unfold Subscriber.read
      split
      · rename_i hdone
        have hserved := Served.of_progress hprogress hwrites.dense hcursor hsent hlast
        exact .live rfl hwaits (Nat.le_trans hreach (hprogress.done hdone))
          (hserved.congr rfl rfl rfl)
      · rename_i err herr
        exact absurd herr (hfailed err)
      · obtain ⟨tracks', hnext⟩ := hfollows.read hwrites.layout.1
        dsimp only
        split
        · rename_i hentry
          rw [System.dir] at hentry
          rw [hentry, Option.toList_none, List.append_nil] at hnext
          exact .replaying rfl hcursor hwaits hreach hnext hsent hlast
        · rename_i e hentry
          rw [System.dir] at hentry
          rw [hentry, Option.toList_some] at hnext
          unfold Subscriber.replayEntry
          split
          · rename_i haccepts
            refine .replaying rfl hcursor hwaits hreach hnext ?_ ?_
            · rw [Subscriber.sent_send]
              exact (congrArg (· ++ _) hsent).trans
                (SubscribeRequest.replayOf_concat_of_accepts delivered haccepts).symm
            · rw [Subscriber.sentSeqs_send, List.getLast?_concat]
              rfl
          · rename_i hrefused
            exact .replaying rfl hcursor hwaits hreach hnext
              (hsent.trans (SubscribeRequest.replayOf_concat_of_refuses delivered hrefused).symm)
              hlast
  | expired hphase' hstatus hsent hlast =>
      rw [hphase] at hphase'
      cases hphase'
      have hserved : sub.Served aggregatorId log 0 := .of_nothing hwrites.dense hsent hlast
      simp only [Subscriber.read, hstatus]
      exact .returned rfl (hserved.congr rfl rfl rfl)
  | registered hphase' => simp [hphase] at hphase'
  | live hphase' => simp [hphase] at hphase'
  | returned hphase' => simp [hphase] at hphase'

theorem receive (hwrites : s.Writes pj w log upTo)
    (h : sub.HandsOff pj aggregatorId s.writer.world w log upTo) (hphase : sub.phase = .live)
    {ev : LiveEnvelope} {rest : List LiveEnvelope} (hch : sub.ch = ev :: rest) :
    (sub.receive aggregatorId ev rest).HandsOff pj aggregatorId s.writer.world w log upTo := by
  cases h with
  | @live start bound _ hwaits hstart hserved =>
      obtain ⟨hupTo, hwaiting⟩ := hwaits
      have hlt : start < upTo := by
        by_contra hge
        rw [hwaiting, slice_eq_nil log (by omega)] at hch
        cases hch
      have hget := List.getElem?_eq_getElem (show start < log.length from
        Nat.lt_of_lt_of_le hlt hwrites.upTo_le)
      rw [hwaiting, slice_eq_cons hlt hget, List.map_cons] at hch
      cases hch
      have hrest : { sub with ch := (slice log (start + 1) upTo).map liveOf }.Waits log upTo
          (start + 1) := ⟨hlt, rfl⟩
      have hserved' : { sub with ch := (slice log (start + 1) upTo).map liveOf }.Served
          aggregatorId log bound := hserved.congr rfl rfl rfl
      have hnext : start + 1 ≤ max bound (start + 1) := Nat.le_max_right _ _
      simp only [Subscriber.receive]
      split
      · rename_i hsent
        exact .live hphase hrest hnext (hserved'.pass hwrites.dense hstart hget (.inl hsent))
      · rename_i hfresh
        split
        · exact .live hphase hrest hnext
            (hserved'.send hwrites.dense hstart hget (Nat.lt_of_not_le hfresh))
        · rename_i hrefused
          exact .live hphase hrest hnext
            (hserved'.pass hwrites.dense hstart hget (.inr hrefused))
  | registered hphase' => simp [hphase] at hphase'
  | replaying hphase' => simp [hphase] at hphase'
  | expired hphase' => simp [hphase] at hphase'
  | returned hphase' => simp [hphase] at hphase'

end Subscriber.HandsOff

/-! ## The system -/

/-- The writer writes the log, and the subscriber at `k`, once it is there and as
long as none of its envelopes was dropped, hands off. -/
def System.Sound (pj : ProtoJson EventEnvelope) (aggregatorId : String) (k : Nat)
    (s : System) : Prop :=
  ∃ w log upTo, s.Writes pj w log upTo ∧ ∀ sub, s.subs[k]? = some sub → sub.drops = 0 →
    sub.HandsOff pj aggregatorId s.writer.world w log upTo

theorem System.Writes.congr (h : s.Writes pj w log upTo) (hwriter : t.writer = s.writer)
    (hinflight : t.inflight = s.inflight) : t.Writes pj w log upTo := by
  refine ⟨hwriter ▸ h.complete, ?_, hinflight ▸ h.idle, hinflight ▸ h.inflight⟩
  rw [System.wal, hwriter]
  exact h.wal

theorem System.Writes.emit (h : s.Writes pj w log upTo) (hidle : s.inflight = none)
    {agent : String} {env : EventEnvelope} {clock : AppendClock} {text : Bytes}
    (hopen : w.curOpen = true) (htext : pj.marshal env = some text)
    (hworld : t.writer.world = s.writer.world.append pj w agent (some env) clock .none)
    (hinflight : t.inflight = some ⟨w.seq + 1, agent, env⟩) :
    t.Writes pj (w.append pj s.writer.world.dir agent (some env) clock .none).2.1
      (log ++ [⟨w.seq + 1, agent, env, clock.ts⟩]) upTo := by
  have hupTo := h.idle hidle
  refine ⟨?_, ?_, by simp [hinflight], ?_⟩
  · rw [hworld]
    exact h.complete.append h.wal hopen agent htext clock
  · rw [System.wal, hworld]
    rfl
  · rw [hinflight]
    rintro ev ⟨⟩
    refine ⟨by simp [hupTo], ⟨w.seq + 1, agent, env, clock.ts⟩, ?_, rfl⟩
    rw [hupTo, List.getElem?_concat_length]

theorem System.Writes.broadcast (h : s.Writes pj w log upTo) {ev : LiveEnvelope}
    (hev : s.inflight = some ev) (hwriter : t.writer = s.writer)
    (hinflight : t.inflight = none) : t.Writes pj w log (upTo + 1) := by
  refine ⟨hwriter ▸ h.complete, ?_, fun _ => (h.inflight ev hev).1.symm, by simp [hinflight]⟩
  rw [System.wal, hwriter]
  exact h.wal

theorem System.Writes.step (h : s.Writes pj w log upTo) {event : SystemEvent}
    (hstep : s.handoffStep pj aggregatorId event = some t) :
    ∃ w' log' upTo', t.Writes pj w' log' upTo' := by
  obtain ⟨hguard, hstep⟩ := restrict_eq_some.mp hstep
  obtain ⟨hsucceeds, hstep⟩ := restrict_eq_some.mp hstep
  have hwriter := System.writerStep_of_step hstep
  obtain ⟨writer, inflight, subs⟩ := t
  cases hwriter with
  | emit hidle =>
      obtain ⟨w', text, hwal, hopen, htext, rfl, hseq, hworld⟩ := s.appendSucceeds_emit hsucceeds
      rw [h.wal] at hwal
      cases hwal
      exact ⟨_, _, _, h.emit hidle hopen htext hworld (by simp only [hseq])⟩
  | broadcast hev => exact ⟨_, _, _, h.broadcast hev rfl rfl⟩
  | gc => cases hguard
  | idle => exact ⟨_, _, _, h.congr rfl rfl⟩

theorem System.Sound.step {k : Nat} (h : s.Sound pj aggregatorId k) {event : SystemEvent}
    (hstep : s.handoffStep pj aggregatorId event = some t) : t.Sound pj aggregatorId k := by
  obtain ⟨w, log, upTo, hwrites, hsubs⟩ := h
  have hwrites' := hwrites.step hstep
  obtain ⟨hguard, hstep⟩ := restrict_eq_some.mp hstep
  obtain ⟨hsucceeds, hstep⟩ := restrict_eq_some.mp hstep
  cases hk : s.subs[k]? with
  | none =>
      cases hnew : t.subs[k]? with
      | none =>
          obtain ⟨w', log', upTo', hwrites'⟩ := hwrites'
          exact ⟨w', log', upTo', hwrites', by simp [hnew]⟩
      | some sub =>
          obtain ⟨hwriter, hinflight, request, buf, rfl⟩ :=
            System.registered_of_step hstep hk hnew
          refine ⟨w, log, upTo, hwrites.congr hwriter hinflight, ?_⟩
          rintro sub hsub -
          rw [hnew] at hsub
          cases hsub
          refine .registered rfl ⟨Nat.le_refl upTo, ?_⟩ rfl rfl
          rw [slice_eq_nil log (Nat.le_refl upTo)]
          rfl
  | some sub =>
      obtain ⟨next, hnext, hadvance⟩ := System.advance_of_step hstep hk
      have honly : ∀ {w' log' upTo'}, t.Writes pj w' log' upTo' →
          (next.drops = 0 →
            next.HandsOff pj aggregatorId t.writer.world w' log' upTo') →
          t.Sound pj aggregatorId k := by
        intro w' log' upTo' hwrites' hhands
        refine ⟨w', log', upTo', hwrites', ?_⟩
        rintro sub' hsub'
        rw [hnext] at hsub'
        cases hsub'
        exact hhands
      cases hadvance with
      | emit hidle hwriter hinflight =>
          obtain ⟨w', text, hwal, hopen, htext, rfl, hseq, hworld⟩ :=
            s.appendSucceeds_emit hsucceeds
          rw [hwrites.wal] at hwal
          cases hwal
          rw [hseq] at hinflight
          rw [← hwriter] at hworld
          refine honly (hwrites.emit hidle hopen htext hworld hinflight) fun hdrops => ?_
          rw [hworld]
          exact (hsubs sub hk hdrops).append hwrites.layout.1 hwrites.upTo_le hopen _ htext _
      | broadcast hev hwriter hinflight =>
          obtain ⟨-, e, hget, rfl⟩ := hwrites.inflight _ hev
          refine honly (hwrites.broadcast hev hwriter hinflight) fun hdrops => ?_
          rw [hwriter]
          have hbefore : sub.drops = 0 :=
            Nat.le_zero.mp (hdrops ▸ sub.drops_le_offer (liveOf e))
          exact (hsubs sub hk hbefore).offer hget hdrops
      | gc => cases hguard
      | other hwriter hinflight =>
          refine honly (hwrites.congr hwriter hinflight) fun hdrops => ?_
          rw [hwriter]
          exact hsubs sub hk hdrops
      | snapshot hphase hwriter hinflight =>
          refine honly (hwrites.congr hwriter hinflight) fun hdrops => ?_
          rw [hwriter]
          rw [Subscriber.snapshot_drops] at hdrops
          exact .snapshot hwrites (hsubs sub hk hdrops) hphase
      | read hphase hwriter hinflight =>
          refine honly (hwrites.congr hwriter hinflight) fun hdrops => ?_
          rw [hwriter]
          rw [Subscriber.read_drops] at hdrops
          exact .read hwrites (hsubs sub hk hdrops) hphase
      | receive hphase hch hwriter hinflight =>
          refine honly (hwrites.congr hwriter hinflight) fun hdrops => ?_
          rw [hwriter]
          rw [Subscriber.receive_drops] at hdrops
          exact .receive hwrites (hsubs sub hk hdrops) hphase hch
      | disconnect hwriter hinflight =>
          refine honly (hwrites.congr hwriter hinflight) fun hdrops => ?_
          obtain ⟨bound, hserved⟩ := (hsubs sub hk hdrops).served hwrites.dense
            hwrites.complete.untrimmed
          exact .returned rfl (hserved.congr rfl rfl rfl)

/-- Whatever the order of the steps, the seqs sent on a stream whose channel never
overflowed increase, and behind the cursor of its request nothing that the
request accepts is missing up to the last one sent. -/
theorem handoff_increasing_complete {now : Int} {opened : List (Event EventEnvelope)}
    {world : World EventEnvelope}
    (hopened : run (World.quietStep pj) (World.empty now) opened = some world)
    (hwal : world.wal = some w) {events : List SystemEvent}
    (hrun : run (System.handoffStep pj aggregatorId) (System.start world) events = some s)
    {k : Nat} (hsub : s.subs[k]? = some sub) (hdrops : sub.drops = 0) :
    sub.sentSeqs.Pairwise (· < ·) ∧
      ∀ cursor last, sub.request.cursor = some cursor → sub.sentSeqs.getLast? = some last →
        ∀ e ∈ s.writer.world.appended, cursor.seq < e.seq → e.seq ≤ last →
          sub.request.accepts e.envelope = true →
          (e.seq, stampCursor aggregatorId e.envelope e.seq sub.request.streamName) ∈
            sub.sent := by
  obtain ⟨log, hcomplete⟩ := (World.Complete.empty now).run hopened
  have hstart : (System.start world).Sound pj aggregatorId k :=
    ⟨w, log, log.length, ⟨hcomplete, hwal, fun _ => rfl, by simp [System.start]⟩,
      by simp [System.start]⟩
  obtain ⟨w', log', upTo, hwrites, hsubs⟩ := run_invariant (System.Sound pj aggregatorId k)
    (fun _ _ _ h hstep => h.step hstep) hstart hrun
  obtain ⟨bound, hserved⟩ := (hsubs sub hsub hdrops).served hwrites.dense
    hwrites.complete.untrimmed
  refine ⟨hserved.increasing, ?_⟩
  intro cursor last hcursor hlast e he hlow hhigh haccepts
  have hbound : last ≤ bound :=
    Nat.le_trans (hserved.le_last last (List.mem_of_getLast? hlast)) hserved.last_le
  exact hserved.covered cursor hcursor e (hwrites.complete.appended e he) hlow
    (Nat.le_trans hhigh hbound) haccepts

/-- The subscriber registers between the append of seq 1 and its broadcast, and
seq 2 is appended between its snapshot and its reading of the file. -/
def overlappingHandoff : List SystemEvent :=
  [.emit "node-a" bareEnvelope ⟨1, 1, 1⟩ .none, .subscribe (fromCursor 0) 0, .broadcast,
    .snapshot 0, .emit "node-b" lifecycleEnvelope ⟨2, 2, 2⟩ .none] ++
    List.replicate 6 (.read 0) ++ [.broadcast, .receive 0, .receive 0,
    .emit "node-a" bareEnvelope ⟨3, 3, 3⟩ .none, .broadcast, .receive 0]

def handoffScenario : Option (World EventEnvelope × Wal × System × Subscriber) := do
  let world ← run (World.quietStep sampleMessages) (World.empty 0)
    [.openLog ⟨"wal", 0, 1000, 10⟩ 0]
  let w ← world.wal
  let s ← run (System.handoffStep sampleMessages "cluster-a") (System.start world)
    overlappingHandoff
  let sub ← s.subs[0]?
  some (world, w, s, sub)

theorem handoffScenario_increasing_complete :
    ∃ world w s sub, handoffScenario = some (world, w, s, sub) ∧ sub.phase = .live ∧
      sub.sentSeqs = [1, 2, 3] ∧ sub.sentSeqs.Pairwise (· < ·) ∧
      ∀ e ∈ s.writer.world.appended, 0 < e.seq → e.seq ≤ 3 →
        sub.request.accepts e.envelope = true →
        (e.seq, stampCursor "cluster-a" e.envelope e.seq sub.request.streamName) ∈ sub.sent := by
  have hvalues : handoffScenario.map (fun (_, _, _, sub) =>
      (sub.phase, sub.drops, sub.sentSeqs, sub.request.cursor)) =
      some (.live, 0, [1, 2, 3], some ⟨"cluster-a", "", 0⟩) := by
    decide +kernel
  obtain ⟨⟨world, w, s, sub⟩, hscenario, hvalues⟩ := Option.map_eq_some_iff.mp hvalues
  simp only [Prod.mk.injEq] at hvalues
  obtain ⟨hphase, hdrops, hseqs, hcursor⟩ := hvalues
  refine ⟨world, w, s, sub, hscenario, hphase, hseqs, ?_⟩
  simp only [handoffScenario, bind, Option.bind_eq_some_iff] at hscenario
  obtain ⟨world', hopened, w', hwal, s', hrun, sub', hsub, heq⟩ := hscenario
  cases heq
  obtain ⟨hincreasing, hcovered⟩ := handoff_increasing_complete hopened hwal hrun hsub hdrops
  exact ⟨hincreasing, hcovered _ 3 hcursor (by rw [hseqs]; rfl)⟩

end KloudlensAggregator.Aggregator
