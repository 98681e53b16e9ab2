import KloudlensAggregator.Aggregator.Stream

/-!
# A client over many calls

A downstream client comes back with the seq of the last envelope it has got, as
often as its connection breaks.  Each call sends a stretch of the log, of which
the client gets the beginning; put together, what the client gets is one stretch
again, so that nothing is lost between two calls and nothing comes twice.  The
one condition is that no call registers with a cursor that is ahead of the
broadcasts.
-/

namespace KloudlensAggregator.Aggregator

open KloudlensAggregator.Foundation
open KloudlensAggregator.Envwal

variable {pj : ProtoJson EventEnvelope} {aggregatorId : String} {s t : System}
  {log : List (Entry EventEnvelope)} {w : Wal} {upTo first bound : Nat} {sub : Subscriber}

/-! ## All the calls of a run -/

def System.settles (s : System) : SystemEvent → Bool
  | .subscribe request _ => s.startOf request ≤ s.broadcastSeq
  | _ => true

def System.settledStep (pj : ProtoJson EventEnvelope) (aggregatorId : String) :
    System → SystemEvent → Option System :=
  restrict System.settles (System.timedStep pj aggregatorId)

theorem System.subscribe_of_step {event : SystemEvent} {k : Nat}
    (h : s.step pj aggregatorId event = some t) (hk : s.subs[k]? = none)
    (hnew : t.subs[k]? = some sub) :
    k = s.subs.length ∧ ∃ request buf, event = .subscribe request buf := by
  have hbound := List.getElem?_eq_none_iff.mp hk
  have hgrown := (List.getElem?_eq_some_iff.mp hnew).1
  cases event with
  | subscribe request buf =>
      cases h
      simp only [List.length_append, List.length_singleton] at hgrown
      exact ⟨by omega, request, buf, rfl⟩
  | emit agent env clock faults =>
      simp only [System.step] at h
      split at h
      · cases h
      · cases h
        exact absurd hgrown (Nat.not_lt_of_le hbound)
  | broadcast =>
      obtain ⟨ev, -, rfl⟩ := Option.map_eq_some_iff.mp h
      simp only [List.length_map] at hgrown
      omega
  | gc now =>
      obtain ⟨w, -, rfl⟩ := Option.map_eq_some_iff.mp h
      exact absurd hgrown (Nat.not_lt_of_le hbound)
  | snapshot i =>
      obtain ⟨old, -, h⟩ := Option.bind_eq_some_iff.mp h
      split at h
      · cases h
        simp only [System.update, List.length_set] at hgrown
        omega
      · cases h
  | read i =>
      obtain ⟨old, -, h⟩ := Option.bind_eq_some_iff.mp h
      split at h
      · cases h
        simp only [System.update, List.length_set] at hgrown
        omega
      · cases h
  | receive i =>
      obtain ⟨old, -, h⟩ := Option.bind_eq_some_iff.mp h
      split at h
      · cases h
        simp only [System.update, List.length_set] at hgrown
        omega
      · cases h
  | disconnect i =>
      obtain ⟨old, -, rfl⟩ := Option.map_eq_some_iff.mp h
      simp only [System.update, List.length_set] at hgrown
      omega

/-- Every call streams, and one with a cursor from behind it. -/
structure System.Serving (pj : ProtoJson EventEnvelope) (aggregatorId : String) (s : System) :
    Prop where
  records : ∃ w log upTo, s.Records pj w log upTo
  streaming : ∀ k sub, s.subs[k]? = some sub → ∃ first,
    s.Streaming pj aggregatorId k sub.request first ∧
      ∀ cursor, sub.request.cursor = some cursor → first = cursor.seq

theorem System.Serving.step (h : s.Serving pj aggregatorId) {event : SystemEvent}
    (hstep : s.settledStep pj aggregatorId event = some t) : t.Serving pj aggregatorId := by
  obtain ⟨w, log, upTo, hrecords⟩ := h.records
  obtain ⟨hsettles, htimed⟩ := restrict_eq_some.mp hstep
  refine ⟨hrecords.step htimed, fun k sub hsub => ?_⟩
  cases hk : s.subs[k]? with
  | none =>
      obtain ⟨-, hlogged⟩ := restrict_eq_some.mp htimed
      obtain ⟨-, hstep⟩ := restrict_eq_some.mp hlogged
      obtain ⟨rfl, request, buf, rfl⟩ := System.subscribe_of_step hstep hk hsub
      have hstreaming := hrecords.subscribe (of_decide_eq_true hsettles) htimed
      obtain ⟨w', log', upTo', sub', hrecords', hsub', hrequest, hstreams⟩ := hstreaming
      rw [hsub] at hsub'
      cases hsub'
      refine ⟨s.startOf request, ⟨w', log', upTo', sub, hrecords', hsub, rfl, hstreams⟩, ?_⟩
      intro cursor hcursor
      rw [hrequest] at hcursor
      rw [System.startOf, hcursor]
  | some old =>
      obtain ⟨first, hstreaming, hfirst⟩ := h.streaming k old hk
      obtain ⟨w', log', upTo', sub', hrecords', hsub', hrequest, hstreams⟩ :=
        hstreaming.step htimed
      rw [hsub] at hsub'
      cases hsub'
      exact ⟨first, ⟨w', log', upTo', sub, hrecords', hsub, rfl, hstreams⟩, hrequest ▸ hfirst⟩

theorem System.Serving.run {world : World EventEnvelope} (hretained : world.Retained pj log)
    (hwal : world.wal = some w) {events : List SystemEvent}
    (hrun : Foundation.run (System.settledStep pj aggregatorId) (System.start world) events =
      some s) : s.Serving pj aggregatorId :=
  run_invariant (System.Serving pj aggregatorId) (fun _ _ _ h hstep => h.step hstep)
    ⟨⟨w, log, _, .start hretained hwal⟩, by simp [System.start]⟩ hrun

/-! ## What a client gets -/

def resumeSeqOf (seq : Nat) (got : List (Nat × EventEnvelope)) : Nat :=
  (got.getLast?.map Prod.fst).getD seq

structure Visit where
  call : Nat
  got : List (Nat × EventEnvelope)

/-- The client asks for the same streams with the same filter each time, behind the last
seq it has got, and gets the beginning of what the call sends. -/
def IsClient (s : System) (streams : List String) (filter : Option EventFilter) :
    Nat → List Visit → Prop
  | _, [] => True
  | seq, visit :: visits =>
      (∃ sub cursor, s.subs[visit.call]? = some sub ∧ sub.drops = 0 ∧
        sub.request = ⟨streams, some cursor, filter⟩ ∧ cursor.seq = seq ∧
        visit.got <+: sub.sent) ∧
      IsClient s streams filter (resumeSeqOf seq visit.got) visits

private theorem eq_replayOf_of_initial (hdense : Dense pj log) {request : SubscribeRequest}
    {got : List (Nat × EventEnvelope)} (hbound : bound ≤ log.length)
    (hgot : got <+: request.replayOf aggregatorId (slice log first bound)) :
    got = request.replayOf aggregatorId (slice log first (resumeSeqOf first got)) ∧
      first ≤ resumeSeqOf first got ∧ resumeSeqOf first got ≤ max first bound := by
  induction bound with
  | zero =>
      rw [slice_eq_nil log (Nat.zero_le first)] at hgot
      obtain rfl := List.prefix_nil.mp hgot
      rw [show resumeSeqOf first [] = first from rfl, slice_eq_nil log (Nat.le_refl first)]
      exact ⟨rfl, Nat.le_refl _, Nat.le_max_left _ _⟩
  | succ bound ih =>
      by_cases hempty : bound + 1 ≤ first
      · rw [slice_eq_nil log hempty, ← slice_eq_nil log (Nat.le_of_succ_le hempty)] at hgot
        obtain ⟨heq, hlow, hhigh⟩ := ih (Nat.le_of_succ_le hbound) hgot
        exact ⟨heq, hlow, by omega⟩
      · have hget := List.getElem?_eq_getElem (show bound < log.length from hbound)
        have hseq := hdense.seq hget
        have hlast := slice_succ (show first ≤ bound by omega) hget
        by_cases haccepts : request.accepts (log[bound].envelope) = true
        · rw [hlast, SubscribeRequest.replayOf_concat_of_accepts _ haccepts,
            List.prefix_concat_iff] at hgot
          rcases hgot with rfl | hgot
          · have hresume : resumeSeqOf first (request.replayOf aggregatorId
                (slice log first bound) ++ [(log[bound].seq, stampCursor aggregatorId
                  log[bound].envelope log[bound].seq request.streamName)]) = bound + 1 := by
              rw [resumeSeqOf, List.getLast?_concat]
              exact hseq
            rw [hresume, hlast, SubscribeRequest.replayOf_concat_of_accepts _ haccepts]
            exact ⟨rfl, by omega, by omega⟩
          · obtain ⟨heq, hlow, hhigh⟩ := ih (Nat.le_of_succ_le hbound) hgot
            exact ⟨heq, hlow, by omega⟩
        · rw [hlast, SubscribeRequest.replayOf_concat_of_refuses _ haccepts] at hgot
          obtain ⟨heq, hlow, hhigh⟩ := ih (Nat.le_of_succ_le hbound) hgot
          exact ⟨heq, hlow, by omega⟩

theorem System.Serving.visit (h : s.Serving pj aggregatorId) {streams : List String}
    {filter : Option EventFilter} {seq : Nat} {visit : Visit} {visits : List Visit}
    (hkept : ∀ d ∈ s.writer.world.trimmed, d.seq ≤ seq)
    (hclient : IsClient s streams filter seq (visit :: visits)) :
    visit.got = SubscribeRequest.replayOf aggregatorId ⟨streams, none, filter⟩
      (slice s.journal seq (resumeSeqOf seq visit.got)) ∧
    seq ≤ resumeSeqOf seq visit.got ∧
    resumeSeqOf seq visit.got ≤ max seq s.journal.length ∧
    ∀ sub, s.subs[visit.call]? = some sub → visit.got = sub.sent → sub.phase = .live →
      sub.ch = [] → s.inflight = none →
      visit.got = SubscribeRequest.replayOf aggregatorId ⟨streams, none, filter⟩
        (slice s.journal seq s.journal.length) := by
  obtain ⟨⟨sub, cursor, hsub, hdrops, hrequest, hseq, hgot⟩, -⟩ := hclient
  obtain ⟨first, ⟨w, log, upTo, sub', hrecords, hsub', -, hstreams⟩, hfirst⟩ :=
    h.streaming visit.call sub hsub
  rw [hsub] at hsub'
  cases hsub'
  obtain rfl : first = seq := (hfirst cursor (by rw [hrequest])).trans hseq
  obtain ⟨bound, hstretch, hcaught⟩ :=
    (hstreams hdrops).stretch hrecords.upTo_le (.inl hkept)
  have hsent : sub.sent = SubscribeRequest.replayOf aggregatorId ⟨streams, none, filter⟩
      (slice log first bound) := by
    rw [hstretch.sent, hrequest]
    rfl
  rw [hrecords.journal_eq]
  obtain ⟨heq, hlow, hhigh⟩ :=
    eq_replayOf_of_initial hrecords.dense hstretch.bound_le (hsent ▸ hgot)
  have hbound := hstretch.bound_le
  refine ⟨heq, hlow, by omega, ?_⟩
  intro sub' hsub' hall hphase hch hidle
  rw [hsub] at hsub'
  cases hsub'
  have hend := hcaught hphase hch
  rw [hrecords.idle hidle] at hend
  rw [hall, hsent, Nat.le_antisymm hstretch.bound_le hend]

end KloudlensAggregator.Aggregator
