import KloudlensAggregator.Aggregator.CursorStore
import KloudlensAggregator.ClusterPeers.Advertise
import KloudlensAggregator.Foundation.Run

/-!
# The fan-in

One goroutine per agent and stream receives envelopes, saves their cursors and
puts them on the merge channel without waiting; the writer takes them off the
channel and folds or emits them; the cursor file is flushed by a third party.
A crash is a run that ends.

Nothing ties the flushed cursor to what the writer has done.  The property below
says that the cursor file covers no received envelope that is still unhandled; it
holds when no flush writes a cursor that covers an envelope on its way, and no
envelope finds the channel full.
-/

namespace KloudlensAggregator.Aggregator

open KloudlensAggregator.Foundation
open KloudlensAggregator.ClusterPeers

structure Delivery where
  agent : String
  stream : String
  envelope : EventEnvelope
  deriving DecidableEq, Repr

inductive LoopPhase where
  | receiving
  | received (env : EventEnvelope)
  | saved (env : EventEnvelope)
  deriving DecidableEq, Repr

structure StreamLoop where
  agent : String
  stream : String
  phase : LoopPhase
  deriving DecidableEq, Repr

def StreamLoop.held (l : StreamLoop) : Option Delivery :=
  match l.phase with
  | .receiving => none
  | .received env => some ⟨l.agent, l.stream, env⟩
  | .saved env => some ⟨l.agent, l.stream, env⟩

structure Peers where
  registry : Registry
  xnodeJoins : Nat
  xnodeMisses : Nat
  vipJoins : Nat

namespace Peers

def foldAdvertise (p : Peers) (now : Int) (env : EventEnvelope) : Option Peers :=
  match env.payload with
  | .intent ev =>
      if ev.kind ≠ kindListenerAdvertise then none
      else
        match listenerFromAdvertise ev with
        | some l => some { p with registry := p.registry.observe now l }
        | none => some p
  | _ => none

def foldWithdraw (p : Peers) (env : EventEnvelope) : Option Peers :=
  match env.payload with
  | .intent ev =>
      if ev.kind ≠ kindListenerWithdraw then none
      else
        match listenerFromWithdraw ev with
        | some l => some { p with registry := p.registry.remove l }
        | none => some p
  | _ => none

def joinPeer (p : Peers) (resolvers : Resolvers) (now : Int) (env : EventEnvelope) :
    Option IntentEvent × Peers :=
  match env.payload with
  | .intent ev =>
      if ev.kind ≠ kindNetworkExchange then (none, p)
      else if attrOf ev attrPeer = "" then (none, p)
      else if (ev.attributes.lookup attrPeerPID).isSome then (none, p)
      else
        match p.registry.join resolvers (attrOf ev attrPeer) now with
        | none => (none, { p with xnodeMisses := p.xnodeMisses + 1 })
        | some (l, how) =>
            (some (peerEdge ev l how (metaOf ev).nodeName),
              { p with
                xnodeJoins := p.xnodeJoins + 1
                vipJoins := if how = .serviceVIP then p.vipJoins + 1 else p.vipJoins })
  | _ => (none, p)

def write (p : Peers) (resolvers : Resolvers) (now : Int) (env : EventEnvelope) :
    List EventEnvelope × Peers :=
  match p.foldAdvertise now env with
  | some folded => ([], folded)
  | none =>
      match p.foldWithdraw env with
      | some folded => ([], folded)
      | none =>
          let out := p.joinPeer resolvers now env
          (env :: (out.1.map fun edge => ⟨none, .intent edge⟩).toList, out.2)

end Peers

/-- The goroutines between the agents and the writer.  `received`, `handled` and
`dropped` are what happened so far; the counters of `Stats` are their lengths. -/
structure FanIn where
  capacity : Nat
  store : CursorStore
  file : CursorFile
  loops : List StreamLoop
  ch : List Delivery
  writing : Option Delivery
  peers : Peers
  emitted : List (String × EventEnvelope)
  received : List Delivery
  handled : List Delivery
  dropped : List Delivery

inductive FanInEvent where
  /-- `startEndpoint`, for one stream. -/
  | start (agent stream : String)
  | recv (i : Nat) (env : EventEnvelope)
  | save (i : Nat)
  | enqueue (i : Nat)
  | dequeue
  /-- The rest of the turn of the writer, with the clock and the indexes it sees. -/
  | write (resolvers : Resolvers) (now : Int)
  | flush (order : List (Sigma fun _ : String => PersistedCursor))

namespace FanIn

def new (queueDepth : Nat) (ttl : Int) (file : CursorFile) : FanIn :=
  { capacity := if queueDepth = 0 then 1024 else queueDepth
    store := CursorStore.newFile file
    file := file
    loops := []
    ch := []
    writing := none
    peers := ⟨newRegistry ttl, 0, 0, 0⟩
    emitted := []
    received := []
    handled := []
    dropped := [] }

def setPhase (s : FanIn) (i : Nat) (l : StreamLoop) (phase : LoopPhase) : FanIn :=
  { s with loops := s.loops.set i { l with phase := phase } }

def offer (s : FanIn) (d : Delivery) : FanIn :=
  if s.ch.length < s.capacity then { s with ch := s.ch ++ [d] }
  else { s with dropped := s.dropped ++ [d] }

def finish (s : FanIn) (d : Delivery) (resolvers : Resolvers) (now : Int) : FanIn :=
  let out := s.peers.write resolvers now d.envelope
  { s with
    writing := none
    peers := out.2
    emitted := s.emitted ++ out.1.map fun env => (d.agent, env)
    handled := s.handled ++ [d] }

def step (s : FanIn) : FanInEvent → Option FanIn
  | .start agent stream => some { s with loops := s.loops ++ [⟨agent, stream, .receiving⟩] }
  | .recv i env =>
      s.loops[i]?.bind fun l =>
        match l.phase with
        | .receiving =>
            some { s.setPhase i l (.received env) with
              received := s.received ++ [⟨l.agent, l.stream, env⟩] }
        | _ => none
  | .save i =>
      s.loops[i]?.bind fun l =>
        match l.phase with
        | .received env =>
            some { s.setPhase i l (.saved env) with
              store := s.store.save l.agent l.stream env.cursor }
        | _ => none
  | .enqueue i =>
      s.loops[i]?.bind fun l =>
        match l.phase with
        | .saved env => some ((s.setPhase i l .receiving).offer ⟨l.agent, l.stream, env⟩)
        | _ => none
  | .dequeue =>
      match s.writing, s.ch with
      | none, d :: rest => some { s with writing := some d, ch := rest }
      | _, _ => none
  | .write resolvers now => s.writing.map fun d => s.finish d resolvers now
  | .flush order =>
      if order.Perm s.store.data.entries then
        let out := s.store.flush s.file order
        some { s with store := out.1, file := out.2 }
      else none

def inFlight (s : FanIn) : List Delivery :=
  s.loops.filterMap StreamLoop.held ++ s.ch ++ s.writing.toList

/-- The seq the file stores for a pair, as an aggregator that opens it resumes from. -/
def storedSeq (s : FanIn) (agent stream : String) : Option Nat :=
  ((CursorStore.newFile s.file).load agent stream).map Cursor.seq

/-- The cursor file covers a delivery: a new `Subscribe` would not ask for it again. -/
def Covers (s : FanIn) (d : Delivery) : Prop :=
  ∃ c ∈ d.envelope.cursor, ∃ stored ∈ s.storedSeq d.agent d.stream, c.seq ≤ stored

instance (s : FanIn) (d : Delivery) : Decidable (s.Covers d) :=
  inferInstanceAs (Decidable (∃ c ∈ d.envelope.cursor, ∃ stored ∈ _, c.seq ≤ stored))

/-- No received envelope that the file covers is unhandled. -/
def Lossless (s : FanIn) : Prop := ∀ d ∈ s.received, s.Covers d → d ∈ s.handled

instance (s : FanIn) : Decidable s.Lossless :=
  inferInstanceAs (Decidable (∀ d ∈ s.received, s.Covers d → d ∈ s.handled))

/-! ## What one step does -/

variable {s t : FanIn} {d : Delivery}

theorem recv_of_step {i : Nat} {env : EventEnvelope} (h : s.step (.recv i env) = some t) :
    ∃ l, s.loops[i]? = some l ∧ l.phase = .receiving ∧
      t = { s.setPhase i l (.received env) with
        received := s.received ++ [⟨l.agent, l.stream, env⟩] } := by
  simp only [step, Option.bind_eq_some_iff] at h
  obtain ⟨l, hl, h⟩ := h
  split at h
  · rename_i hphase
    cases h
    exact ⟨l, hl, hphase, rfl⟩
  · cases h

theorem save_of_step {i : Nat} (h : s.step (.save i) = some t) :
    ∃ l env, s.loops[i]? = some l ∧ l.phase = .received env ∧
      t = { s.setPhase i l (.saved env) with
        store := s.store.save l.agent l.stream env.cursor } := by
  simp only [step, Option.bind_eq_some_iff] at h
  obtain ⟨l, hl, h⟩ := h
  split at h
  · rename_i env hphase
    cases h
    exact ⟨l, env, hl, hphase, rfl⟩
  · cases h

theorem enqueue_of_step {i : Nat} (h : s.step (.enqueue i) = some t) :
    ∃ l env, s.loops[i]? = some l ∧ l.phase = .saved env ∧
      t = (s.setPhase i l .receiving).offer ⟨l.agent, l.stream, env⟩ := by
  simp only [step, Option.bind_eq_some_iff] at h
  obtain ⟨l, hl, h⟩ := h
  split at h
  · rename_i env hphase
    cases h
    exact ⟨l, env, hl, hphase, rfl⟩
  · cases h

theorem dequeue_of_step (h : s.step .dequeue = some t) :
    ∃ d rest, s.writing = none ∧ s.ch = d :: rest ∧
      t = { s with writing := some d, ch := rest } := by
  simp only [step] at h
  split at h
  · rename_i d rest hwriting hch
    cases h
    exact ⟨d, rest, hwriting, hch, rfl⟩
  · cases h

theorem flush_of_step {order : List (Sigma fun _ : String => PersistedCursor)}
    (h : s.step (.flush order) = some t) :
    (s.store.dirty = false ∧ t = s) ∨
      (s.store.dirty = true ∧ order.Perm s.store.data.entries ∧
        t = { s with
          store := { s.store with dirty := false }
          file := some (CursorStore.payload order) }) := by
  simp only [step, CursorStore.flush] at h
  split at h
  · rename_i hperm
    cases hdirty : s.store.dirty with
    | false =>
        simp only [hdirty, Bool.false_eq_true, if_false, Option.some.injEq] at h
        exact Or.inl ⟨rfl, h.symm⟩
    | true =>
        simp only [hdirty, if_true, Option.some.injEq] at h
        exact Or.inr ⟨rfl, hperm, h.symm⟩
  · cases h

/-! ## Envelopes on their way -/

theorem mem_inFlight :
    d ∈ s.inFlight ↔ (∃ l ∈ s.loops, l.held = some d) ∨ d ∈ s.ch ∨ s.writing = some d := by
  simp [inFlight, List.mem_filterMap, Option.mem_toList]

theorem mem_inFlight_setPhase_self {i : Nat} {l : StreamLoop} (phase : LoopPhase)
    (hl : s.loops[i]? = some l) (hheld : ({ l with phase := phase } : StreamLoop).held = some d) :
    d ∈ (s.setPhase i l phase).inFlight := by
  obtain ⟨hi, -⟩ := List.getElem?_eq_some_iff.mp hl
  exact mem_inFlight.mpr (Or.inl ⟨_, List.mem_set hi _, hheld⟩)

theorem mem_inFlight_setPhase {i : Nat} {l : StreamLoop} (phase : LoopPhase)
    (hl : s.loops[i]? = some l) (hd : d ∈ s.inFlight) :
    l.held = some d ∨ d ∈ (s.setPhase i l phase).inFlight := by
  rcases mem_inFlight.mp hd with ⟨m, hmem, hheld⟩ | hrest
  · obtain ⟨j, hj⟩ := List.getElem?_of_mem hmem
    by_cases hij : i = j
    · subst hij
      rw [hl] at hj
      cases hj
      exact Or.inl hheld
    · have hset : (s.loops.set i { l with phase := phase })[j]? = some m := by
        rw [List.getElem?_set_ne hij, hj]
      exact Or.inr (mem_inFlight.mpr (Or.inl ⟨m, List.mem_of_getElem? hset, hheld⟩))
  · exact Or.inr (mem_inFlight.mpr (Or.inr hrest))

/-! ## Steps that keep the cursor file behind the writer -/

/-- An agent sends what lies behind the persisted cursor, or repeats what was
handled; an envelope with a cursor finds room in the channel; a changed store is
flushed while the cursors it writes cover no envelope that is on its way for the first
time. -/
def careful (s : FanIn) : FanInEvent → Bool
  | .recv i env =>
      s.loops[i]?.all fun l =>
        decide (s.Covers ⟨l.agent, l.stream, env⟩ → ⟨l.agent, l.stream, env⟩ ∈ s.handled)
  | .enqueue i =>
      (s.loops[i]?.bind StreamLoop.held).all fun d =>
        d.envelope.cursor.isNone || decide (s.ch.length < s.capacity)
  | .flush order =>
      !s.store.dirty || s.inFlight.all fun d =>
        decide (Covers { s with file := some (CursorStore.payload order) } d → d ∈ s.handled)
  | _ => true

def Tracked (s : FanIn) : Prop :=
  ∀ d ∈ s.received, d.envelope.cursor.isSome = true → d ∈ s.handled ∨ d ∈ s.inFlight

theorem Lossless.mono (h : s.Lossless) (hfile : t.file = s.file)
    (hreceived : t.received = s.received) (hhandled : ∀ d ∈ s.handled, d ∈ t.handled) :
    t.Lossless := by
  intro d hd hcovers
  rw [hreceived] at hd
  refine hhandled d (h d hd ?_)
  simpa only [Covers, storedSeq, hfile] using hcovers

theorem Tracked.mono (h : s.Tracked) (hreceived : t.received = s.received)
    (hkept : ∀ d, d.envelope.cursor.isSome = true → d ∈ s.handled ∨ d ∈ s.inFlight →
      d ∈ t.handled ∨ d ∈ t.inFlight) : t.Tracked := by
  intro d hd hcursor
  rw [hreceived] at hd
  exact hkept d hcursor (h d hd hcursor)

private theorem tracked_recv {i : Nat} {env : EventEnvelope} (h : s.Tracked)
    (hstep : s.step (.recv i env) = some t) : t.Tracked := by
  obtain ⟨l, hl, hphase, rfl⟩ := recv_of_step hstep
  intro d hd hcursor
  rcases List.mem_append.mp hd with hold | hnew
  · refine (h d hold hcursor).imp_right fun hflight => ?_
    rcases mem_inFlight_setPhase (.received env) hl hflight with hheld | hkept
    · simp [StreamLoop.held, hphase] at hheld
    · exact hkept
  · rw [List.mem_singleton.mp hnew]
    exact Or.inr (mem_inFlight_setPhase_self (.received env) hl rfl)

private theorem lossless_recv {i : Nat} {env : EventEnvelope} (h : s.Lossless)
    (hcareful : s.careful (.recv i env) = true) (hstep : s.step (.recv i env) = some t) :
    t.Lossless := by
  obtain ⟨l, hl, hphase, rfl⟩ := recv_of_step hstep
  intro d hd hcovers
  rcases List.mem_append.mp hd with hold | hnew
  · exact h d hold hcovers
  · simp only [careful, hl, Option.all_some, decide_eq_true_eq] at hcareful
    rw [List.mem_singleton.mp hnew] at hcovers ⊢
    exact hcareful hcovers

private theorem tracked_save {i : Nat} (h : s.Tracked) (hstep : s.step (.save i) = some t) :
    t.Tracked := by
  obtain ⟨l, env, hl, hphase, rfl⟩ := save_of_step hstep
  refine h.mono rfl fun d _ hd => hd.imp_right fun hflight => ?_
  rcases mem_inFlight_setPhase (.saved env) hl hflight with hheld | hkept
  · simp only [StreamLoop.held, hphase] at hheld
    exact mem_inFlight_setPhase_self (.saved env) hl hheld
  · exact hkept

private theorem tracked_enqueue {i : Nat} (h : s.Tracked) (hcareful : s.careful (.enqueue i) = true)
    (hstep : s.step (.enqueue i) = some t) : t.Tracked := by
  obtain ⟨l, env, hl, hphase, rfl⟩ := enqueue_of_step hstep
  have hheld : l.held = some ⟨l.agent, l.stream, env⟩ := by
    simp [StreamLoop.held, hphase]
  simp only [careful, hl, Option.bind_some, hheld, Option.all_some, Bool.or_eq_true,
    Option.isNone_iff_eq_none, decide_eq_true_eq] at hcareful
  unfold offer
  split
  · refine h.mono rfl fun d _ hd => hd.imp_right fun hflight => ?_
    rcases mem_inFlight_setPhase .receiving hl hflight with hown | hkept
    · rw [hheld] at hown
      cases hown
      simp [mem_inFlight]
    · rcases mem_inFlight.mp hkept with hloop | hch | hwriting
      · exact mem_inFlight.mpr (Or.inl hloop)
      · exact mem_inFlight.mpr (Or.inr (Or.inl (List.mem_append_left _ hch)))
      · exact mem_inFlight.mpr (Or.inr (Or.inr hwriting))
  · rename_i hfull
    refine h.mono rfl fun d hcursor hd => hd.imp_right fun hflight => ?_
    rcases mem_inFlight_setPhase .receiving hl hflight with hown | hkept
    · rw [hheld] at hown
      cases hown
      rcases hcareful with hnone | hroom
      · simp [hnone] at hcursor
      · exact absurd hroom hfull
    · exact hkept

private theorem tracked_dequeue (h : s.Tracked) (hstep : s.step .dequeue = some t) : t.Tracked := by
  obtain ⟨d', rest, hwriting, hch, rfl⟩ := dequeue_of_step hstep
  refine h.mono rfl fun d _ hd => hd.imp_right fun hflight => ?_
  rw [mem_inFlight, hwriting, hch] at hflight
  rw [mem_inFlight]
  rcases hflight with hloop | hmem | hnone
  · exact Or.inl hloop
  · rcases List.mem_cons.mp hmem with rfl | hrest
    · exact Or.inr (Or.inr rfl)
    · exact Or.inr (Or.inl hrest)
  · cases hnone

private theorem tracked_finish {resolvers : Resolvers} {now : Int} (h : s.Tracked)
    (hwriting : s.writing = some d) : (s.finish d resolvers now).Tracked := by
  refine h.mono rfl fun d' _ hd => ?_
  rcases hd with hhandled | hflight
  · exact Or.inl (List.mem_append_left _ hhandled)
  · rcases mem_inFlight.mp hflight with hloop | hch | heq
    · exact Or.inr (mem_inFlight.mpr (Or.inl hloop))
    · exact Or.inr (mem_inFlight.mpr (Or.inr (Or.inl hch)))
    · rw [hwriting] at heq
      cases heq
      exact Or.inl (List.mem_append_right _ List.mem_cons_self)

private theorem lossless_flush {order : List (Sigma fun _ : String => PersistedCursor)}
    (h : s.Lossless) (htracked : s.Tracked) (hcareful : s.careful (.flush order) = true)
    (hstep : s.step (.flush order) = some t) : t.Lossless := by
  rcases flush_of_step hstep with ⟨-, rfl⟩ | ⟨hdirty, -, rfl⟩
  · exact h
  · rintro d hd ⟨c, hc, hcovers⟩
    simp only [careful, hdirty, Bool.not_true, Bool.false_or, List.all_eq_true,
      decide_eq_true_eq] at hcareful
    have hcursor : d.envelope.cursor = some c := hc
    rcases htracked d hd (by rw [hcursor]; rfl) with hhandled | hflight
    · exact hhandled
    · exact hcareful d hflight ⟨c, hc, hcovers⟩

private theorem careful_step {e : FanInEvent} (h : s.Tracked ∧ s.Lossless)
    (hcareful : s.careful e = true) (hstep : s.step e = some t) : t.Tracked ∧ t.Lossless := by
  obtain ⟨htracked, hlossless⟩ := h
  cases e with
  | start agent stream =>
      cases hstep
      refine ⟨htracked.mono rfl fun d _ hd => hd.imp_right fun hflight => ?_, hlossless⟩
      rcases mem_inFlight.mp hflight with ⟨l, hmem, hheld⟩ | hrest
      · exact mem_inFlight.mpr (Or.inl ⟨l, List.mem_append_left _ hmem, hheld⟩)
      · exact mem_inFlight.mpr (Or.inr hrest)
  | recv i env => exact ⟨tracked_recv htracked hstep, lossless_recv hlossless hcareful hstep⟩
  | save i =>
      refine ⟨tracked_save htracked hstep, ?_⟩
      obtain ⟨l, env, -, -, rfl⟩ := save_of_step hstep
      exact hlossless
  | enqueue i =>
      refine ⟨tracked_enqueue htracked hcareful hstep, ?_⟩
      obtain ⟨l, env, -, -, rfl⟩ := enqueue_of_step hstep
      unfold offer
      split <;> exact hlossless
  | dequeue =>
      refine ⟨tracked_dequeue htracked hstep, ?_⟩
      obtain ⟨d, rest, -, -, rfl⟩ := dequeue_of_step hstep
      exact hlossless
  | write resolvers now =>
      obtain ⟨d, hwriting, rfl⟩ := Option.map_eq_some_iff.mp hstep
      refine ⟨tracked_finish htracked hwriting, ?_⟩
      exact hlossless.mono rfl rfl fun d' hd' => List.mem_append_left _ hd'
  | flush order =>
      refine ⟨?_, lossless_flush hlossless htracked hcareful hstep⟩
      rcases flush_of_step hstep with ⟨-, rfl⟩ | ⟨-, -, rfl⟩ <;> exact htracked

theorem lossless_of_careful (queueDepth : Nat) (ttl : Int) (file : CursorFile)
    (events : List FanInEvent) (s : FanIn)
    (hrun : run (restrict careful step) (new queueDepth ttl file) events = some s) :
    s.Lossless := by
  have hinvariant := run_invariant (fun s : FanIn => s.Tracked ∧ s.Lossless)
    (fun s e t h hstep =>
      careful_step h (restrict_eq_some.mp hstep).1 (restrict_eq_some.mp hstep).2)
    ⟨fun d hd => absurd hd List.not_mem_nil, fun d hd => absurd hd List.not_mem_nil⟩ hrun
  exact hinvariant.2

/-! ## One agent and one stream -/

def numbered (seq : Nat) : EventEnvelope := ⟨some ⟨"node-a", "intent", seq⟩, .other⟩

def savedOrder (seq : Nat) : List (Sigma fun _ : String => PersistedCursor) :=
  [⟨keyOf "agent-a" "intent", ⟨"node-a", "intent", seq⟩⟩]

def flushedEarly : List FanInEvent :=
  [.start "agent-a" "intent", .recv 0 (numbered 1), .save 0, .flush (savedOrder 1)]

def flushedAfterDrop : List FanInEvent :=
  [.start "agent-a" "intent", .recv 0 (numbered 1), .save 0, .enqueue 0, .recv 0 (numbered 2),
    .save 0, .enqueue 0, .dequeue, .write ⟨none, none, none⟩ 0, .flush (savedOrder 2)]

/-- The flush waits for the writer, but not for what comes from another agent. -/
def flushedAfterWrite : List FanInEvent :=
  [.start "agent-a" "intent", .start "agent-b" "intent", .recv 0 (numbered 1), .save 0,
    .enqueue 0, .recv 1 (numbered 1), .dequeue, .write ⟨none, none, none⟩ 0,
    .flush (savedOrder 1)]

theorem lossy_flushes :
    (∃ s, run step (new 1 0 none) flushedEarly = some s ∧ ¬ s.Lossless) ∧
      ∃ s, run step (new 1 0 none) flushedAfterDrop = some s ∧ s.inFlight = [] ∧
        ¬ s.Lossless := by
  have hearly : (run step (new 1 0 none) flushedEarly).map (fun s => decide s.Lossless) =
      some false := by
    decide +kernel
  have hdrop : (run step (new 1 0 none) flushedAfterDrop).map
      (fun s => (s.inFlight, decide s.Lossless)) = some ([], false) := by
    decide +kernel
  obtain ⟨s, hrun, hlossy⟩ := Option.map_eq_some_iff.mp hearly
  obtain ⟨t, hrun', hdropped⟩ := Option.map_eq_some_iff.mp hdrop
  rw [Prod.mk.injEq] at hdropped
  exact ⟨⟨s, hrun, of_decide_eq_false hlossy⟩, t, hrun', hdropped.1,
    of_decide_eq_false hdropped.2⟩

theorem lossless_flushedAfterWrite :
    ∃ s, run (restrict careful step) (new 1 0 none) flushedAfterWrite = some s ∧
      s.storedSeq "agent-a" "intent" = some 1 ∧ s.Lossless := by
  have hvalues : (run (restrict careful step) (new 1 0 none) flushedAfterWrite).map
      (fun s => s.storedSeq "agent-a" "intent") = some (some 1) := by
    decide +kernel
  obtain ⟨s, hrun, hstored⟩ := Option.map_eq_some_iff.mp hvalues
  exact ⟨s, hrun, hstored, lossless_of_careful 1 0 none flushedAfterWrite s hrun⟩

end FanIn

end KloudlensAggregator.Aggregator
