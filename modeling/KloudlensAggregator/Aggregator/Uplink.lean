import KloudlensAggregator.Aggregator.Merge
import KloudlensAggregator.Foundation.Resumption

/-!
# The streams of the agents

`streamLoop` keeps one `Subscribe` open for an agent and a stream: `subscribeOnce` dials,
asks from the stored cursor on and forwards what it receives until something fails, and
the loop waits before it tries again.  The receive loop itself and everything behind it
is the fan-in; here are the connections around it.

What an agent serves is an assumption: envelopes with cursors of increasing seqs, from
the first one behind the cursor of the request on, or from the live tail without one.
-/

namespace KloudlensAggregator.Aggregator

open KloudlensAggregator.Foundation

def EventEnvelope.mark (env : EventEnvelope) : Cursor := env.cursor.getD ⟨"", "", 0⟩

/-- All that an agent will ever serve on a stream. -/
structure AgentLog where
  envelopes : List EventEnvelope
  stamped : ∀ env ∈ envelopes, env.cursor.isSome = true
  increasing : envelopes.Pairwise fun a b => a.mark.seq < b.mark.seq

def AgentLog.marked (log : AgentLog) : MarkedLog EventEnvelope Cursor :=
  ⟨log.envelopes, EventEnvelope.mark, Cursor.seq, log.increasing⟩

inductive UplinkPhase where
  /-- At the head of its loop. -/
  | top
  /-- In `subscribeOnce`, before the connection. -/
  | dialing
  /-- With the cursor that it has loaded. -/
  | subscribing (cursor : Option Cursor)
  /-- In the receive loop, with what the agent sends next. -/
  | streaming (pos : Nat)
  /-- `subscribeOnce` has returned. -/
  | failed
  | waiting (until_ : Int)
  | returned
  deriving DecidableEq, Repr

def UplinkPhase.reader : UplinkPhase → LoopPhase → FollowerPhase EventEnvelope Cursor
  | .subscribing cursor, _ => .resuming cursor
  | .streaming pos, .received env => .holding pos env
  | .streaming pos, _ => .following pos
  | _, _ => .idle

/-- The goroutines of the fan-in with their connections.  `cancelled` are those whose
context is done, `attempts` the calls of `subscribeOnce` with their times, `errors` the
goroutines whose error was counted. -/
structure Uplinks where
  fan : FanIn
  lines : List UplinkPhase
  cancelled : List Nat
  now : Int
  errors : List Nat
  attempts : List (Nat × Int)

inductive UplinkEvent where
  | start (agent stream : String)
  | cancel (i : Nat)
  | pass (time : Int)
  | check (i : Nat)
  /-- `NewClient` and, if it succeeds, the `Load`. -/
  | dial (i : Nat) (ok : Bool)
  /-- `Subscribe`, with the live tail of the agent. -/
  | subscribe (i : Nat) (ok : Bool) (tail : Nat)
  | recv (i : Nat)
  | recvError (i : Nat)
  /-- What follows a call of `subscribeOnce`. -/
  | settle (i : Nat)
  | wake (i : Nat)
  | leave (i : Nat)
  /-- A step of the rest of the fan-in. -/
  | inner (e : FanInEvent)

def backoffOf (configured : Int) : Int := if configured = 0 then 2 * 10 ^ 9 else configured

def FanInEvent.isInner : FanInEvent → Bool
  | .start _ _ => false
  | .recv _ _ => false
  | _ => true

def FanIn.passed (s : FanIn) : List Delivery := s.handled ++ s.writing.toList ++ s.ch

namespace Uplinks

def new (queueDepth : Nat) (ttl : Int) (file : CursorFile) (now : Int) : Uplinks :=
  { fan := FanIn.new queueDepth ttl file
    lines := []
    cancelled := []
    now := now
    errors := []
    attempts := [] }

def setLine (s : Uplinks) (i : Nat) (phase : UplinkPhase) : Uplinks :=
  { s with lines := s.lines.set i phase }

def step (logs : String → String → AgentLog) (backoff : Int) (s : Uplinks) :
    UplinkEvent → Option Uplinks
  | .start agent stream =>
      (s.fan.step (.start agent stream)).map fun fan =>
        { s with fan := fan, lines := s.lines ++ [.top] }
  | .cancel i => some { s with cancelled := i :: s.cancelled }
  | .pass time => if s.now ≤ time then some { s with now := time } else none
  | .check i =>
      s.lines[i]?.bind fun
        | .top =>
            if s.cancelled.contains i then some (s.setLine i .returned)
            else some { s.setLine i .dialing with attempts := s.attempts ++ [(i, s.now)] }
        | _ => none
  | .dial i ok =>
      s.lines[i]?.bind fun
        | .dialing =>
            s.fan.loops[i]?.map fun l =>
              s.setLine i (if ok then .subscribing (s.fan.store.load l.agent l.stream) else .failed)
        | _ => none
  | .subscribe i ok tail =>
      s.lines[i]?.bind fun
        | .subscribing cursor =>
            s.fan.loops[i]?.map fun l =>
              s.setLine i (if ok then
                .streaming ((logs l.agent l.stream).marked.attach cursor tail) else .failed)
        | _ => none
  | .recv i =>
      s.lines[i]?.bind fun
        | .streaming pos =>
            s.fan.loops[i]?.bind fun l =>
              (logs l.agent l.stream).envelopes[pos]?.bind fun env =>
                (s.fan.step (.recv i env)).map fun fan =>
                  { s.setLine i (.streaming (pos + 1)) with fan := fan }
        | _ => none
  | .recvError i =>
      s.lines[i]?.bind fun
        | .streaming _ =>
            s.fan.loops[i]?.bind fun l =>
              if l.phase = .receiving then some (s.setLine i .failed) else none
        | _ => none
  | .settle i =>
      s.lines[i]?.bind fun
        | .failed =>
            -- the error is never nil
            if s.cancelled.contains i then some (s.setLine i .top)
            else some { s.setLine i (.waiting (s.now + backoff)) with errors := s.errors ++ [i] }
        | _ => none
  | .wake i =>
      s.lines[i]?.bind fun
        | .waiting time => if time ≤ s.now then some (s.setLine i .top) else none
        | _ => none
  | .leave i =>
      s.lines[i]?.bind fun
        | .waiting _ => if s.cancelled.contains i then some (s.setLine i .returned) else none
        | _ => none
  | .inner e =>
      if e.isInner then (s.fan.step e).map fun fan => { s with fan := fan } else none

/-! ## What one step does -/

variable {logs : String → String → AgentLog} {backoff : Int} {s t : Uplinks}

inductive Step (logs : String → String → AgentLog) (backoff : Int) (s : Uplinks) :
    UplinkEvent → Uplinks → Prop
  | start {agent stream : String} :
      Step logs backoff s (.start agent stream)
        { s with
          fan := { s.fan with loops := s.fan.loops ++ [⟨agent, stream, .receiving⟩] }
          lines := s.lines ++ [.top] }
  | cancel {i : Nat} : Step logs backoff s (.cancel i) { s with cancelled := i :: s.cancelled }
  | pass {time : Int} (htime : s.now ≤ time) :
      Step logs backoff s (.pass time) { s with now := time }
  | enter {i : Nat} (hline : s.lines[i]? = some .top) (hlive : i ∉ s.cancelled) :
      Step logs backoff s (.check i)
        { s.setLine i .dialing with attempts := s.attempts ++ [(i, s.now)] }
  | quit {i : Nat} (hline : s.lines[i]? = some .top) (hdone : i ∈ s.cancelled) :
      Step logs backoff s (.check i) (s.setLine i .returned)
  | load {i : Nat} {l : StreamLoop} (hline : s.lines[i]? = some .dialing)
      (hloop : s.fan.loops[i]? = some l) :
      Step logs backoff s (.dial i true)
        (s.setLine i (.subscribing (s.fan.store.load l.agent l.stream)))
  | unreachable {i : Nat} (hline : s.lines[i]? = some .dialing) :
      Step logs backoff s (.dial i false) (s.setLine i .failed)
  | attach {i tail : Nat} {cursor : Option Cursor} {l : StreamLoop}
      (hline : s.lines[i]? = some (.subscribing cursor)) (hloop : s.fan.loops[i]? = some l) :
      Step logs backoff s (.subscribe i true tail)
        (s.setLine i (.streaming ((logs l.agent l.stream).marked.attach cursor tail)))
  | refused {i tail : Nat} {cursor : Option Cursor} {l : StreamLoop}
      (hline : s.lines[i]? = some (.subscribing cursor)) (hloop : s.fan.loops[i]? = some l) :
      Step logs backoff s (.subscribe i false tail) (s.setLine i .failed)
  | recv {i pos : Nat} {l : StreamLoop} {env : EventEnvelope}
      (hline : s.lines[i]? = some (.streaming pos)) (hloop : s.fan.loops[i]? = some l)
      (hphase : l.phase = .receiving) (henv : (logs l.agent l.stream).envelopes[pos]? = some env) :
      Step logs backoff s (.recv i)
        { s.setLine i (.streaming (pos + 1)) with
          fan := { s.fan.setPhase i l (.received env) with
            received := s.fan.received ++ [⟨l.agent, l.stream, env⟩] } }
  | broken {i pos : Nat} {l : StreamLoop} (hline : s.lines[i]? = some (.streaming pos))
      (hloop : s.fan.loops[i]? = some l) (hphase : l.phase = .receiving) :
      Step logs backoff s (.recvError i) (s.setLine i .failed)
  | backOff {i : Nat} (hline : s.lines[i]? = some .failed) (hlive : i ∉ s.cancelled) :
      Step logs backoff s (.settle i)
        { s.setLine i (.waiting (s.now + backoff)) with errors := s.errors ++ [i] }
  | ended {i : Nat} (hline : s.lines[i]? = some .failed) (hdone : i ∈ s.cancelled) :
      Step logs backoff s (.settle i) (s.setLine i .top)
  | wake {i : Nat} {time : Int} (hline : s.lines[i]? = some (.waiting time))
      (htime : time ≤ s.now) : Step logs backoff s (.wake i) (s.setLine i .top)
  | leave {i : Nat} {time : Int} (hline : s.lines[i]? = some (.waiting time))
      (hdone : i ∈ s.cancelled) : Step logs backoff s (.leave i) (s.setLine i .returned)
  | save {i : Nat} {l : StreamLoop} {env : EventEnvelope} (hloop : s.fan.loops[i]? = some l)
      (hphase : l.phase = .received env) :
      Step logs backoff s (.inner (.save i))
        { s with fan := { s.fan.setPhase i l (.saved env) with
          store := s.fan.store.save l.agent l.stream env.cursor } }
  | enqueue {i : Nat} {l : StreamLoop} {env : EventEnvelope} (hloop : s.fan.loops[i]? = some l)
      (hphase : l.phase = .saved env) :
      Step logs backoff s (.inner (.enqueue i))
        { s with fan := (s.fan.setPhase i l .receiving).offer ⟨l.agent, l.stream, env⟩ }
  /-- The writer and the flushes. -/
  | behind {e : FanInEvent} {fan : FanIn} (hloops : fan.loops = s.fan.loops)
      (hreceived : fan.received = s.fan.received) (hdata : fan.store.data = s.fan.store.data)
      (hpassed : fan.passed = s.fan.passed) :
      Step logs backoff s (.inner e) { s with fan := fan }

private theorem step_inner {e : FanInEvent} {fan : FanIn} (he : e.isInner = true)
    (h : s.fan.step e = some fan) : Step logs backoff s (.inner e) { s with fan := fan } := by
  cases e with
  | start agent stream => cases he
  | recv i env => cases he
  | save i =>
      obtain ⟨l, env, hloop, hphase, rfl⟩ := FanIn.save_of_step h
      exact .save hloop hphase
  | enqueue i =>
      obtain ⟨l, env, hloop, hphase, rfl⟩ := FanIn.enqueue_of_step h
      exact .enqueue hloop hphase
  | dequeue =>
      obtain ⟨d, rest, hwriting, hch, rfl⟩ := FanIn.dequeue_of_step h
      exact .behind rfl rfl rfl (by simp [FanIn.passed, hwriting, hch])
  | write resolvers now =>
      obtain ⟨d, hwriting, rfl⟩ := Option.map_eq_some_iff.mp h
      exact .behind rfl rfl rfl (by simp [FanIn.passed, FanIn.finish, hwriting])
  | flush order =>
      rcases FanIn.flush_of_step h with ⟨-, rfl⟩ | ⟨-, -, rfl⟩
      · exact .behind rfl rfl rfl rfl
      · exact .behind rfl rfl rfl rfl

theorem step_of_step {e : UplinkEvent} (h : s.step logs backoff e = some t) :
    Step logs backoff s e t := by
  cases e with
  | start agent stream =>
      cases h
      exact .start
  | cancel i =>
      cases h
      exact .cancel
  | pass time =>
      simp only [step] at h
      split at h
      · rename_i htime
        cases h
        exact .pass htime
      · cases h
  | inner e =>
      simp only [step] at h
      split at h
      · rename_i he
        obtain ⟨fan, hfan, rfl⟩ := Option.map_eq_some_iff.mp h
        exact step_inner he hfan
      · cases h
  | check i =>
      obtain ⟨phase, hline, h⟩ := Option.bind_eq_some_iff.mp h
      cases phase with
      | top =>
          simp only [List.contains_iff_mem] at h
          split at h
          · rename_i hdone
            cases h
            exact .quit hline hdone
          · rename_i hlive
            cases h
            exact .enter hline hlive
      | _ => cases h
  | dial i ok =>
      obtain ⟨phase, hline, h⟩ := Option.bind_eq_some_iff.mp h
      cases phase with
      | dialing =>
          obtain ⟨l, hloop, rfl⟩ := Option.map_eq_some_iff.mp h
          cases ok with
          | true => exact .load hline hloop
          | false => exact .unreachable hline
      | _ => cases h
  | subscribe i ok tail =>
      obtain ⟨phase, hline, h⟩ := Option.bind_eq_some_iff.mp h
      cases phase with
      | subscribing cursor =>
          obtain ⟨l, hloop, rfl⟩ := Option.map_eq_some_iff.mp h
          cases ok with
          | true => exact .attach hline hloop
          | false => exact .refused hline hloop
      | _ => cases h
  | recv i =>
      obtain ⟨phase, hline, h⟩ := Option.bind_eq_some_iff.mp h
      cases phase with
      | streaming pos =>
          obtain ⟨l, hloop, h⟩ := Option.bind_eq_some_iff.mp h
          obtain ⟨env, henv, h⟩ := Option.bind_eq_some_iff.mp h
          obtain ⟨fan, hfan, rfl⟩ := Option.map_eq_some_iff.mp h
          obtain ⟨l', hloop', hphase, rfl⟩ := FanIn.recv_of_step hfan
          rw [hloop] at hloop'
          cases hloop'
          exact .recv hline hloop hphase henv
      | _ => cases h
  | recvError i =>
      obtain ⟨phase, hline, h⟩ := Option.bind_eq_some_iff.mp h
      cases phase with
      | streaming pos =>
          obtain ⟨l, hloop, h⟩ := Option.bind_eq_some_iff.mp h
          split at h
          · rename_i hphase
            cases h
            exact .broken hline hloop hphase
          · cases h
      | _ => cases h
  | settle i =>
      obtain ⟨phase, hline, h⟩ := Option.bind_eq_some_iff.mp h
      cases phase with
      | failed =>
          simp only [List.contains_iff_mem] at h
          split at h
          · rename_i hdone
            cases h
            exact .ended hline hdone
          · rename_i hlive
            cases h
            exact .backOff hline hlive
      | _ => cases h
  | wake i =>
      obtain ⟨phase, hline, h⟩ := Option.bind_eq_some_iff.mp h
      cases phase with
      | waiting time =>
          dsimp only at h
          split at h
          · rename_i htime
            cases h
            exact .wake hline htime
          · cases h
      | _ => cases h
  | leave i =>
      obtain ⟨phase, hline, h⟩ := Option.bind_eq_some_iff.mp h
      cases phase with
      | waiting time =>
          simp only [List.contains_iff_mem] at h
          split at h
          · rename_i hdone
            cases h
            exact .leave hline hdone
          · cases h
      | _ => cases h

/-! ## One reader for each agent and stream -/

def Active (s : Uplinks) (agent stream : String) (i : Nat) : Prop :=
  ∃ phase l, s.lines[i]? = some phase ∧ s.fan.loops[i]? = some l ∧
    (l.agent = agent ∧ l.stream = stream) ∧ phase ≠ .returned

def receivedOf (s : Uplinks) (agent stream : String) : List EventEnvelope :=
  (FanIn.ofPair agent stream s.fan.received).map Delivery.envelope

/-- The goroutines of a pair, one after the other, are a reader of the agent's log. -/
structure Serves (s : Uplinks) (agent stream : String) (r : Follower EventEnvelope Cursor) :
    Prop where
  got : s.receivedOf agent stream = r.got
  mark : s.fan.store.load agent stream = r.mark
  sole : ∀ i j, s.Active agent stream i → s.Active agent stream j → i = j
  idle : (∀ i, ¬ s.Active agent stream i) → r.phase = .idle
  phase : ∀ (i : Nat) (phase : UplinkPhase) (l : StreamLoop), s.lines[i]? = some phase →
    s.fan.loops[i]? = some l → l.agent = agent ∧ l.stream = stream → phase ≠ .returned →
      r.phase = phase.reader l.phase

/-- The goroutines and their connections go together, and only a connected one holds an
envelope. -/
structure Wired (s : Uplinks) : Prop where
  lines : s.lines.length = s.fan.loops.length
  named : ∀ l ∈ s.fan.loops, '\x00' ∉ l.agent.toList
  holds : ∀ (i : Nat) (phase : UplinkPhase) (l : StreamLoop), s.lines[i]? = some phase →
    s.fan.loops[i]? = some l → l.phase = .receiving ∨ ∃ pos, phase = .streaming pos

theorem Wired.streaming (h : s.Wired) {i : Nat} {l : StreamLoop}
    (hloop : s.fan.loops[i]? = some l) (hheld : l.phase ≠ .receiving) :
    ∃ pos, s.lines[i]? = some (.streaming pos) := by
  have hi : i < s.lines.length := by
    rw [h.lines]
    exact (List.getElem?_eq_some_iff.mp hloop).1
  have hline := List.getElem?_eq_getElem hi
  obtain ⟨pos, hpos⟩ := (h.holds i _ l hline hloop).resolve_left hheld
  exact ⟨pos, by rw [hline, hpos]⟩

structure Moves (s t : Uplinks) (i : Nat) (phase phase' : UplinkPhase) (l l' : StreamLoop) :
    Prop where
  line : s.lines[i]? = some phase
  loop : s.fan.loops[i]? = some l
  active : phase ≠ .returned
  lines : t.lines = s.lines.set i phase'
  loops : t.fan.loops = s.fan.loops.set i l'
  agent : l'.agent = l.agent
  stream : l'.stream = l.stream

variable {agent stream : String} {r r' : Follower EventEnvelope Cursor} {i : Nat}
  {phase phase' : UplinkPhase} {l l' : StreamLoop}

namespace Moves

private theorem line_of_ne (h : Moves s t i phase phase' l l') {j : Nat} (hne : i ≠ j) :
    t.lines[j]? = s.lines[j]? := by
  rw [h.lines, List.getElem?_set_ne hne]

private theorem loop_of_ne (h : Moves s t i phase phase' l l') {j : Nat} (hne : i ≠ j) :
    t.fan.loops[j]? = s.fan.loops[j]? := by
  rw [h.loops, List.getElem?_set_ne hne]

private theorem line_self (h : Moves s t i phase phase' l l') : t.lines[i]? = some phase' := by
  rw [h.lines, List.getElem?_set_self (List.getElem?_eq_some_iff.mp h.line).1]

private theorem loop_self (h : Moves s t i phase phase' l l') : t.fan.loops[i]? = some l' := by
  rw [h.loops, List.getElem?_set_self (List.getElem?_eq_some_iff.mp h.loop).1]

private theorem active_of_active (h : Moves s t i phase phase' l l') {j : Nat}
    (hactive : t.Active agent stream j) : s.Active agent stream j := by
  obtain ⟨phase₂, l₂, hline, hloop, hpair, hne⟩ := hactive
  by_cases hij : i = j
  · subst hij
    rw [h.loop_self] at hloop
    cases hloop
    rw [h.agent, h.stream] at hpair
    exact ⟨phase, l, h.line, h.loop, hpair, h.active⟩
  · rw [h.line_of_ne hij] at hline
    rw [h.loop_of_ne hij] at hloop
    exact ⟨phase₂, l₂, hline, hloop, hpair, hne⟩

theorem other (h : Moves s t i phase phase' l l') (hserves : s.Serves agent stream r)
    (hpair : ¬ (l.agent = agent ∧ l.stream = stream))
    (hgot : t.receivedOf agent stream = s.receivedOf agent stream)
    (hload : t.fan.store.load agent stream = s.fan.store.load agent stream) :
    t.Serves agent stream r := by
  have hne : ∀ {j l₂}, t.fan.loops[j]? = some l₂ → l₂.agent = agent ∧ l₂.stream = stream →
      i ≠ j := by
    rintro j l₂ hloop hpair₂ rfl
    rw [h.loop_self] at hloop
    cases hloop
    rw [h.agent, h.stream] at hpair₂
    exact hpair hpair₂
  refine ⟨hgot.trans hserves.got, hload.trans hserves.mark, ?_, ?_, ?_⟩
  · intro j k hj hk
    exact hserves.sole j k (h.active_of_active hj) (h.active_of_active hk)
  · intro hnone
    refine hserves.idle fun j hj => ?_
    obtain ⟨phase₂, l₂, hline, hloop, hpair₂, hreturned⟩ := hj
    have hij : i ≠ j := by
      rintro rfl
      rw [h.loop] at hloop
      cases hloop
      exact hpair hpair₂
    exact hnone j ⟨phase₂, l₂, (h.line_of_ne hij).trans hline, (h.loop_of_ne hij).trans hloop,
      hpair₂, hreturned⟩
  · intro j phase₂ l₂ hline hloop hpair₂ hreturned
    have hij := hne hloop hpair₂
    rw [h.line_of_ne hij] at hline
    rw [h.loop_of_ne hij] at hloop
    exact hserves.phase j phase₂ l₂ hline hloop hpair₂ hreturned

theorem own (h : Moves s t i phase phase' l l') (hserves : s.Serves agent stream r)
    (hpair : l.agent = agent ∧ l.stream = stream) (hgot : t.receivedOf agent stream = r'.got)
    (hload : t.fan.store.load agent stream = r'.mark)
    (hphase : r'.phase = phase'.reader l'.phase) : t.Serves agent stream r' := by
  refine ⟨hgot, hload, ?_, ?_, ?_⟩
  · intro j k hj hk
    exact hserves.sole j k (h.active_of_active hj) (h.active_of_active hk)
  · intro hnone
    have hreturned : phase' = .returned := by
      by_contra hne
      refine hnone i ⟨phase', l', h.line_self, h.loop_self, ?_, hne⟩
      rw [h.agent, h.stream]
      exact hpair
    rw [hphase, hreturned]
    rfl
  · intro j phase₂ l₂ hline hloop hpair₂ hreturned
    have hj := h.active_of_active ⟨phase₂, l₂, hline, hloop, hpair₂, hreturned⟩
    have hij : j = i := hserves.sole j i hj ⟨phase, l, h.line, h.loop, hpair, h.active⟩
    subst hij
    rw [h.line_self] at hline
    rw [h.loop_self] at hloop
    cases hline
    cases hloop
    exact hphase

private theorem phase_eq (h : Moves s t i phase phase' l l') (hserves : s.Serves agent stream r)
    (hpair : l.agent = agent ∧ l.stream = stream) : r.phase = phase.reader l.phase :=
  hserves.phase i phase l h.line h.loop hpair h.active

end Moves

private theorem set_of_getElem? {α : Type*} {items : List α} {i : Nat} {a : α}
    (h : items[i]? = some a) :
    items.set i a = items := by
  obtain ⟨hi, rfl⟩ := List.getElem?_eq_some_iff.mp h
  exact List.set_getElem_self hi

private theorem moves_setLine (hline : s.lines[i]? = some phase) (hloop : s.fan.loops[i]? = some l)
    (hactive : phase ≠ .returned) (phase' : UplinkPhase) (hlines : t.lines = s.lines.set i phase')
    (hfan : t.fan = s.fan) : Moves s t i phase phase' l l := by
  refine ⟨hline, hloop, hactive, hlines, ?_, rfl, rfl⟩
  rw [hfan, set_of_getElem? hloop]

private theorem moves_recv {pos : Nat} (hline : s.lines[i]? = some (.streaming pos))
    (hloop : s.fan.loops[i]? = some l) (env : EventEnvelope) :
    Moves s
      { s.setLine i (.streaming (pos + 1)) with
        fan := { s.fan.setPhase i l (.received env) with
          received := s.fan.received ++ [⟨l.agent, l.stream, env⟩] } }
      i (.streaming pos) (.streaming (pos + 1)) l { l with phase := .received env } :=
  ⟨hline, hloop, by simp, rfl, rfl, rfl, rfl⟩

private theorem moves_loop {pos : Nat} (hline : s.lines[i]? = some (.streaming pos))
    (hloop : s.fan.loops[i]? = some l) (fan : FanIn) {next : LoopPhase}
    (hloops : fan.loops = s.fan.loops.set i { l with phase := next }) :
    Moves s { s with fan := fan } i (.streaming pos) (.streaming pos) l
      { l with phase := next } :=
  ⟨hline, hloop, by simp, (set_of_getElem? hline).symm, hloops, rfl, rfl⟩

theorem offer_frame (fan : FanIn) (d : Delivery) :
    (fan.offer d).loops = fan.loops ∧ (fan.offer d).received = fan.received ∧
      (fan.offer d).store = fan.store := by
  unfold FanIn.offer
  split <;> exact ⟨rfl, rfl, rfl⟩

/-- No two goroutines of one agent and stream run at a time. -/
def admits (s : Uplinks) : UplinkEvent → Bool
  | .start agent stream =>
      !agent.toList.contains '\x00' &&
        (s.lines.zip s.fan.loops).all fun line =>
          line.1 = .returned || !(line.2.agent = agent && line.2.stream = stream)
  | _ => true

private theorem not_active_of_admits (h : s.admits (.start agent stream) = true) (i : Nat) :
    ¬ s.Active agent stream i := by
  rintro ⟨phase, l, hline, hloop, ⟨rfl, rfl⟩, hactive⟩
  simp only [admits, Bool.and_eq_true, List.all_eq_true] at h
  have hmem : (phase, l) ∈ s.lines.zip s.fan.loops := by
    refine List.mem_of_getElem? (i := i) ?_
    rw [List.getElem?_zip_eq_some]
    exact ⟨hline, hloop⟩
  have hline := h.2 _ hmem
  simp [hactive] at hline

def Refines (log : AgentLog) (r : Follower EventEnvelope Cursor) (agent stream : String)
    (t : Uplinks) : Prop :=
  ∃ events r', run (Follower.step log.marked) r events = some r' ∧ t.Serves agent stream r'

section Simulation

variable {log : AgentLog} {initial : Option Cursor} {env : EventEnvelope}

private theorem Serves.refines (h : t.Serves agent stream r) : Refines log r agent stream t :=
  ⟨[], r, rfl, h⟩

private theorem Serves.refines_of_same (h : s.Serves agent stream r) (hlines : t.lines = s.lines)
    (hloops : t.fan.loops = s.fan.loops) (hreceived : t.fan.received = s.fan.received)
    (hdata : t.fan.store.data = s.fan.store.data) : Refines log r agent stream t := by
  have hactive : ∀ i, t.Active agent stream i ↔ s.Active agent stream i := by
    intro i
    rw [Active, hlines, hloops, Active]
  refine Serves.refines ⟨?_, ?_, ?_, ?_, ?_⟩
  · rw [← h.got, receivedOf, hreceived, receivedOf]
  · rw [← h.mark, CursorStore.load, hdata, CursorStore.load]
  · intro i j hi hj
    exact h.sole i j ((hactive i).mp hi) ((hactive j).mp hj)
  · exact fun hnone => h.idle fun i hi => hnone i ((hactive i).mpr hi)
  · rw [hlines, hloops]
    exact h.phase

theorem of_getElem?_concat {α : Type*} {items : List α} {a b : α} {i : Nat}
    (h : (items ++ [a])[i]? = some b) : items[i]? = some b ∨ (i = items.length ∧ b = a) := by
  rcases Nat.lt_trichotomy i items.length with hlt | rfl | hgt
  · rw [List.getElem?_append_left hlt] at h
    exact .inl h
  · rw [List.getElem?_concat_length] at h
    exact .inr ⟨rfl, (Option.some.inj h).symm⟩
  · rw [List.getElem?_eq_none (by simpa using hgt)] at h
    cases h

private theorem Wired.concat_cases (hwired : s.Wired) {j : Nat} {fresh : StreamLoop}
    (hline : (s.lines ++ [UplinkPhase.top])[j]? = some phase)
    (hloop : (s.fan.loops ++ [fresh])[j]? = some l) :
    (s.lines[j]? = some phase ∧ s.fan.loops[j]? = some l) ∨
      (j = s.lines.length ∧ phase = .top ∧ l = fresh) := by
  rcases of_getElem?_concat hline with hline | ⟨rfl, rfl⟩
  · rcases of_getElem?_concat hloop with hloop | ⟨rfl, -⟩
    · exact .inl ⟨hline, hloop⟩
    · rw [← hwired.lines, List.getElem?_eq_none (Nat.le_refl _)] at hline
      cases hline
  · rw [hwired.lines, List.getElem?_concat_length] at hloop
    exact .inr ⟨rfl, rfl, (Option.some.inj hloop).symm⟩

theorem Serves.start {agent' stream' : String} (hwired : s.Wired) (h : s.Serves agent stream r)
    (hadmits : s.admits (.start agent' stream') = true) :
    Refines log r agent stream
      { s with
        fan := { s.fan with loops := s.fan.loops ++ [⟨agent', stream', .receiving⟩] }
        lines := s.lines ++ [.top] } := by
  have hgot : receivedOf
      { s with
        fan := { s.fan with loops := s.fan.loops ++ [⟨agent', stream', .receiving⟩] }
        lines := s.lines ++ [.top] } agent stream = r.got := h.got
  by_cases hpair : agent' = agent ∧ stream' = stream
  · obtain ⟨rfl, rfl⟩ := hpair
    have hnone := not_active_of_admits hadmits
    have hnew : ∀ {j : Nat} {phase : UplinkPhase} {l : StreamLoop},
        (s.lines ++ [UplinkPhase.top])[j]? = some phase →
        (s.fan.loops ++ [⟨agent', stream', .receiving⟩])[j]? = some l →
        l.agent = agent' ∧ l.stream = stream' → phase ≠ .returned →
          j = s.lines.length ∧ phase = .top := by
      intro j phase l hline hloop hpair hactive
      rcases hwired.concat_cases hline hloop with ⟨hline, hloop⟩ | ⟨hj, hphase, -⟩
      · exact absurd ⟨phase, l, hline, hloop, hpair, hactive⟩ (hnone j)
      · exact ⟨hj, hphase⟩
    refine Serves.refines ⟨hgot, h.mark, ?_, fun _ => h.idle hnone, ?_⟩
    · rintro j k ⟨phase, l, hline, hloop, hpair, hactive⟩
        ⟨phase', l', hline', hloop', hpair', hactive'⟩
      rw [(hnew hline hloop hpair hactive).1, (hnew hline' hloop' hpair' hactive').1]
    · intro j phase l hline hloop hpair hactive
      rw [(hnew hline hloop hpair hactive).2, h.idle hnone]
      rfl
  · have hold : ∀ {j : Nat} {phase : UplinkPhase} {l : StreamLoop},
        (s.lines ++ [UplinkPhase.top])[j]? = some phase →
        (s.fan.loops ++ [⟨agent', stream', .receiving⟩])[j]? = some l →
        l.agent = agent ∧ l.stream = stream →
          s.lines[j]? = some phase ∧ s.fan.loops[j]? = some l := by
      intro j phase l hline hloop hother
      rcases hwired.concat_cases hline hloop with hboth | ⟨-, -, rfl⟩
      · exact hboth
      · exact absurd hother hpair
    refine Serves.refines ⟨hgot, h.mark, ?_, ?_, ?_⟩
    · rintro j k ⟨phase, l, hline, hloop, hother, hactive⟩
        ⟨phase', l', hline', hloop', hother', hactive'⟩
      obtain ⟨hline, hloop⟩ := hold hline hloop hother
      obtain ⟨hline', hloop'⟩ := hold hline' hloop' hother'
      exact h.sole j k ⟨phase, l, hline, hloop, hother, hactive⟩
        ⟨phase', l', hline', hloop', hother', hactive'⟩
    · intro hnone
      refine h.idle fun j => ?_
      rintro ⟨phase, l, hline, hloop, hrest⟩
      refine hnone j ⟨phase, l, ?_, ?_, hrest⟩
      · exact (List.getElem?_append_left (List.getElem?_eq_some_iff.mp hline).1).trans hline
      · exact (List.getElem?_append_left (List.getElem?_eq_some_iff.mp hloop).1).trans hloop
    · intro j phase l hline hloop hother hactive
      obtain ⟨hline, hloop⟩ := hold hline hloop hother
      exact h.phase j phase l hline hloop hother hactive

theorem Serves.setLine (hwired : s.Wired) (h : s.Serves agent stream r)
    (hline : s.lines[i]? = some phase) (hactive : phase ≠ .returned)
    (hlines : t.lines = s.lines.set i phase') (hfan : t.fan = s.fan)
    (hreader : ∀ l, s.fan.loops[i]? = some l → l.agent = agent ∧ l.stream = stream →
      r.phase = phase.reader l.phase → ∃ events r',
        run (Follower.step log.marked) r events = some r' ∧
          r'.got = r.got ∧ r'.mark = r.mark ∧ r'.phase = phase'.reader l.phase) :
    Refines log r agent stream t := by
  have hi : i < s.fan.loops.length := by
    rw [← hwired.lines]
    exact (List.getElem?_eq_some_iff.mp hline).1
  have hloop := List.getElem?_eq_getElem hi
  have hmoves := moves_setLine hline hloop hactive phase' hlines hfan
  have hgot : t.receivedOf agent stream = s.receivedOf agent stream := by
    rw [receivedOf, hfan, receivedOf]
  have hload : t.fan.store.load agent stream = s.fan.store.load agent stream := by rw [hfan]
  by_cases hpair : s.fan.loops[i].agent = agent ∧ s.fan.loops[i].stream = stream
  · obtain ⟨events, r', hrun, hgot', hmark', hphase'⟩ :=
      hreader _ hloop hpair (hmoves.phase_eq h hpair)
    refine ⟨events, r', hrun, hmoves.own h hpair ?_ ?_ hphase'⟩
    · rw [hgot, h.got, hgot']
    · rw [hload, h.mark, hmark']
  · exact (hmoves.other h hpair hgot hload).refines

private theorem Serves.stays_idle (hwired : s.Wired) (h : s.Serves agent stream r)
    (hline : s.lines[i]? = some phase) (hactive : phase ≠ .returned)
    (hlines : t.lines = s.lines.set i phase') (hfan : t.fan = s.fan)
    (hidle : ∀ loop, phase.reader loop = .idle) (hidle' : ∀ loop, phase'.reader loop = .idle) :
    Refines log r agent stream t := by
  refine h.setLine hwired hline hactive hlines hfan fun l _ _ hphase => ?_
  exact ⟨[], r, rfl, rfl, rfl, by rw [hphase, hidle, hidle']⟩

theorem Serves.recv {pos : Nat} (h : s.Serves agent stream r)
    (hline : s.lines[i]? = some (.streaming pos)) (hloop : s.fan.loops[i]? = some l)
    (hphase : l.phase = .receiving)
    (henv : l.agent = agent ∧ l.stream = stream → log.marked.items[pos]? = some env) :
    Refines log r agent stream
      { s.setLine i (.streaming (pos + 1)) with
        fan := { s.fan.setPhase i l (.received env) with
          received := s.fan.received ++ [⟨l.agent, l.stream, env⟩] } } := by
  have hmoves := moves_recv hline hloop env
  by_cases hpair : l.agent = agent ∧ l.stream = stream
  · have hfollowing : r.phase = .following pos := by
      rw [hmoves.phase_eq h hpair, hphase]
      rfl
    refine ⟨[.next], { r with got := r.got ++ [env], phase := .holding (pos + 1) env }, ?_,
      hmoves.own h hpair ?_ h.mark rfl⟩
    · rw [run_singleton, Follower.step, hfollowing]
      simp [henv hpair]
    · rw [← h.got]
      simp [receivedOf, FanIn.ofPair, List.filter_append, hpair]
  · refine (hmoves.other h hpair ?_ rfl).refines
    simp [receivedOf, FanIn.ofPair, List.filter_append, hpair]

private theorem load_save_of_sound {store : CursorStore} {pos : Nat}
    (hagent : '\x00' ∉ agent.toList)
    (hsound : r.Sound log.marked initial) (hphase : r.phase = .holding pos env)
    (hmark : store.load agent stream = r.mark) :
    (store.save agent stream env.cursor).load agent stream = some env.mark := by
  -- The cursor of the last envelope is not behind the stored one.
  have hinStep := hsound.inStep
  simp only [Follower.InStep, hphase] at hinStep
  obtain ⟨hupTo, hlast, hbehind⟩ := hinStep
  obtain ⟨k, -, henv⟩ := hupTo.last hlast
  obtain ⟨cursor, hcursor⟩ :=
    Option.isSome_iff_exists.mp (log.stamped env (List.mem_of_getElem? henv))
  have hstamp : env.mark = cursor := by simp [EventEnvelope.mark, hcursor]
  rw [hcursor, CursorStore.load_save store stream stream cursor hagent hagent, if_pos ⟨rfl, rfl⟩,
    hmark, hstamp]
  cases hprev : r.mark with
  | none => rfl
  | some prev =>
      have hlt : prev.seq < env.mark.seq := hbehind prev hprev
      rw [hstamp] at hlt
      have hnot : ¬ (cursor.seq < prev.seq ∧ cursor.nodeId = prev.nodeId) := by
        rintro ⟨hrewinds, -⟩
        omega
      simp only [hnot, if_false]

theorem Serves.save (hwired : s.Wired) (h : s.Serves agent stream r)
    (hagent : '\x00' ∉ agent.toList) (hsound : r.Sound log.marked initial)
    (hloop : s.fan.loops[i]? = some l) (hphase : l.phase = .received env) :
    Refines log r agent stream
      { s with fan := { s.fan.setPhase i l (.saved env) with
        store := s.fan.store.save l.agent l.stream env.cursor } } := by
  obtain ⟨pos, hline⟩ := hwired.streaming hloop (by rw [hphase]; simp)
  have hmoves := moves_loop hline hloop
    { s.fan.setPhase i l (.saved env) with
      store := s.fan.store.save l.agent l.stream env.cursor } rfl
  by_cases hpair : l.agent = agent ∧ l.stream = stream
  · have hholding : r.phase = .holding pos env := by
      rw [hmoves.phase_eq h hpair, hphase]
      rfl
    refine ⟨[.commit], { r with mark := some env.mark, phase := .following pos }, ?_,
      hmoves.own h hpair h.got ?_ rfl⟩
    · rw [run_singleton, Follower.step, hholding]
      rfl
    · obtain ⟨rfl, rfl⟩ := hpair
      exact load_save_of_sound hagent hsound hholding h.mark
  · refine (hmoves.other h hpair rfl ?_).refines
    cases hcursor : env.cursor with
    | none => rfl
    | some cursor =>
        have hnamed := hwired.named l (List.mem_of_getElem? hloop)
        dsimp only
        rw [CursorStore.load_save _ l.stream stream cursor hnamed hagent,
          if_neg fun heq => hpair ⟨heq.1.symm, heq.2.symm⟩]

theorem Serves.enqueue (hwired : s.Wired) (h : s.Serves agent stream r)
    (hloop : s.fan.loops[i]? = some l) (hphase : l.phase = .saved env) :
    Refines log r agent stream
      { s with fan := (s.fan.setPhase i l .receiving).offer ⟨l.agent, l.stream, env⟩ } := by
  obtain ⟨pos, hline⟩ := hwired.streaming hloop (by rw [hphase]; simp)
  obtain ⟨hloops, hreceived, hstore⟩ :=
    offer_frame (s.fan.setPhase i l .receiving) ⟨l.agent, l.stream, env⟩
  have hmoves := moves_loop hline hloop _ hloops
  by_cases hpair : l.agent = agent ∧ l.stream = stream
  · refine ⟨[], r, rfl, hmoves.own h hpair ?_ ?_ ?_⟩
    · rw [← h.got, receivedOf, hreceived]
      rfl
    · rw [← h.mark, hstore]
      rfl
    · rw [hmoves.phase_eq h hpair, hphase]
      rfl
  · refine (hmoves.other h hpair ?_ ?_).refines
    · rw [receivedOf, hreceived]
      rfl
    · rw [hstore]
      rfl

theorem Serves.step {e : UplinkEvent} (hwired : s.Wired) (hagent : '\x00' ∉ agent.toList)
    (h : s.Serves agent stream r)
    (hsound : r.Sound (logs agent stream).marked initial) (hadmits : s.admits e = true)
    (hstep : Step logs backoff s e t) : Refines (logs agent stream) r agent stream t := by
  -- Every step is one or no step of the reader of a pair.
  cases hstep with
  | start => exact h.start hwired hadmits
  | cancel => exact h.refines_of_same rfl rfl rfl rfl
  | pass htime => exact h.refines_of_same rfl rfl rfl rfl
  | behind hloops hreceived hdata hpassed => exact h.refines_of_same rfl hloops hreceived hdata
  | enter hline hlive =>
      exact h.stays_idle hwired hline (by simp) rfl rfl (fun _ => rfl) fun _ => rfl
  | quit hline hdone =>
      exact h.stays_idle hwired hline (by simp) rfl rfl (fun _ => rfl) fun _ => rfl
  | unreachable hline =>
      exact h.stays_idle hwired hline (by simp) rfl rfl (fun _ => rfl) fun _ => rfl
  | backOff hline hlive =>
      exact h.stays_idle hwired hline (by simp) rfl rfl (fun _ => rfl) fun _ => rfl
  | ended hline hdone =>
      exact h.stays_idle hwired hline (by simp) rfl rfl (fun _ => rfl) fun _ => rfl
  | wake hline htime =>
      exact h.stays_idle hwired hline (by simp) rfl rfl (fun _ => rfl) fun _ => rfl
  | leave hline hdone =>
      exact h.stays_idle hwired hline (by simp) rfl rfl (fun _ => rfl) fun _ => rfl
  | @load i l hline hloop =>
      refine h.setLine hwired hline (by simp) rfl rfl fun l' hloop' hpair hidle => ?_
      rw [hloop] at hloop'
      cases hloop'
      obtain ⟨rfl, rfl⟩ := hpair
      refine ⟨[.load], { r with phase := .resuming r.mark }, ?_, rfl, rfl, ?_⟩
      · rw [run_singleton, Follower.step, hidle]
        rfl
      · rw [h.mark]
        rfl
  | @attach i tail cursor l hline hloop =>
      refine h.setLine hwired hline (by simp) rfl rfl fun l' hloop' hpair hresuming => ?_
      rw [hloop] at hloop'
      cases hloop'
      obtain ⟨rfl, rfl⟩ := hpair
      have hreceiving : l.phase = .receiving :=
        (hwired.holds i _ l hline hloop).resolve_right (by simp)
      refine ⟨[.attach tail],
        { r with phase := .following ((logs l.agent l.stream).marked.attach cursor tail) },
        ?_, rfl, rfl, ?_⟩
      · rw [run_singleton, Follower.step, hresuming]
        rfl
      · rw [hreceiving]
        rfl
  | @refused i tail cursor l hline hloop =>
      refine h.setLine hwired hline (by simp) rfl rfl fun l' _ _ hresuming => ?_
      refine ⟨[.fail], { r with phase := .idle }, ?_, rfl, rfl, rfl⟩
      rw [run_singleton, Follower.step, hresuming]
      rfl
  | @broken i pos l hline hloop hphase =>
      refine h.setLine hwired hline (by simp) rfl rfl fun l' hloop' _ hfollowing => ?_
      rw [hloop] at hloop'
      cases hloop'
      rw [hphase] at hfollowing
      refine ⟨[.fail], { r with phase := .idle }, ?_, rfl, rfl, rfl⟩
      rw [run_singleton, Follower.step, hfollowing]
      rfl
  | @recv i pos l env hline hloop hphase henv =>
      refine h.recv hline hloop hphase ?_
      rintro ⟨rfl, rfl⟩
      exact henv
  | save hloop hphase => exact h.save hwired hagent hsound hloop hphase
  | enqueue hloop hphase => exact h.enqueue hwired hloop hphase

end Simulation

/-! ## Every envelope of a stream once -/

theorem Moves.wired (h : Moves s t i phase phase' l l') (hwired : s.Wired)
    (hholds : l'.phase = .receiving ∨ ∃ pos, phase' = .streaming pos) : t.Wired := by
  refine ⟨?_, ?_, ?_⟩
  · rw [h.lines, h.loops, List.length_set, List.length_set, hwired.lines]
  · intro m hm
    rw [h.loops] at hm
    rcases List.mem_or_eq_of_mem_set hm with hm | rfl
    · exact hwired.named m hm
    · rw [h.agent]
      exact hwired.named l (List.mem_of_getElem? h.loop)
  · intro j phase₂ l₂ hline hloop
    by_cases hij : i = j
    · subst hij
      rw [h.line_self] at hline
      rw [h.loop_self] at hloop
      cases hline
      cases hloop
      exact hholds
    · rw [h.line_of_ne hij] at hline
      rw [h.loop_of_ne hij] at hloop
      exact hwired.holds j phase₂ l₂ hline hloop

theorem Wired.setLine (h : s.Wired) (hline : s.lines[i]? = some phase)
    (hactive : phase ≠ .returned) (hlines : t.lines = s.lines.set i phase')
    (hfan : t.fan = s.fan)
    (hholds : ∀ l, s.fan.loops[i]? = some l →
      l.phase = .receiving ∨ (∃ pos, phase = .streaming pos) →
        l.phase = .receiving ∨ ∃ pos, phase' = .streaming pos) : t.Wired := by
  have hi : i < s.fan.loops.length := by
    rw [← h.lines]
    exact (List.getElem?_eq_some_iff.mp hline).1
  have hloop := List.getElem?_eq_getElem hi
  exact (moves_setLine hline hloop hactive phase' hlines hfan).wired h
    (hholds _ hloop (h.holds i phase _ hline hloop))

theorem Wired.step {e : UplinkEvent} (h : s.Wired) (hadmits : s.admits e = true)
    (hstep : Step logs backoff s e t) : t.Wired := by
  cases hstep with
  | @start agent stream =>
      simp only [admits, Bool.and_eq_true, Bool.not_eq_true', List.contains_eq_mem,
        decide_eq_false_iff_not] at hadmits
      refine ⟨?_, ?_, ?_⟩
      · simp [h.lines]
      · intro l hl
        rcases List.mem_append.mp hl with hl | hl
        · exact h.named l hl
        · rw [List.mem_singleton.mp hl]
          exact hadmits.1
      · intro j phase l hline hloop
        rcases h.concat_cases hline hloop with ⟨hline, hloop⟩ | ⟨-, -, rfl⟩
        · exact h.holds j phase l hline hloop
        · exact .inl rfl
  | cancel => exact ⟨h.lines, h.named, h.holds⟩
  | pass htime => exact ⟨h.lines, h.named, h.holds⟩
  | behind hloops hreceived hdata hpassed =>
      refine ⟨?_, ?_, ?_⟩
      all_goals
        dsimp only
        rw [hloops]
      · exact h.lines
      · exact h.named
      · exact h.holds
  | enter hline hlive => exact h.setLine hline (by simp) rfl rfl (by simp)
  | quit hline hdone => exact h.setLine hline (by simp) rfl rfl (by simp)
  | load hline hloop => exact h.setLine hline (by simp) rfl rfl (by simp)
  | unreachable hline => exact h.setLine hline (by simp) rfl rfl (by simp)
  | attach hline hloop => exact h.setLine hline (by simp) rfl rfl (by simp)
  | refused hline hloop => exact h.setLine hline (by simp) rfl rfl (by simp)
  | broken hline hloop hphase =>
      refine h.setLine hline (by simp) rfl rfl fun l hl _ => .inl ?_
      rw [hloop] at hl
      cases hl
      exact hphase
  | backOff hline hlive => exact h.setLine hline (by simp) rfl rfl (by simp)
  | ended hline hdone => exact h.setLine hline (by simp) rfl rfl (by simp)
  | wake hline htime => exact h.setLine hline (by simp) rfl rfl (by simp)
  | leave hline hdone => exact h.setLine hline (by simp) rfl rfl (by simp)
  | @recv i pos l env hline hloop hphase henv =>
      exact (moves_recv hline hloop env).wired h (.inr ⟨pos + 1, rfl⟩)
  | @save i l env hloop hphase =>
      obtain ⟨pos, hline⟩ := h.streaming hloop (by rw [hphase]; simp)
      exact (moves_loop hline hloop _ rfl).wired h (.inr ⟨pos, rfl⟩)
  | @enqueue i l env hloop hphase =>
      obtain ⟨pos, hline⟩ := h.streaming hloop (by rw [hphase]; simp)
      exact (moves_loop hline hloop _ (offer_frame _ _).1).wired h (.inr ⟨pos, rfl⟩)

private theorem wired_new (queueDepth : Nat) (ttl : Int) (file : CursorFile) (now : Int) :
    (new queueDepth ttl file now).Wired := by
  refine ⟨rfl, by simp [new, FanIn.new], ?_⟩
  intro i phase l hline
  simp [new] at hline

private theorem serves_new (queueDepth : Nat) (ttl : Int) (file : CursorFile) (now : Int)
    (agent stream : String) :
    (new queueDepth ttl file now).Serves agent stream
      (.start ((CursorStore.newFile file).load agent stream)) := by
  refine ⟨rfl, rfl, ?_, fun _ => rfl, ?_⟩
  · rintro i j ⟨phase, l, hline, -⟩
    simp [new] at hline
  · intro i phase l hline
    simp [new] at hline

structure Tracks (log : AgentLog) (initial : Option Cursor) (agent stream : String)
    (s : Uplinks) : Prop where
  wired : s.Wired
  reader : ∃ r : Follower EventEnvelope Cursor,
    r.Sound log.marked initial ∧ s.Serves agent stream r

theorem Tracks.step {initial : Option Cursor} {e : UplinkEvent}
    (h : s.Tracks (logs agent stream) initial agent stream) (hagent : '\x00' ∉ agent.toList)
    (hadmits : s.admits e = true) (hstep : Step logs backoff s e t) :
    t.Tracks (logs agent stream) initial agent stream := by
  obtain ⟨r, hsound, hserves⟩ := h.reader
  obtain ⟨events, r', hreads, hserves'⟩ := hserves.step h.wired hagent hsound hadmits hstep
  have hsound' := run_invariant (Follower.Sound (logs agent stream).marked initial)
    (fun _ _ _ h hstep => h.step hstep) hsound hreads
  exact ⟨h.wired.step hadmits hstep, r', hsound', hserves'⟩

theorem tracks_new (log : AgentLog) (queueDepth : Nat) (ttl : Int) (file : CursorFile) (now : Int)
    (agent stream : String) :
    (new queueDepth ttl file now).Tracks log ((CursorStore.newFile file).load agent stream)
      agent stream :=
  ⟨wired_new queueDepth ttl file now, _, Follower.sound_start _ _,
    serves_new queueDepth ttl file now agent stream⟩

/-- Over all reconnects, what is received of an agent and stream is one stretch of what the
agent serves: from the first envelope behind the cursor in the file on, if there is one,
nothing is left out and nothing comes twice. -/
theorem reconnects_resume_exactly {queueDepth : Nat} {ttl start : Int} {file : CursorFile}
    {events : List UplinkEvent} (hagent : '\x00' ∉ agent.toList)
    (hrun : run (restrict admits (step logs backoff)) (new queueDepth ttl file start) events =
      some s) :
    s.receivedOf agent stream <:+: (logs agent stream).envelopes ∧
      ∀ c, (CursorStore.newFile file).load agent stream = some c →
        s.receivedOf agent stream <+:
          (logs agent stream).envelopes.drop ((logs agent stream).marked.resume c) := by
  have htracks := run_invariant
    (Tracks (logs agent stream) ((CursorStore.newFile file).load agent stream) agent stream)
    (fun s e t h hstep => by
      obtain ⟨hadmits, hstep⟩ := restrict_eq_some.mp hstep
      exact h.step hagent hadmits (step_of_step hstep))
    (tracks_new _ queueDepth ttl file start agent stream) hrun
  obtain ⟨r, hsound, hserves⟩ := htracks.reader
  rw [hserves.got]
  exact hsound.got_eq

def stamp (seq : Nat) : EventEnvelope := ⟨some ⟨"node-1", "intent", seq⟩, .other⟩

def fourEnvelopes (_ _ : String) : AgentLog :=
  ⟨[stamp 3, stamp 5, stamp 6, stamp 9], by decide, by decide⟩

def brokenTwice : List UplinkEvent :=
  [.start "node-1" "intent", .check 0, .dial 0 true, .subscribe 0 true 0, .recv 0,
    .inner (.save 0), .inner (.enqueue 0), .recvError 0, .settle 0, .pass 10, .wake 0, .check 0,
    .dial 0 false, .settle 0, .pass 20, .wake 0, .check 0, .dial 0 true, .subscribe 0 true 0,
    .recv 0]

theorem reconnects_resume_brokenTwice : ∃ s,
    run (restrict admits (step fourEnvelopes 10))
      (new 8 60 (some [⟨"node-1", "node-1", "intent", 3⟩]) 0) brokenTwice = some s ∧
    s.receivedOf "node-1" "intent" = [stamp 5, stamp 6] ∧
      s.receivedOf "node-1" "intent" <+: [stamp 5, stamp 6, stamp 9] := by
  have hvalues : (run (restrict admits (step fourEnvelopes 10))
      (new 8 60 (some [⟨"node-1", "node-1", "intent", 3⟩]) 0) brokenTwice).map
        (fun s => s.receivedOf "node-1" "intent") = some [stamp 5, stamp 6] := by
    decide +kernel
  obtain ⟨s, hs, hreceived⟩ := Option.map_eq_some_iff.mp hvalues
  have hagent : '\x00' ∉ "node-1".toList := by decide
  obtain ⟨-, hresumes⟩ := reconnects_resume_exactly hagent hs
  exact ⟨s, hs, hreceived, hresumes ⟨"node-1", "intent", 3⟩ (by decide +kernel)⟩

end Uplinks

end KloudlensAggregator.Aggregator
