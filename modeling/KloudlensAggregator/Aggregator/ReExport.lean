import KloudlensAggregator.Aggregator.Emit
import KloudlensAggregator.Aggregator.Envelope
import KloudlensAggregator.Envwal.Replay

/-!
# The re-export stream

The writer, the WAL and any number of `Subscribe` calls as one system.  Its
steps are those between which another goroutine can run: an append and the
broadcast that follows it; a registration, the snapshot of a `ReadFrom`, the
reading of one file, the delivery of one entry, one live receive.
-/

namespace KloudlensAggregator.Aggregator

open KloudlensAggregator.Foundation
open KloudlensAggregator.Envwal

structure LiveEnvelope where
  seq : Nat
  agent : String
  envelope : EventEnvelope
  deriving DecidableEq, Repr

inductive Phase where
  | registered
  | replaying (reader : Reader)
  | live
  | returned
  deriving DecidableEq, Repr

/-- What happens to an envelope on its way to one subscriber. -/
inductive Mark where
  | queued (ev : LiveEnvelope)
  | dropped (ev : LiveEnvelope)
  | sent (seq : Nat) (out : EventEnvelope)
  deriving DecidableEq, Repr

/-- One `Subscribe` call: the live subscriber, the local variables of the call,
and the history of its stream. -/
structure Subscriber where
  request : SubscribeRequest
  capacity : Nat
  ch : List LiveEnvelope
  drops : Nat
  phase : Phase
  lastSentSeq : Nat
  history : List Mark
  deriving DecidableEq, Repr

def registerSubscriber (request : SubscribeRequest) (buf : Int) : Subscriber :=
  { request := request
    capacity := if buf ≤ 0 then 1024 else buf.toNat
    ch := []
    drops := 0
    phase := .registered
    lastSentSeq := 0
    history := [] }

namespace Subscriber

def isRegistered (sub : Subscriber) : Bool := sub.phase ≠ .returned

def queue (ev : LiveEnvelope) (sub : Subscriber) : Subscriber :=
  { sub with ch := sub.ch ++ [ev], history := sub.history ++ [.queued ev] }

def drop (ev : LiveEnvelope) (sub : Subscriber) : Subscriber :=
  { sub with drops := sub.drops + 1, history := sub.history ++ [.dropped ev] }

def offer (ev : LiveEnvelope) (sub : Subscriber) : Subscriber :=
  if sub.isRegistered then
    if sub.ch.length < sub.capacity then sub.queue ev else sub.drop ev
  else sub

def send (aggregatorId : String) (seq : Nat) (env : EventEnvelope) (sub : Subscriber) :
    Subscriber :=
  { sub with
    lastSentSeq := seq
    history := sub.history ++
      [.sent seq (stampCursor aggregatorId env seq sub.request.streamName)] }

def replayEntry (aggregatorId : String) (e : Entry EventEnvelope) (sub : Subscriber) :
    Subscriber :=
  if sub.request.accepts e.envelope then sub.send aggregatorId e.seq e.envelope else sub

/-- Between registration and live tail: a cursor starts a replay of the WAL. -/
def snapshot (wal : Option Wal) (sub : Subscriber) : Subscriber :=
  match sub.request.cursor, wal with
  | some cursor, some w => { sub with phase := .replaying (w.snapshot cursor.seq) }
  | _, _ => { sub with phase := .live }

def read (pj : ProtoJson EventEnvelope) (aggregatorId : String) (dir : Directory)
    (reader : Reader) (sub : Subscriber) : Subscriber :=
  match reader.status with
  | .returned none => { sub with phase := .live }
  | .returned (some _) => { sub with phase := .returned }
  | .reading =>
      let next := reader.step pj dir
      let sub := { sub with phase := .replaying next.1 }
      match next.2 with
      | none => sub
      | some e => sub.replayEntry aggregatorId e

def receive (aggregatorId : String) (ev : LiveEnvelope) (rest : List LiveEnvelope)
    (sub : Subscriber) : Subscriber :=
  let sub := { sub with ch := rest }
  if ev.seq ≤ sub.lastSentSeq then sub
  else if sub.request.accepts ev.envelope then sub.send aggregatorId ev.seq ev.envelope
  else sub

def sent (sub : Subscriber) : List (Nat × EventEnvelope) :=
  sub.history.filterMap fun
    | .sent seq out => some (seq, out)
    | _ => none

def sentSeqs (sub : Subscriber) : List Nat := sub.sent.map Prod.fst

theorem capacity_pos (request : SubscribeRequest) (buf : Int) :
    0 < (registerSubscriber request buf).capacity := by
  simp only [registerSubscriber]
  split <;> omega

theorem offer_cases (ev : LiveEnvelope) (sub : Subscriber) :
    (sub.offer ev = sub ∧ sub.phase = .returned) ∨
    (sub.offer ev = sub.queue ev ∧ sub.ch.length < sub.capacity) ∨
    (sub.offer ev = sub.drop ev ∧ sub.capacity ≤ sub.ch.length) := by
  unfold offer
  split
  · split
    · rename_i hroom
      exact .inr (.inl ⟨rfl, hroom⟩)
    · rename_i hfull
      exact .inr (.inr ⟨rfl, Nat.le_of_not_lt hfull⟩)
  · rename_i hreturned
    simp only [isRegistered, ne_eq, decide_not, Bool.not_eq_true', decide_eq_false_iff_not,
      not_not] at hreturned
    exact .inl ⟨rfl, hreturned⟩

@[simp] theorem offer_request (ev : LiveEnvelope) (sub : Subscriber) :
    (sub.offer ev).request = sub.request := by
  rcases sub.offer_cases ev with ⟨h, -⟩ | ⟨h, -⟩ | ⟨h, -⟩ <;> simp [h, queue, drop]

@[simp] theorem offer_phase (ev : LiveEnvelope) (sub : Subscriber) :
    (sub.offer ev).phase = sub.phase := by
  rcases sub.offer_cases ev with ⟨h, -⟩ | ⟨h, -⟩ | ⟨h, -⟩ <;> simp [h, queue, drop]

@[simp] theorem offer_lastSentSeq (ev : LiveEnvelope) (sub : Subscriber) :
    (sub.offer ev).lastSentSeq = sub.lastSentSeq := by
  rcases sub.offer_cases ev with ⟨h, -⟩ | ⟨h, -⟩ | ⟨h, -⟩ <;> simp [h, queue, drop]

@[simp] theorem sent_offer (ev : LiveEnvelope) (sub : Subscriber) :
    (sub.offer ev).sent = sub.sent := by
  rcases sub.offer_cases ev with ⟨h, -⟩ | ⟨h, -⟩ | ⟨h, -⟩ <;> simp [h, queue, drop, sent]

@[simp] theorem sentSeqs_offer (ev : LiveEnvelope) (sub : Subscriber) :
    (sub.offer ev).sentSeqs = sub.sentSeqs := by
  simp [sentSeqs]

theorem mem_of_mem_offer {ev waiting : LiveEnvelope} {sub : Subscriber}
    (h : waiting ∈ (sub.offer ev).ch) : waiting ∈ sub.ch ∨ waiting = ev := by
  rcases sub.offer_cases ev with ⟨heq, -⟩ | ⟨heq, -⟩ | ⟨heq, -⟩ <;> rw [heq] at h
  · exact .inl h
  · simpa [queue] using h
  · exact .inl h

theorem drops_le_offer (ev : LiveEnvelope) (sub : Subscriber) :
    sub.drops ≤ (sub.offer ev).drops := by
  rcases sub.offer_cases ev with ⟨heq, -⟩ | ⟨heq, -⟩ | ⟨heq, -⟩ <;> rw [heq]
  · exact Nat.le_refl sub.drops
  · exact Nat.le_succ sub.drops

theorem snapshot_drops (wal : Option Wal) (sub : Subscriber) :
    (sub.snapshot wal).drops = sub.drops := by
  unfold snapshot
  split <;> rfl

theorem read_drops (pj : ProtoJson EventEnvelope) (aggregatorId : String) (dir : Directory)
    (reader : Reader) (sub : Subscriber) :
    (sub.read pj aggregatorId dir reader).drops = sub.drops := by
  unfold read
  split
  · rfl
  · rfl
  · dsimp only
    split
    · rfl
    · unfold replayEntry
      split <;> rfl

theorem receive_drops (aggregatorId : String) (ev : LiveEnvelope) (rest : List LiveEnvelope)
    (sub : Subscriber) : (sub.receive aggregatorId ev rest).drops = sub.drops := by
  simp only [receive]
  split
  · rfl
  · split <;> rfl

@[simp] theorem sent_send (aggregatorId : String) (seq : Nat) (env : EventEnvelope)
    (sub : Subscriber) :
    (sub.send aggregatorId seq env).sent =
      sub.sent ++ [(seq, stampCursor aggregatorId env seq sub.request.streamName)] := by
  simp [send, sent]

@[simp] theorem sentSeqs_send (aggregatorId : String) (seq : Nat) (env : EventEnvelope)
    (sub : Subscriber) :
    (sub.send aggregatorId seq env).sentSeqs = sub.sentSeqs ++ [seq] := by
  simp [sentSeqs]

end Subscriber

structure System where
  writer : Writer EventEnvelope
  /-- An envelope with its seq that is not broadcast yet. -/
  inflight : Option LiveEnvelope
  subs : List Subscriber

inductive SystemEvent where
  | emit (agent : String) (env : EventEnvelope) (clock : AppendClock) (faults : AppendFaults)
  | broadcast
  | gc (now : Int)
  | subscribe (request : SubscribeRequest) (buf : Int)
  | snapshot (i : Nat)
  | read (i : Nat)
  | receive (i : Nat)
  /-- The client goes away, or a send to it fails. -/
  | disconnect (i : Nat)

namespace System

def start (world : World EventEnvelope) : System := ⟨Writer.new world, none, []⟩

def wal (s : System) : Option Wal := s.writer.world.wal

def dir (s : System) : Directory := s.writer.world.dir

def update (s : System) (i : Nat) (sub : Subscriber) : System :=
  { s with subs := s.subs.set i sub }

def step (pj : ProtoJson EventEnvelope) (aggregatorId : String) (s : System) :
    SystemEvent → Option System
  | .emit agent env clock faults =>
      match s.inflight with
      | some _ => none
      | none =>
          let out := s.writer.assignSeq pj ⟨agent, some env, clock, faults⟩
          some { s with writer := out.2, inflight := some ⟨out.1.seq, agent, env⟩ }
  | .broadcast =>
      s.inflight.map fun ev =>
        { s with inflight := none, subs := s.subs.map (Subscriber.offer ev) }
  | .gc now =>
      s.wal.map fun w =>
        { s with writer := { s.writer with world := s.writer.world.gc w now } }
  | .subscribe request buf =>
      some { s with subs := s.subs ++ [registerSubscriber request buf] }
  | .snapshot i =>
      s.subs[i]?.bind fun sub =>
        if sub.phase = .registered then some (s.update i (sub.snapshot s.wal)) else none
  | .read i =>
      s.subs[i]?.bind fun sub =>
        match sub.phase with
        | .replaying reader => some (s.update i (sub.read pj aggregatorId s.dir reader))
        | _ => none
  | .receive i =>
      s.subs[i]?.bind fun sub =>
        match sub.phase, sub.ch with
        | .live, ev :: rest => some (s.update i (sub.receive aggregatorId ev rest))
        | _, _ => none
  | .disconnect i =>
      s.subs[i]?.map fun sub => s.update i { sub with phase := .returned }

end System

def bareEnvelope : EventEnvelope := ⟨none, .other⟩

def lifecycleEnvelope : EventEnvelope := ⟨none, .lifecycle⟩

def sampleMessages : ProtoJson EventEnvelope where
  marshal := fun env =>
    if env = bareEnvelope then some (Json.objectText [])
    else if env = lifecycleEnvelope then
      some (Json.objectText [("lifecycle", Json.objectText [])])
    else none
  unmarshal := fun text =>
    if text = Json.objectText [] then some bareEnvelope
    else if text = Json.objectText [("lifecycle", Json.objectText [])] then
      some lifecycleEnvelope
    else none
  marshal_isObject := by
    intro env text h
    split at h
    · cases h
      decide +kernel
    · split at h
      · cases h
        decide +kernel
      · cases h
  unmarshal_marshal := by
    intro env text h
    split at h
    · rename_i hbare
      cases h
      rw [hbare]
      rfl
    · split at h
      · rename_i hlifecycle
        cases h
        rw [hlifecycle]
        decide +kernel
      · cases h

def fromCursor (seq : Nat) : SubscribeRequest := ⟨[], some ⟨"cluster-a", "", seq⟩, none⟩

/-! ## What one step does -/

variable {pj : ProtoJson EventEnvelope} {aggregatorId : String}

/-- What a step of the system is for one of its subscribers. -/
inductive Advance (pj : ProtoJson EventEnvelope) (aggregatorId : String) (s : System)
    (sub : Subscriber) : SystemEvent → System → Subscriber → Prop
  | emit {agent : String} {env : EventEnvelope} {clock : AppendClock}
      {faults : AppendFaults} {t : System} (hidle : s.inflight = none)
      (hwriter : t.writer = (s.writer.assignSeq pj ⟨agent, some env, clock, faults⟩).2)
      (hinflight : t.inflight =
        some ⟨(s.writer.assignSeq pj ⟨agent, some env, clock, faults⟩).1.seq, agent, env⟩) :
      Advance pj aggregatorId s sub (.emit agent env clock faults) t sub
  | broadcast {ev : LiveEnvelope} {t : System} (hev : s.inflight = some ev)
      (hwriter : t.writer = s.writer) (hinflight : t.inflight = none) :
      Advance pj aggregatorId s sub .broadcast t (sub.offer ev)
  | gc {now : Int} {w : Wal} {t : System} (hwal : s.wal = some w)
      (hwriter : t.writer = { s.writer with world := s.writer.world.gc w now })
      (hinflight : t.inflight = s.inflight) :
      Advance pj aggregatorId s sub (.gc now) t sub
  /-- A step of another subscriber. -/
  | other {event : SystemEvent} {t : System} (hwriter : t.writer = s.writer)
      (hinflight : t.inflight = s.inflight) : Advance pj aggregatorId s sub event t sub
  | snapshot {i : Nat} {t : System} (hphase : sub.phase = .registered)
      (hwriter : t.writer = s.writer) (hinflight : t.inflight = s.inflight) :
      Advance pj aggregatorId s sub (.snapshot i) t (sub.snapshot s.wal)
  | read {i : Nat} {reader : Reader} {t : System} (hphase : sub.phase = .replaying reader)
      (hwriter : t.writer = s.writer) (hinflight : t.inflight = s.inflight) :
      Advance pj aggregatorId s sub (.read i) t (sub.read pj aggregatorId s.dir reader)
  | receive {i : Nat} {ev : LiveEnvelope} {rest : List LiveEnvelope} {t : System}
      (hphase : sub.phase = .live) (hch : sub.ch = ev :: rest)
      (hwriter : t.writer = s.writer) (hinflight : t.inflight = s.inflight) :
      Advance pj aggregatorId s sub (.receive i) t (sub.receive aggregatorId ev rest)
  | disconnect {i : Nat} {t : System} (hwriter : t.writer = s.writer)
      (hinflight : t.inflight = s.inflight) :
      Advance pj aggregatorId s sub (.disconnect i) t { sub with phase := .returned }

private theorem update_cases {s : System} {k i : Nat} {sub old new : Subscriber}
    (hk : s.subs[k]? = some sub) (hi : s.subs[i]? = some old) :
    (s.update i new).subs[k]? = some sub ∨
      (old = sub ∧ (s.update i new).subs[k]? = some new) := by
  simp only [System.update]
  by_cases hik : i = k
  · subst hik
    rw [hk] at hi
    cases hi
    have hlength := (List.getElem?_eq_some_iff.mp hk).1
    exact .inr ⟨rfl, List.getElem?_set_self hlength⟩
  · exact .inl ((List.getElem?_set_ne hik).trans hk)

theorem System.registered_of_step {s t : System} {event : SystemEvent}
    (h : s.step pj aggregatorId event = some t) {k : Nat} {sub : Subscriber}
    (hk : s.subs[k]? = none) (hnew : t.subs[k]? = some sub) :
    t.writer = s.writer ∧ t.inflight = s.inflight ∧
      ∃ request buf, sub = registerSubscriber request buf := by
  have hlength : ∀ t : System, t.subs.length = s.subs.length → ¬ t.subs[k]? = some sub := by
    intro t hsame hsome
    have hbound := List.getElem?_eq_none_iff.mp hk
    have := (List.getElem?_eq_some_iff.mp hsome).1
    omega
  cases event with
  | emit agent env clock faults =>
      simp only [System.step] at h
      split at h
      · cases h
      · cases h
        exact absurd hnew (hlength _ rfl)
  | broadcast =>
      obtain ⟨ev, -, rfl⟩ := Option.map_eq_some_iff.mp h
      exact absurd hnew (hlength _ (by simp))
  | gc now =>
      obtain ⟨w, -, rfl⟩ := Option.map_eq_some_iff.mp h
      exact absurd hnew (hlength _ rfl)
  | subscribe request buf =>
      cases h
      have hbound := List.getElem?_eq_none_iff.mp hk
      rw [List.getElem?_append_right hbound] at hnew
      have hmem := List.mem_of_getElem? hnew
      exact ⟨rfl, rfl, request, buf, List.mem_singleton.mp hmem⟩
  | snapshot i =>
      obtain ⟨old, -, h⟩ := Option.bind_eq_some_iff.mp h
      split at h
      · cases h
        exact absurd hnew (hlength _ (by simp [System.update]))
      · cases h
  | read i =>
      obtain ⟨old, -, h⟩ := Option.bind_eq_some_iff.mp h
      split at h
      · cases h
        exact absurd hnew (hlength _ (by simp [System.update]))
      · cases h
  | receive i =>
      obtain ⟨old, -, h⟩ := Option.bind_eq_some_iff.mp h
      split at h
      · cases h
        exact absurd hnew (hlength _ (by simp [System.update]))
      · cases h
  | disconnect i =>
      obtain ⟨old, -, rfl⟩ := Option.map_eq_some_iff.mp h
      exact absurd hnew (hlength _ (by simp [System.update]))

theorem System.advance_of_step {s t : System} {event : SystemEvent}
    (h : s.step pj aggregatorId event = some t) {k : Nat} {sub : Subscriber}
    (hk : s.subs[k]? = some sub) :
    ∃ sub', t.subs[k]? = some sub' ∧ Advance pj aggregatorId s sub event t sub' := by
  cases event with
  | emit agent env clock faults =>
      simp only [System.step] at h
      split at h
      · cases h
      · rename_i hidle
        cases h
        exact ⟨sub, hk, .emit hidle rfl rfl⟩
  | broadcast =>
      obtain ⟨ev, hev, rfl⟩ := Option.map_eq_some_iff.mp h
      refine ⟨sub.offer ev, ?_, .broadcast hev rfl rfl⟩
      simp [hk]
  | gc now =>
      obtain ⟨w, hwal, rfl⟩ := Option.map_eq_some_iff.mp h
      exact ⟨sub, hk, .gc hwal rfl rfl⟩
  | subscribe request buf =>
      cases h
      refine ⟨sub, ?_, .other rfl rfl⟩
      rw [List.getElem?_append_left (List.getElem?_eq_some_iff.mp hk).1]
      exact hk
  | snapshot i =>
      obtain ⟨old, hi, h⟩ := Option.bind_eq_some_iff.mp h
      split at h
      · rename_i hphase
        cases h
        rcases update_cases hk hi with hsame | ⟨rfl, hnew⟩
        · exact ⟨sub, hsame, .other rfl rfl⟩
        · exact ⟨_, hnew, .snapshot hphase rfl rfl⟩
      · cases h
  | read i =>
      obtain ⟨old, hi, h⟩ := Option.bind_eq_some_iff.mp h
      split at h
      · rename_i reader hphase
        cases h
        rcases update_cases hk hi with hsame | ⟨rfl, hnew⟩
        · exact ⟨sub, hsame, .other rfl rfl⟩
        · exact ⟨_, hnew, .read hphase rfl rfl⟩
      · cases h
  | receive i =>
      obtain ⟨old, hi, h⟩ := Option.bind_eq_some_iff.mp h
      split at h
      · rename_i ev rest hphase hch
        cases h
        rcases update_cases hk hi with hsame | ⟨rfl, hnew⟩
        · exact ⟨sub, hsame, .other rfl rfl⟩
        · exact ⟨_, hnew, .receive hphase hch rfl rfl⟩
      · cases h
  | disconnect i =>
      obtain ⟨old, hi, rfl⟩ := Option.map_eq_some_iff.mp h
      rcases update_cases hk hi with hsame | ⟨rfl, hnew⟩
      · exact ⟨sub, hsame, .other rfl rfl⟩
      · exact ⟨_, hnew, .disconnect rfl rfl⟩

inductive WriterStep (pj : ProtoJson EventEnvelope) (s : System) :
    SystemEvent → Writer EventEnvelope → Option LiveEnvelope → Prop
  | emit {agent : String} {env : EventEnvelope} {clock : AppendClock}
      {faults : AppendFaults} (hidle : s.inflight = none) :
      WriterStep pj s (.emit agent env clock faults)
        (s.writer.assignSeq pj ⟨agent, some env, clock, faults⟩).2
        (some ⟨(s.writer.assignSeq pj ⟨agent, some env, clock, faults⟩).1.seq, agent, env⟩)
  | broadcast {ev : LiveEnvelope} (hev : s.inflight = some ev) :
      WriterStep pj s .broadcast s.writer none
  | gc {now : Int} {w : Wal} (hwal : s.wal = some w) :
      WriterStep pj s (.gc now) { s.writer with world := s.writer.world.gc w now } s.inflight
  | idle {event : SystemEvent} : WriterStep pj s event s.writer s.inflight

theorem System.writerStep_of_step {s t : System} {event : SystemEvent}
    (h : s.step pj aggregatorId event = some t) :
    WriterStep pj s event t.writer t.inflight := by
  cases event with
  | emit agent env clock faults =>
      simp only [System.step] at h
      split at h
      · cases h
      · rename_i hidle
        cases h
        exact .emit hidle
  | broadcast =>
      obtain ⟨ev, hev, rfl⟩ := Option.map_eq_some_iff.mp h
      exact .broadcast hev
  | gc now =>
      obtain ⟨w, hwal, rfl⟩ := Option.map_eq_some_iff.mp h
      exact .gc hwal
  | subscribe request buf =>
      cases h
      exact .idle
  | snapshot i =>
      obtain ⟨sub, -, h⟩ := Option.bind_eq_some_iff.mp h
      split at h
      · cases h
        exact .idle
      · cases h
  | read i =>
      obtain ⟨sub, -, h⟩ := Option.bind_eq_some_iff.mp h
      split at h
      · cases h
        exact .idle
      · cases h
  | receive i =>
      obtain ⟨sub, -, h⟩ := Option.bind_eq_some_iff.mp h
      split at h
      · cases h
        exact .idle
      · cases h
  | disconnect i =>
      obtain ⟨sub, -, rfl⟩ := Option.map_eq_some_iff.mp h
      exact .idle

/-! ## Appends that succeed -/

def System.appendSucceeds (pj : ProtoJson EventEnvelope) (s : System) : SystemEvent → Bool
  | .emit _ env _ faults =>
      faults == .none && (pj.marshal env).isSome && s.writer.world.isOpen
  | _ => true

theorem System.appendSucceeds_emit {s : System} {agent : String} {env : EventEnvelope}
    {clock : AppendClock} {faults : AppendFaults}
    (h : s.appendSucceeds pj (.emit agent env clock faults) = true) :
    ∃ w text, s.wal = some w ∧ w.curOpen = true ∧ pj.marshal env = some text ∧
      faults = .none ∧
      (s.writer.assignSeq pj ⟨agent, some env, clock, faults⟩).1.seq = w.seq + 1 ∧
      (s.writer.assignSeq pj ⟨agent, some env, clock, faults⟩).2.world =
        s.writer.world.append pj w agent (some env) clock .none := by
  simp only [System.appendSucceeds, Bool.and_eq_true, beq_iff_eq, Option.isSome_iff_exists,
    World.isOpen, Option.any_eq_true] at h
  obtain ⟨⟨rfl, text, htext⟩, w, hwal, hopen⟩ := h
  have hresult : (w.append pj s.writer.world.dir agent (some env) clock .none).1 =
      .ok (w.seq + 1) := by
    rw [append_eq s.writer.world.dir hopen agent htext clock]
  refine ⟨w, text, hwal, hopen, htext, rfl, ?_, ?_⟩
  · simp [Writer.assignSeq, hwal, hresult]
  · simp [Writer.assignSeq, hwal, hresult]

def System.loggedStep (pj : ProtoJson EventEnvelope) (aggregatorId : String) :
    System → SystemEvent → Option System :=
  restrict (System.appendSucceeds pj) (System.step pj aggregatorId)

/-- The WAL holds the log, and an envelope in flight is its last entry. -/
structure System.Logged (pj : ProtoJson EventEnvelope) (s : System)
    (log : List (Entry EventEnvelope)) : Prop where
  keeps : s.writer.world.Keeps pj log
  inflight : ∀ ev, s.inflight = some ev →
    ∃ ts, log.getLast? = some ⟨ev.seq, ev.agent, ev.envelope, ts⟩

theorem System.Logged.start {world : World EventEnvelope} {log : List (Entry EventEnvelope)}
    (h : world.Keeps pj log) : (System.start world).Logged pj log :=
  ⟨h, by simp [System.start]⟩

theorem System.Logged.step {s t : System} {log : List (Entry EventEnvelope)}
    (h : s.Logged pj log) {event : SystemEvent}
    (hstep : s.loggedStep pj aggregatorId event = some t) :
    ∃ log', t.Logged pj log' := by
  obtain ⟨hsucceeds, hstep⟩ := restrict_eq_some.mp hstep
  have hwriter := System.writerStep_of_step hstep
  obtain ⟨writer, inflight, subs⟩ := t
  cases hwriter with
  | @emit agent env clock faults hidle =>
      obtain ⟨w, text, hwal, hopen, htext, -, hseq, hworld⟩ := s.appendSucceeds_emit hsucceeds
      refine ⟨log ++ [⟨w.seq + 1, agent, env, clock.ts⟩], ?_, ?_⟩
      · simp only [hworld]
        exact h.keeps.append hwal hopen agent htext clock
      · rintro ev ⟨⟩
        exact ⟨clock.ts, by rw [List.getLast?_concat, hseq]⟩
  | broadcast => exact ⟨log, h.keeps, by simp⟩
  | gc hwal => exact ⟨log, h.keeps.gc hwal _, h.inflight⟩
  | idle => exact ⟨log, h.keeps, h.inflight⟩

theorem System.Logged.run {s t : System} {log : List (Entry EventEnvelope)}
    (h : s.Logged pj log) {events : List SystemEvent}
    (hrun : Foundation.run (System.loggedStep pj aggregatorId) s events = some t) :
    ∃ log', t.Logged pj log' := by
  apply run_invariant (fun s : System => ∃ log, s.Logged pj log) _ ⟨log, h⟩ hrun
  rintro s event t ⟨log, h⟩ hstep
  exact h.step hstep

theorem System.Logged.inflight_seq {s : System} {log : List (Entry EventEnvelope)}
    (h : s.Logged pj log) {ev : LiveEnvelope} (hev : s.inflight = some ev) {w : Wal}
    (hwal : s.wal = some w) : ev.seq = w.seq ∧ 0 < w.seq := by
  obtain ⟨ts, hlast⟩ := h.inflight ev hev
  have hlayout := h.keeps.layout w hwal
  rw [List.getLast?_eq_getElem?] at hlast
  have hseq := hlayout.dense.seq hlast
  have hlength := (List.getElem?_eq_some_iff.mp hlast).1
  have := hlayout.seq_eq
  simp only at hseq
  omega

end KloudlensAggregator.Aggregator
