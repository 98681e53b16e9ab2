import Mathlib.Data.List.Perm.Basic
import KloudlensAggregator.Aggregator.FanIn

/-!
# What becomes of a received envelope

Every envelope that was received is dropped, on its way to the writer, consumed by
the registry, or emitted, and only one of these.  The envelopes of one goroutine
reach the writer in the order in which it received them.
-/

namespace KloudlensAggregator.Aggregator

open KloudlensAggregator.Foundation
open KloudlensAggregator.ClusterPeers

def EventEnvelope.isControl (env : EventEnvelope) : Bool :=
  match env.payload with
  | .intent ev => ev.kind == kindListenerAdvertise || ev.kind == kindListenerWithdraw
  | _ => false

/-- One turn of the writer: the envelope it took and the edge it built from it. -/
structure Turn where
  delivery : Delivery
  edge : Option IntentEvent
  deriving DecidableEq, Repr

namespace Turn

def edgeCalls (t : Turn) : List (String × EventEnvelope) :=
  (t.edge.map fun edge => (t.delivery.agent, ⟨none, .intent edge⟩)).toList

def calls (t : Turn) : List (String × EventEnvelope) :=
  if t.delivery.envelope.isControl then []
  else (t.delivery.agent, t.delivery.envelope) :: t.edgeCalls

def WellFormed (t : Turn) : Prop :=
  ∀ edge ∈ t.edge, ∃ ev l how, t.delivery.envelope.payload = .intent ev ∧
    ev.kind = kindNetworkExchange ∧ edge = peerEdge ev l how (metaOf ev).nodeName

theorem WellFormed.isControl_eq_false {t : Turn} (h : t.WellFormed) {edge : IntentEvent}
    (hedge : t.edge = some edge) : t.delivery.envelope.isControl = false := by
  obtain ⟨ev, l, how, hpayload, hkind, -⟩ := h edge hedge
  simp only [EventEnvelope.isControl, hpayload, hkind]
  decide

end Turn

namespace Peers

variable (p : Peers) (resolvers : Resolvers) (now : Int) (env : EventEnvelope)

def turn (d : Delivery) : Turn := ⟨d, (p.joinPeer resolvers now d.envelope).1⟩

private theorem write_eq :
    (p.write resolvers now env).1 =
      if env.isControl then []
      else
        env :: ((p.joinPeer resolvers now env).1.map fun edge => ⟨none, .intent edge⟩).toList := by
  unfold write foldAdvertise foldWithdraw EventEnvelope.isControl
  cases env.payload with
  | intent ev =>
      by_cases hadvertise : ev.kind = kindListenerAdvertise
      · simp only [hadvertise, ne_eq, not_true_eq_false, if_false, beq_self_eq_true,
          Bool.true_or, if_true]
        cases listenerFromAdvertise ev <;> rfl
      · by_cases hwithdraw : ev.kind = kindListenerWithdraw
        · simp only [hwithdraw, ne_eq, not_true_eq_false, if_true, if_false, beq_self_eq_true,
            Bool.or_true]
          rw [if_pos (by decide)]
          cases listenerFromWithdraw ev <;> rfl
        · simp [hadvertise, hwithdraw]
  | _ => rfl

theorem turn_calls (d : Delivery) :
    (p.turn resolvers now d).calls =
      (p.write resolvers now d.envelope).1.map fun env => (d.agent, env) := by
  simp only [turn, Turn.calls, Turn.edgeCalls, write_eq]
  by_cases hcontrol : d.envelope.isControl = true
  · simp [hcontrol]
  · cases (p.joinPeer resolvers now d.envelope).1 <;> simp [hcontrol]

theorem turn_wellFormed (d : Delivery) : (p.turn resolvers now d).WellFormed := by
  intro edge hedge
  simp only [turn, joinPeer] at hedge ⊢
  split at hedge
  · rename_i ev hpayload
    split at hedge
    · cases hedge
    · rename_i hkind
      split at hedge
      · cases hedge
      · split at hedge
        · cases hedge
        · split at hedge
          · cases hedge
          · rename_i l how _
            cases hedge
            exact ⟨ev, l, how, hpayload, not_not.mp hkind, rfl⟩
  · cases hedge

private theorem write_xnodeJoins (d : Delivery) :
    (p.write resolvers now d.envelope).2.xnodeJoins =
      p.xnodeJoins + [p.turn resolvers now d].countP fun t => t.edge.isSome := by
  have hcontrol : ∀ ev, d.envelope.payload = .intent ev → ev.kind ≠ kindNetworkExchange →
      (p.turn resolvers now d).edge = none := by
    intro ev hpayload hkind
    simp [turn, joinPeer, hpayload, hkind]
  unfold write foldAdvertise foldWithdraw
  cases hpayload : d.envelope.payload with
  | intent ev =>
      by_cases hadvertise : ev.kind = kindListenerAdvertise
      · have hnone := hcontrol ev hpayload (by rw [hadvertise]; decide)
        simp only [hadvertise, ne_eq, not_true_eq_false, if_false]
        cases listenerFromAdvertise ev <;> simp [hnone]
      · by_cases hwithdraw : ev.kind = kindListenerWithdraw
        · have hnone := hcontrol ev hpayload (by rw [hwithdraw]; decide)
          simp only [hwithdraw, ne_eq, not_true_eq_false, if_false]
          rw [if_pos (by decide)]
          cases listenerFromWithdraw ev <;> simp [hnone]
        · simp only [ne_eq, hadvertise, hwithdraw, not_false_eq_true, if_true]
          simp only [turn, joinPeer, hpayload]
          repeat' split
          all_goals simp_all
  | _ => simp [turn, joinPeer, hpayload]

end Peers

namespace FanIn

variable {s t : FanIn} {d : Delivery}

/-! ## Every envelope once -/

def inHands (s : FanIn) : List Delivery := s.loops.filterMap StreamLoop.held

/-- Where the received envelopes are. -/
def Conserved (s : FanIn) : Prop :=
  s.received.Perm (s.dropped ++ s.inHands ++ s.ch ++ s.writing.toList ++ s.handled)

def consumed (s : FanIn) : List Delivery := s.handled.filter fun d => d.envelope.isControl

def upstream (s : FanIn) : List Delivery := s.handled.filter fun d => !d.envelope.isControl

def ofPair (agent stream : String) (deliveries : List Delivery) : List Delivery :=
  deliveries.filter fun d => d.agent = agent ∧ d.stream = stream

theorem Conserved.accounts (h : s.Conserved) (hhands : s.inHands = [])
    (hwriting : s.writing = none) :
    s.received.Perm (s.dropped ++ s.ch ++ s.consumed ++ s.upstream) ∧
      s.received.length =
        s.dropped.length + s.ch.length + s.consumed.length + s.upstream.length := by
  have hhandled : (s.consumed ++ s.upstream).Perm s.handled :=
    List.filter_append_perm _ _
  have hperm : s.received.Perm (s.dropped ++ s.ch ++ s.consumed ++ s.upstream) := by
    refine List.Perm.trans h ?_
    rw [hhands, hwriting, Option.toList_none, List.append_nil, List.append_nil,
      List.append_assoc (s.dropped ++ s.ch)]
    exact (List.perm_append_left_iff _).mpr hhandled.symm
  refine ⟨hperm, ?_⟩
  rw [hperm.length_eq]
  simp only [List.length_append]

private theorem inHands_setPhase {i : Nat} {l : StreamLoop} (hl : s.loops[i]? = some l)
    (phase : LoopPhase) :
    ∃ others, s.inHands.Perm (l.held.toList ++ others) ∧
      (s.setPhase i l phase).inHands.Perm
        (({ l with phase := phase } : StreamLoop).held.toList ++ others) := by
  obtain ⟨hi, heq⟩ := List.getElem?_eq_some_iff.mp hl
  have hsplit : s.loops = s.loops.take i ++ l :: s.loops.drop (i + 1) := by
    rw [← heq, ← List.drop_eq_getElem_cons hi, List.take_append_drop]
  have hfilter : ∀ m : StreamLoop, List.filterMap StreamLoop.held [m] = m.held.toList := by
    intro m
    cases hm : m.held <;> simp [hm]
  refine ⟨(s.loops.take i ++ s.loops.drop (i + 1)).filterMap StreamLoop.held, ?_, ?_⟩
  · have hperm : s.loops.Perm ([l] ++ (s.loops.take i ++ s.loops.drop (i + 1))) := by
      conv_lhs => rw [hsplit]
      exact List.perm_middle
    rw [← hfilter l, ← List.filterMap_append]
    exact hperm.filterMap _
  · have hperm : (s.setPhase i l phase).loops.Perm
        ([{ l with phase := phase }] ++ (s.loops.take i ++ s.loops.drop (i + 1))) := by
      simp only [setPhase, List.set_eq_take_append_cons_drop, hi, if_true]
      exact List.perm_middle
    rw [← hfilter, ← List.filterMap_append]
    exact hperm.filterMap _

theorem count_inHands_setPhase {i : Nat} {l : StreamLoop} (hl : s.loops[i]? = some l)
    (phase : LoopPhase) (a : Delivery) :
    (s.setPhase i l phase).inHands.count a + l.held.toList.count a =
      s.inHands.count a + ({ l with phase := phase } : StreamLoop).held.toList.count a := by
  obtain ⟨others, hbefore, hafter⟩ := inHands_setPhase hl phase
  rw [hbefore.count_eq a, hafter.count_eq a, List.count_append, List.count_append]
  omega

theorem Conserved.of_count
    (h : ∀ a, t.received.count a = t.dropped.count a + t.inHands.count a + t.ch.count a +
      t.writing.toList.count a + t.handled.count a) : t.Conserved := by
  apply List.perm_iff_count.mpr
  intro a
  simp only [List.count_append]
  exact h a

theorem Conserved.count (h : s.Conserved) (a : Delivery) :
    s.received.count a = s.dropped.count a + s.inHands.count a + s.ch.count a +
      s.writing.toList.count a + s.handled.count a := by
  have hcount := List.Perm.count h a
  simp only [List.count_append] at hcount
  exact hcount

theorem Conserved.step {e : FanInEvent} (h : s.Conserved) (hstep : s.step e = some t) :
    t.Conserved := by
  apply Conserved.of_count
  intro a
  have hcount := h.count a
  cases e with
  | start agent stream =>
      cases hstep
      have hidle : List.filterMap StreamLoop.held [⟨agent, stream, .receiving⟩] = [] := rfl
      simpa [inHands, List.filterMap_append, hidle] using hcount
  | recv i env =>
      obtain ⟨l, hl, hphase, rfl⟩ := recv_of_step hstep
      have hhands := count_inHands_setPhase hl (.received env) a
      simp only [StreamLoop.held, hphase, Option.toList_none, Option.toList_some,
        List.count_nil] at hhands
      change (s.received ++ _).count a = s.dropped.count a +
        (s.setPhase i l (.received env)).inHands.count a + s.ch.count a +
        s.writing.toList.count a + s.handled.count a
      rw [List.count_append]
      omega
  | save i =>
      obtain ⟨l, env, hl, hphase, rfl⟩ := save_of_step hstep
      have hhands := count_inHands_setPhase hl (.saved env) a
      simp only [StreamLoop.held, hphase, Option.toList_some] at hhands
      change s.received.count a = s.dropped.count a +
        (s.setPhase i l (.saved env)).inHands.count a + s.ch.count a +
        s.writing.toList.count a + s.handled.count a
      omega
  | enqueue i =>
      obtain ⟨l, env, hl, hphase, rfl⟩ := enqueue_of_step hstep
      have hhands := count_inHands_setPhase hl .receiving a
      simp only [StreamLoop.held, hphase, Option.toList_some, Option.toList_none,
        List.count_nil] at hhands
      unfold offer
      split
      · change s.received.count a = s.dropped.count a +
          (s.setPhase i l .receiving).inHands.count a + (s.ch ++ _).count a +
          s.writing.toList.count a + s.handled.count a
        rw [List.count_append]
        omega
      · change s.received.count a = (s.dropped ++ _).count a +
          (s.setPhase i l .receiving).inHands.count a + s.ch.count a +
          s.writing.toList.count a + s.handled.count a
        rw [List.count_append]
        omega
  | dequeue =>
      obtain ⟨d, rest, hwriting, hch, rfl⟩ := dequeue_of_step hstep
      simp only [hwriting, hch, Option.toList_none, Option.toList_some, List.count_nil,
        inHands, ← List.singleton_append (l := rest), List.count_append] at hcount ⊢
      omega
  | write resolvers now =>
      obtain ⟨d, hwriting, rfl⟩ := Option.map_eq_some_iff.mp hstep
      simp only [hwriting, finish, Option.toList_none, Option.toList_some, List.count_nil,
        inHands, List.count_append] at hcount ⊢
      omega
  | flush order =>
      rcases flush_of_step hstep with ⟨-, rfl⟩ | ⟨-, -, rfl⟩ <;> exact hcount

/-! ## Turns of the writer -/

/-- The calls of `emitEnvelope` are those of the turns, one after another, and there is
an edge for each join that was counted. -/
structure Wrote (s : FanIn) (turns : List Turn) : Prop where
  deliveries : turns.map Turn.delivery = s.handled
  calls : s.emitted = turns.flatMap Turn.calls
  wellFormed : ∀ turn ∈ turns, turn.WellFormed
  joins : s.peers.xnodeJoins = turns.countP fun turn => turn.edge.isSome

theorem Wrote.finish {turns : List Turn} {resolvers : Resolvers} {now : Int}
    (h : s.Wrote turns) :
    (s.finish d resolvers now).Wrote (turns ++ [s.peers.turn resolvers now d]) := by
  constructor
  · simp only [List.map_append, h.deliveries, List.map_cons, List.map_nil]
    rfl
  · simp only [List.flatMap_append, List.flatMap_cons, List.flatMap_nil, List.append_nil,
      ← h.calls, Peers.turn_calls]
    rfl
  · intro turn hturn
    rcases List.mem_append.mp hturn with hold | hnew
    · exact h.wellFormed turn hold
    · rw [List.mem_singleton.mp hnew]
      exact s.peers.turn_wellFormed resolvers now d
  · rw [List.countP_append, ← h.joins]
    exact s.peers.write_xnodeJoins resolvers now d

theorem Wrote.step {turns : List Turn} {e : FanInEvent} (h : s.Wrote turns)
    (hstep : s.step e = some t) : ∃ turns', t.Wrote turns' := by
  cases e with
  | start agent stream =>
      cases hstep
      exact ⟨turns, h.deliveries, h.calls, h.wellFormed, h.joins⟩
  | recv i env =>
      obtain ⟨l, -, -, rfl⟩ := recv_of_step hstep
      exact ⟨turns, h.deliveries, h.calls, h.wellFormed, h.joins⟩
  | save i =>
      obtain ⟨l, env, -, -, rfl⟩ := save_of_step hstep
      exact ⟨turns, h.deliveries, h.calls, h.wellFormed, h.joins⟩
  | enqueue i =>
      obtain ⟨l, env, -, -, rfl⟩ := enqueue_of_step hstep
      unfold offer
      split <;> exact ⟨turns, h.deliveries, h.calls, h.wellFormed, h.joins⟩
  | dequeue =>
      obtain ⟨d, rest, -, -, rfl⟩ := dequeue_of_step hstep
      exact ⟨turns, h.deliveries, h.calls, h.wellFormed, h.joins⟩
  | write resolvers now =>
      obtain ⟨d, -, rfl⟩ := Option.map_eq_some_iff.mp hstep
      exact ⟨_, h.finish⟩
  | flush order =>
      rcases flush_of_step hstep with ⟨-, rfl⟩ | ⟨-, -, rfl⟩
      · exact ⟨turns, h⟩
      · exact ⟨turns, h.deliveries, h.calls, h.wellFormed, h.joins⟩

theorem Wrote.edge_follows {before after : List Turn} {turn : Turn} {edge : IntentEvent}
    (h : s.Wrote (before ++ turn :: after)) (hedge : turn.edge = some edge) :
    s.emitted = before.flatMap Turn.calls ++
      (turn.delivery.agent, turn.delivery.envelope) ::
        (turn.delivery.agent, ⟨none, .intent edge⟩) :: after.flatMap Turn.calls := by
  have hcontrol := Turn.WellFormed.isControl_eq_false (h.wellFormed turn (by simp)) hedge
  rw [h.calls]
  simp [Turn.calls, Turn.edgeCalls, hcontrol, hedge]

/-- The call `n` of `emitEnvelope` is for an exchange and the next one for its edge; the
seqs of the two are consecutive. -/
structure EdgeAt (s : FanIn) (seqs : List Nat) (turn : Turn) (edge : IntentEvent) (n : Nat) :
    Prop where
  exchange : s.emitted[n]? = some (turn.delivery.agent, turn.delivery.envelope)
  edge : s.emitted[n + 1]? = some (turn.delivery.agent, ⟨none, .intent edge⟩)
  seqs : ∃ seq, seqs[n]? = some seq ∧ seqs[n + 1]? = some (seq + 1)

theorem Wrote.edgeAt {before after : List Turn} {turn : Turn} {edge : IntentEvent}
    (h : s.Wrote (before ++ turn :: after)) (hedge : turn.edge = some edge) (first : Nat) :
    s.EdgeAt (List.range' first s.emitted.length) turn edge (before.flatMap Turn.calls).length := by
  have hemitted := h.edge_follows hedge
  have hlength := congrArg List.length hemitted
  simp only [List.length_append, List.length_cons] at hlength
  constructor
  · rw [hemitted]
    simp
  · rw [hemitted, List.getElem?_append_right (Nat.le_succ _)]
    simp
  · refine ⟨first + (before.flatMap Turn.calls).length, ?_, ?_⟩
    · rw [List.getElem?_range' (by omega), Nat.one_mul]
    · rw [List.getElem?_range' (by omega), Nat.one_mul, Nat.add_assoc]

/-! ## The order of one goroutine -/

def receivedBy (events : List FanInEvent) (i : Nat) : List EventEnvelope :=
  events.filterMap fun
    | .recv j env => if j = i then some env else none
    | _ => none

def heldBy (s : FanIn) (i : Nat) : List EventEnvelope :=
  ((s.loops[i]?.bind StreamLoop.held).map Delivery.envelope).toList

def taggedBy (tagged : List (Delivery × Nat)) (i : Nat) : List EventEnvelope :=
  (tagged.filter fun p => p.2 = i).map fun p => p.1.envelope

/-- Everything from the channel on can be tagged with the goroutine it came from,
such that each goroutine's envelopes are in its order. -/
structure InOrder (events : List FanInEvent) (s : FanIn) (tagged : List (Delivery × Nat)) :
    Prop where
  deliveries : tagged.map Prod.fst = s.handled ++ s.writing.toList ++ s.ch
  tags : ∀ p ∈ tagged, ∃ l, s.loops[p.2]? = some l ∧ p.1.agent = l.agent ∧ p.1.stream = l.stream
  order : ∀ i, (taggedBy tagged i ++ s.heldBy i).Sublist (receivedBy events i)

theorem receivedBy_append (events : List FanInEvent) (e : FanInEvent) (i : Nat) :
    receivedBy (events ++ [e]) i = receivedBy events i ++ receivedBy [e] i :=
  List.filterMap_append

theorem heldBy_setPhase_self {i : Nat} {l : StreamLoop} (hl : s.loops[i]? = some l)
    (phase : LoopPhase) :
    (s.setPhase i l phase).heldBy i =
      ((({ l with phase := phase } : StreamLoop).held).map Delivery.envelope).toList := by
  obtain ⟨hi, -⟩ := List.getElem?_eq_some_iff.mp hl
  simp only [heldBy, setPhase, List.getElem?_set_self hi, Option.bind_some]

theorem heldBy_setPhase_ne {i j : Nat} {l : StreamLoop} (phase : LoopPhase) (h : i ≠ j) :
    (s.setPhase i l phase).heldBy j = s.heldBy j := by
  simp only [heldBy, setPhase, List.getElem?_set_ne h]

theorem heldBy_of_phase {i : Nat} {l : StreamLoop} (hl : s.loops[i]? = some l) :
    s.heldBy i = (l.held.map Delivery.envelope).toList := by
  simp only [heldBy, hl, Option.bind_some]

theorem tag_setPhase {i j : Nat} {l m : StreamLoop} (hl : s.loops[i]? = some l)
    (phase : LoopPhase) (hm : s.loops[j]? = some m) :
    ∃ m', (s.setPhase i l phase).loops[j]? = some m' ∧ m'.agent = m.agent ∧
      m'.stream = m.stream := by
  by_cases hij : i = j
  · subst hij
    rw [hl] at hm
    cases hm
    obtain ⟨hi, -⟩ := List.getElem?_eq_some_iff.mp hl
    exact ⟨_, List.getElem?_set_self hi, rfl, rfl⟩
  · refine ⟨m, ?_, rfl, rfl⟩
    rw [← hm]
    exact List.getElem?_set_ne hij

theorem InOrder.tags_setPhase {events : List FanInEvent} {tagged : List (Delivery × Nat)}
    (h : InOrder events s tagged) {i : Nat} {l : StreamLoop} (hl : s.loops[i]? = some l)
    (phase : LoopPhase) :
    ∀ p ∈ tagged, ∃ m, (s.setPhase i l phase).loops[p.2]? = some m ∧ p.1.agent = m.agent ∧
      p.1.stream = m.stream := by
  intro p hp
  obtain ⟨m, hm, hagent, hstream⟩ := h.tags p hp
  obtain ⟨m', hm', hagent', hstream'⟩ := tag_setPhase hl phase hm
  exact ⟨m', hm', hagent.trans hagent'.symm, hstream.trans hstream'.symm⟩

private theorem taggedBy_append (tagged : List (Delivery × Nat)) (d : Delivery) (i j : Nat) :
    taggedBy (tagged ++ [(d, i)]) j = taggedBy tagged j ++ if i = j then [d.envelope] else [] := by
  simp only [taggedBy, List.filter_append, List.map_append]
  by_cases hij : i = j <;> simp [hij]

section InOrderSteps

variable {events : List FanInEvent} {tagged : List (Delivery × Nat)}

theorem InOrder.recv {i : Nat} {env : EventEnvelope} (h : InOrder events s tagged)
    (hstep : s.step (.recv i env) = some t) : InOrder (events ++ [.recv i env]) t tagged := by
  obtain ⟨l, hl, hphase, rfl⟩ := recv_of_step hstep
  refine ⟨h.deliveries, h.tags_setPhase hl _, ?_⟩
  intro j
  have horder := h.order j
  rw [receivedBy_append]
  by_cases hij : i = j
  · subst hij
    rw [heldBy_of_phase hl] at horder
    have hheld : (s.setPhase i l (.received env)).heldBy i = [env] := by
      rw [heldBy_setPhase_self hl]
      rfl
    have hreceived : receivedBy [.recv i env] i = [env] := by simp [receivedBy]
    change (taggedBy tagged i ++ (s.setPhase i l (.received env)).heldBy i).Sublist _
    rw [hheld, hreceived]
    simp only [StreamLoop.held, hphase, Option.map_none, Option.toList_none,
      List.append_nil] at horder
    exact horder.append (List.Sublist.refl [env])
  · have hheld : (s.setPhase i l (.received env)).heldBy j = s.heldBy j :=
      heldBy_setPhase_ne _ hij
    change (taggedBy tagged j ++ (s.setPhase i l (.received env)).heldBy j).Sublist _
    rw [hheld]
    exact horder.trans (List.sublist_append_left _ _)

theorem InOrder.of_heldBy {e : FanInEvent} {tagged' : List (Delivery × Nat)}
    (h : InOrder events s tagged)
    (hreceived : ∀ i, receivedBy [e] i = [])
    (hdeliveries : tagged'.map Prod.fst = t.handled ++ t.writing.toList ++ t.ch)
    (htags : ∀ p ∈ tagged', ∃ l, t.loops[p.2]? = some l ∧ p.1.agent = l.agent ∧
      p.1.stream = l.stream)
    (hkept : ∀ i, (taggedBy tagged' i ++ t.heldBy i).Sublist (taggedBy tagged i ++ s.heldBy i)) :
    InOrder (events ++ [e]) t tagged' := by
  -- A step that receives nothing.
  refine ⟨hdeliveries, htags, ?_⟩
  intro i
  rw [receivedBy_append, hreceived, List.append_nil]
  exact (hkept i).trans (h.order i)

theorem InOrder.save {i : Nat} (h : InOrder events s tagged)
    (hstep : s.step (.save i) = some t) : InOrder (events ++ [.save i]) t tagged := by
  obtain ⟨l, env, hl, hphase, rfl⟩ := save_of_step hstep
  refine h.of_heldBy (fun _ => rfl) h.deliveries (h.tags_setPhase hl _) ?_
  intro j
  change (taggedBy tagged j ++ (s.setPhase i l (.saved env)).heldBy j).Sublist _
  by_cases hij : i = j
  · subst hij
    rw [heldBy_setPhase_self hl, heldBy_of_phase hl]
    simp only [StreamLoop.held, hphase]
    exact List.Sublist.refl _
  · rw [heldBy_setPhase_ne _ hij]

theorem InOrder.enqueue {i : Nat} (h : InOrder events s tagged)
    (hstep : s.step (.enqueue i) = some t) :
    ∃ tagged', InOrder (events ++ [.enqueue i]) t tagged' := by
  obtain ⟨l, env, hl, hphase, rfl⟩ := enqueue_of_step hstep
  have hheld : s.heldBy i = [env] := by
    rw [heldBy_of_phase hl]
    simp [StreamLoop.held, hphase]
  have hidle : (s.setPhase i l .receiving).heldBy i = [] := by
    rw [heldBy_setPhase_self hl]
    rfl
  unfold offer
  split
  · refine ⟨tagged ++ [(⟨l.agent, l.stream, env⟩, i)],
      h.of_heldBy (fun _ => rfl) ?_ ?_ ?_⟩
    · simp only [List.map_append, h.deliveries, List.map_cons, List.map_nil]
      exact List.append_assoc _ _ _
    · intro p hp
      rcases List.mem_append.mp hp with hold | hnew
      · exact h.tags_setPhase hl .receiving p hold
      · rw [List.mem_singleton.mp hnew]
        exact tag_setPhase hl .receiving hl |>.imp fun m hm =>
          ⟨hm.1, hm.2.1.symm, hm.2.2.symm⟩
    · intro j
      rw [taggedBy_append]
      change ((taggedBy tagged j ++ _) ++ (s.setPhase i l .receiving).heldBy j).Sublist _
      by_cases hij : i = j
      · subst hij
        rw [hidle, hheld]
        simp
      · rw [heldBy_setPhase_ne _ hij]
        simp [hij]
  · refine ⟨tagged, h.of_heldBy (fun _ => rfl) h.deliveries (h.tags_setPhase hl _) ?_⟩
    intro j
    change (taggedBy tagged j ++ (s.setPhase i l .receiving).heldBy j).Sublist _
    by_cases hij : i = j
    · subst hij
      rw [hidle, List.append_nil]
      exact List.sublist_append_left _ _
    · rw [heldBy_setPhase_ne _ hij]

theorem InOrder.step {e : FanInEvent} (h : InOrder events s tagged)
    (hstep : s.step e = some t) : ∃ tagged', InOrder (events ++ [e]) t tagged' := by
  cases e with
  | start agent stream =>
      cases hstep
      refine ⟨tagged, h.of_heldBy (fun _ => rfl) h.deliveries ?_ ?_⟩
      · intro p hp
        obtain ⟨l, hl, hsame⟩ := h.tags p hp
        obtain ⟨hi, -⟩ := List.getElem?_eq_some_iff.mp hl
        exact ⟨l, by rw [List.getElem?_append_left hi, hl], hsame⟩
      · intro i
        refine List.Sublist.append (List.Sublist.refl _) ?_
        simp only [heldBy, List.getElem?_append]
        split
        · exact List.Sublist.refl _
        · cases hnew : ([⟨agent, stream, .receiving⟩] : List StreamLoop)[i - s.loops.length]? with
          | none => simp
          | some m =>
              have hm := List.mem_of_getElem? hnew
              rw [List.mem_singleton.mp hm]
              simp [StreamLoop.held]
  | recv i env => exact ⟨tagged, h.recv hstep⟩
  | save i => exact ⟨tagged, h.save hstep⟩
  | enqueue i => exact h.enqueue hstep
  | dequeue =>
      obtain ⟨d, rest, hwriting, hch, rfl⟩ := dequeue_of_step hstep
      refine ⟨tagged, h.of_heldBy (fun _ => rfl) ?_ h.tags fun _ => List.Sublist.refl _⟩
      rw [h.deliveries, hwriting, hch]
      simp
  | write resolvers now =>
      obtain ⟨d, hwriting, rfl⟩ := Option.map_eq_some_iff.mp hstep
      refine ⟨tagged, h.of_heldBy (fun _ => rfl) ?_ h.tags fun _ => List.Sublist.refl _⟩
      rw [h.deliveries, hwriting]
      simp [finish]
  | flush order =>
      rcases flush_of_step hstep with ⟨-, rfl⟩ | ⟨-, -, rfl⟩
      · exact ⟨tagged, h.of_heldBy (fun _ => rfl) h.deliveries h.tags fun _ => List.Sublist.refl _⟩
      · exact ⟨tagged, h.of_heldBy (fun _ => rfl) h.deliveries h.tags fun _ => List.Sublist.refl _⟩

end InOrderSteps

/-! ## Steps that are not interrupted -/

/-- The turn of a goroutine from `Recv` to the send, and a turn of the writer, as
single steps. -/
inductive MergeStep where
  | start (agent stream : String)
  | receive (i : Nat) (env : EventEnvelope)
  | turn (resolvers : Resolvers) (now : Int)
  | flush (order : List (Sigma fun _ : String => PersistedCursor))

def MergeStep.events : MergeStep → List FanInEvent
  | .start agent stream => [.start agent stream]
  | .receive i env => [.recv i env, .save i, .enqueue i]
  | .turn resolvers now => [.dequeue, .write resolvers now]
  | .flush order => [.flush order]

structure Settled (s : FanIn) : Prop where
  idle : ∀ l ∈ s.loops, l.phase = .receiving
  writing : s.writing = none
  order : (s.handled ++ s.ch).Sublist s.received

theorem Settled.inHands_eq_nil (h : s.Settled) : s.inHands = [] := by
  apply List.filterMap_eq_nil_iff.mpr
  intro l hl
  simp [StreamLoop.held, h.idle l hl]

theorem Settled.pair_order (h : s.Settled) (agent stream : String) :
    (ofPair agent stream s.upstream).Sublist (ofPair agent stream s.received) :=
  (List.filter_sublist.trans ((List.sublist_append_left _ _).trans h.order)).filter _

theorem Settled.receive {i : Nat} {env : EventEnvelope} (h : s.Settled)
    (hrun : run step s [.recv i env, .save i, .enqueue i] = some t) : t.Settled := by
  obtain ⟨s₁, hrecv, hrest⟩ := run_cons_eq_some.mp hrun
  obtain ⟨s₂, hsave, hlast⟩ := run_cons_eq_some.mp hrest
  rw [run_singleton] at hlast
  obtain ⟨l, hl, -, rfl⟩ := recv_of_step hrecv
  obtain ⟨hi, -⟩ := List.getElem?_eq_some_iff.mp hl
  have hl₁ : (s.setPhase i l (.received env)).loops[i]? =
      some { l with phase := .received env } := List.getElem?_set_self hi
  obtain ⟨l₁, env₁, hl₁', hphase₁, rfl⟩ := save_of_step hsave
  change (s.setPhase i l (.received env)).loops[i]? = some l₁ at hl₁'
  rw [hl₁] at hl₁'
  cases hl₁'
  cases hphase₁
  obtain ⟨l₂, env₂, hl₂, hphase₂, rfl⟩ := enqueue_of_step hlast
  have hl₂' : ((s.loops.set i { l with phase := .received env }).set i
      { l with phase := .saved env })[i]? = some { l with phase := .saved env } :=
    List.getElem?_set_self (by simpa using hi)
  change ((s.loops.set i { l with phase := .received env }).set i
      { l with phase := .saved env })[i]? = some l₂ at hl₂
  rw [hl₂'] at hl₂
  cases hl₂
  cases hphase₂
  have hidle : ∀ m ∈ ((s.loops.set i { l with phase := .received env }).set i
      { l with phase := .saved env }).set i { l with phase := .receiving },
      m.phase = .receiving := by
    intro m hm
    rw [List.set_set, List.set_set] at hm
    rcases List.mem_or_eq_of_mem_set hm with hold | rfl
    · exact h.idle m hold
    · rfl
  unfold offer
  split
  · refine ⟨hidle, h.writing, ?_⟩
    change (s.handled ++ (s.ch ++ [_])).Sublist (s.received ++ [_])
    rw [← List.append_assoc]
    exact h.order.append (List.Sublist.refl _)
  · exact ⟨hidle, h.writing, h.order.trans (List.sublist_append_left _ _)⟩

theorem Settled.turn {resolvers : Resolvers} {now : Int} (h : s.Settled)
    (hrun : run step s [.dequeue, .write resolvers now] = some t) : t.Settled := by
  obtain ⟨s₁, hdequeue, hwrite⟩ := run_cons_eq_some.mp hrun
  rw [run_singleton] at hwrite
  obtain ⟨d, rest, -, hch, rfl⟩ := dequeue_of_step hdequeue
  cases hwrite
  refine ⟨h.idle, rfl, ?_⟩
  have horder := h.order
  rw [hch] at horder
  simpa [finish] using horder

theorem Settled.step (h : s.Settled) {merge : MergeStep}
    (hrun : run FanIn.step s merge.events = some t) : t.Settled := by
  cases merge with
  | start agent stream =>
      cases hrun
      refine ⟨?_, h.writing, h.order⟩
      intro l hl
      rcases List.mem_append.mp hl with hold | hnew
      · exact h.idle l hold
      · rw [List.mem_singleton.mp hnew]
  | receive i env => exact h.receive hrun
  | turn resolvers now => exact h.turn hrun
  | flush order =>
      rw [MergeStep.events, run_singleton] at hrun
      rcases flush_of_step hrun with ⟨-, rfl⟩ | ⟨-, -, rfl⟩
      · exact h
      · exact ⟨h.idle, h.writing, h.order⟩

/-! ## Whole runs -/

section Runs

variable {queueDepth : Nat} {ttl : Int} {file : CursorFile} {events : List FanInEvent}

theorem conserved_run (hrun : run FanIn.step (new queueDepth ttl file) events = some s) :
    s.Conserved := by
  refine run_invariant Conserved (fun _ _ _ h hstep => h.step hstep) ?_ hrun
  exact List.Perm.refl []

theorem wrote_run (hrun : run FanIn.step (new queueDepth ttl file) events = some s) :
    ∃ turns, s.Wrote turns := by
  refine run_invariant (fun s => ∃ turns, s.Wrote turns) ?_ ?_ hrun
  · rintro s e t ⟨turns, h⟩ hstep
    exact h.step hstep
  · exact ⟨[], rfl, rfl, fun _ h => absurd h List.not_mem_nil, rfl⟩

theorem inOrder_run (hrun : run FanIn.step (new queueDepth ttl file) events = some s) :
    ∃ tagged, InOrder events s tagged := by
  have hinitially : ∃ tagged, InOrder [] (new queueDepth ttl file) tagged :=
    ⟨[], rfl, fun _ h => absurd h List.not_mem_nil, fun i => by simp [taggedBy, heldBy, new]⟩
  refine run_history (fun past s => ∃ tagged, InOrder past s tagged) ?_ hinitially hrun
  rintro past s e t ⟨tagged, h⟩ hstep
  exact h.step hstep

end Runs

theorem settled_run {queueDepth : Nat} {ttl : Int} {file : CursorFile} {steps : List MergeStep}
    (hrun : run FanIn.step (new queueDepth ttl file) (steps.flatMap MergeStep.events) = some s) :
    s.Settled := by
  rw [run_flatMap] at hrun
  refine run_invariant Settled (fun s e t h hstep => h.step hstep) ?_ hrun
  exact ⟨fun l hl => absurd hl List.not_mem_nil, rfl, List.Sublist.refl _⟩

end FanIn

end KloudlensAggregator.Aggregator
