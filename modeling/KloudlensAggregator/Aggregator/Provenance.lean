import KloudlensAggregator.Aggregator.Merge
import KloudlensAggregator.ClusterPeers.Refinement
import KloudlensAggregator.Foundation.Separated

/-!
# Where an edge comes from

The registry is written by the writer, from the advertises and the withdraws it
takes off the channel, and swept by `SweepEvery` and by every reading of the
statistics.  An edge that leaves the aggregator must name a listener that some
agent has advertised, and has advertised lately.
-/

namespace KloudlensAggregator.Aggregator

open KloudlensAggregator.Foundation
open KloudlensAggregator.ClusterPeers

/-! ## What a turn does -/

def controlOp (env : EventEnvelope) : Option Op :=
  match env.payload with
  | .intent ev =>
      ((listenerFromAdvertise ev).map .observe).or ((listenerFromWithdraw ev).map .remove)
  | _ => none

def exchangeOf (env : EventEnvelope) : Option IntentEvent :=
  match env.payload with
  | .intent ev =>
      if ev.kind = kindNetworkExchange ∧ attrOf ev attrPeer ≠ "" ∧
          ev.attributes.lookup attrPeerPID = none then some ev
      else none
  | _ => none

private theorem listenerFromAdvertise_of_ne {ev : IntentEvent}
    (h : ev.kind ≠ kindListenerAdvertise) :
    listenerFromAdvertise ev = none := if_pos h

private theorem listenerFromWithdraw_of_ne {ev : IntentEvent} (h : ev.kind ≠ kindListenerWithdraw) :
    listenerFromWithdraw ev = none := if_pos h

namespace Peers

variable (p : Peers) (resolvers : Resolvers) (now : Int) (env : EventEnvelope)

private theorem joinPeer_eq :
    p.joinPeer resolvers now env =
      match exchangeOf env with
      | none => (none, p)
      | some ev =>
          match p.registry.join resolvers (attrOf ev attrPeer) now with
          | none => (none, { p with xnodeMisses := p.xnodeMisses + 1 })
          | some (l, how) =>
              (some (peerEdge ev l how (metaOf ev).nodeName),
                { p with
                  xnodeJoins := p.xnodeJoins + 1
                  vipJoins := if how = .serviceVIP then p.vipJoins + 1 else p.vipJoins }) := by
  unfold joinPeer exchangeOf
  cases env.payload with
  | intent ev =>
      dsimp only
      by_cases hkind : ev.kind = kindNetworkExchange
      · by_cases hpeer : attrOf ev attrPeer = ""
        · simp [hkind, hpeer]
        · cases ev.attributes.lookup attrPeerPID with
          | none =>
              rw [if_neg (not_not.mpr hkind), if_neg hpeer,
                if_pos (And.intro hkind (And.intro hpeer rfl))]
              rfl
          | some pid => simp [hkind, hpeer]
      · simp [hkind]
  | _ => rfl

variable {p resolvers now env} in
private theorem joinPeer_of_none (h : exchangeOf env = none) :
    p.joinPeer resolvers now env = (none, p) := by
  rw [joinPeer_eq, h]

variable {p resolvers now env} in
private theorem joinPeer_of_miss {ev : IntentEvent} (h : exchangeOf env = some ev)
    (hjoin : p.registry.join resolvers (attrOf ev attrPeer) now = none) :
    p.joinPeer resolvers now env = (none, { p with xnodeMisses := p.xnodeMisses + 1 }) := by
  rw [joinPeer_eq, h]
  dsimp only
  rw [hjoin]

variable {p resolvers now env} in
private theorem joinPeer_of_join {ev : IntentEvent} {l : Listener} {how : How}
    (h : exchangeOf env = some ev)
    (hjoin : p.registry.join resolvers (attrOf ev attrPeer) now = some (l, how)) :
    p.joinPeer resolvers now env =
      (some (peerEdge ev l how (metaOf ev).nodeName),
        { p with
          xnodeJoins := p.xnodeJoins + 1
          vipJoins := if how = .serviceVIP then p.vipJoins + 1 else p.vipJoins }) := by
  rw [joinPeer_eq, h]
  dsimp only
  rw [hjoin]

private theorem write_peers :
    (p.write resolvers now env).2 =
      match controlOp env with
      | some op => { p with registry := p.registry.apply (now, op) }
      | none => (p.joinPeer resolvers now env).2 := by
  unfold write foldAdvertise foldWithdraw controlOp
  cases hpayload : env.payload with
  | intent ev =>
      dsimp only
      by_cases hadvertise : ev.kind = kindListenerAdvertise
      · have hwithdraw : ev.kind ≠ kindListenerWithdraw := by
          rw [hadvertise]
          decide
        have hexchange : ev.kind ≠ kindNetworkExchange := by
          rw [hadvertise]
          decide
        rw [if_neg (not_not.mpr hadvertise), listenerFromWithdraw_of_ne hwithdraw]
        cases listenerFromAdvertise ev with
        | none => simp [joinPeer, hpayload, hexchange]
        | some l => rfl
      · rw [if_pos hadvertise, listenerFromAdvertise_of_ne hadvertise]
        by_cases hwithdraw : ev.kind = kindListenerWithdraw
        · have hexchange : ev.kind ≠ kindNetworkExchange := by
            rw [hwithdraw]
            decide
          rw [if_neg (not_not.mpr hwithdraw)]
          cases listenerFromWithdraw ev with
          | none => simp [joinPeer, hpayload, hexchange]
          | some l => rfl
        · rw [if_pos hwithdraw, listenerFromWithdraw_of_ne hwithdraw]
          rfl
  | _ => rfl

private theorem joinPeer_registry : (p.joinPeer resolvers now env).2.registry = p.registry := by
  rw [joinPeer_eq]
  split
  · rfl
  · split <;> rfl

private theorem write_registry :
    (p.write resolvers now env).2.registry =
      match controlOp env with
      | some op => p.registry.apply (now, op)
      | none => p.registry := by
  rw [write_peers]
  split
  · rfl
  · exact p.joinPeer_registry resolvers now env

end Peers

/-! ## The writer and the sweepers -/

/-- Who took the lock of the registry. -/
inductive RegistryUse where
  | turn (resolvers : Resolvers) (t : Turn)
  /-- `SweepEvery`, or `Stats`. -/
  | sweep

namespace RegistryUse

def op : RegistryUse → Option Op
  | .turn _ t => controlOp t.delivery.envelope
  | .sweep => some .sweep

def key (use : RegistryUse) : Option Key := use.op.bind Op.key

def turn? : RegistryUse → Option Turn
  | .turn _ t => some t
  | .sweep => none

end RegistryUse

abbrev UseLog := List (Int × RegistryUse)

def UseLog.ops (log : UseLog) : History :=
  log.filterMap fun use => use.2.op.map fun op => (use.1, op)

def UseLog.turns (log : UseLog) : List Turn := log.filterMap fun use => use.2.turn?

structure Attribution where
  fan : FanIn
  clock : Int
  log : UseLog

inductive AttributionEvent where
  | fan (e : FanInEvent)
  | sweep (now : Int)

namespace Attribution

def start (queueDepth : Nat) (ttl : Int) (file : CursorFile) (now : Int) : Attribution :=
  ⟨FanIn.new queueDepth ttl file, now, []⟩

def sweep (s : Attribution) (now : Int) : Attribution :=
  { fan := { s.fan with
      peers := { s.fan.peers with registry := s.fan.peers.registry.sweep now } }
    clock := now
    log := s.log ++ [(now, .sweep)] }

/-- The clock is read with the lock held, so that its readings do not go back. -/
def step (s : Attribution) : AttributionEvent → Option Attribution
  | .fan (.write resolvers now) =>
      if s.clock ≤ now then
        s.fan.writing.map fun d =>
          { fan := s.fan.finish d resolvers now
            clock := now
            log := s.log ++ [(now, .turn resolvers (s.fan.peers.turn resolvers now d))] }
      else none
  | .fan e => (s.fan.step e).map fun fan => { s with fan := fan }
  | .sweep now => if s.clock ≤ now then some (s.sweep now) else none

private theorem step_cases {s t : Attribution} {event : AttributionEvent}
    (h : s.step event = some t) :
    (∃ resolvers now d, s.clock ≤ now ∧ t =
      { fan := s.fan.finish d resolvers now
        clock := now
        log := s.log ++ [(now, .turn resolvers (s.fan.peers.turn resolvers now d))] }) ∨
    (∃ now, s.clock ≤ now ∧ t = s.sweep now) ∨
    (t.fan.peers = s.fan.peers ∧ t.fan.handled = s.fan.handled ∧
      t.fan.emitted = s.fan.emitted ∧ t.clock = s.clock ∧ t.log = s.log) := by
  cases event with
  | sweep now =>
      simp only [step] at h
      split at h
      · cases h
        exact .inr (.inl ⟨now, ‹_›, rfl⟩)
      · cases h
  | fan e =>
      cases e with
      | write resolvers now =>
          simp only [step] at h
          split at h
          · obtain ⟨d, -, rfl⟩ := Option.map_eq_some_iff.mp h
            exact .inl ⟨resolvers, now, d, ‹_›, rfl⟩
          · cases h
      | start agent stream =>
          cases h
          exact .inr (.inr ⟨rfl, rfl, rfl, rfl, rfl⟩)
      | recv i env =>
          obtain ⟨fan, hfan, rfl⟩ := Option.map_eq_some_iff.mp h
          obtain ⟨l, -, -, rfl⟩ := FanIn.recv_of_step hfan
          exact .inr (.inr ⟨rfl, rfl, rfl, rfl, rfl⟩)
      | save i =>
          obtain ⟨fan, hfan, rfl⟩ := Option.map_eq_some_iff.mp h
          obtain ⟨l, env, -, -, rfl⟩ := FanIn.save_of_step hfan
          exact .inr (.inr ⟨rfl, rfl, rfl, rfl, rfl⟩)
      | enqueue i =>
          obtain ⟨fan, hfan, rfl⟩ := Option.map_eq_some_iff.mp h
          obtain ⟨l, env, -, -, rfl⟩ := FanIn.enqueue_of_step hfan
          unfold FanIn.offer
          split <;> exact .inr (.inr ⟨rfl, rfl, rfl, rfl, rfl⟩)
      | dequeue =>
          obtain ⟨fan, hfan, rfl⟩ := Option.map_eq_some_iff.mp h
          obtain ⟨d, rest, -, -, rfl⟩ := FanIn.dequeue_of_step hfan
          exact .inr (.inr ⟨rfl, rfl, rfl, rfl, rfl⟩)
      | flush order =>
          obtain ⟨fan, hfan, rfl⟩ := Option.map_eq_some_iff.mp h
          rcases FanIn.flush_of_step hfan with ⟨-, rfl⟩ | ⟨-, -, rfl⟩ <;>
            exact .inr (.inr ⟨rfl, rfl, rfl, rfl, rfl⟩)

end Attribution

/-! ## The counters -/

structure Counted (p : Peers) (turns : List Turn) : Prop where
  joins : p.xnodeJoins = turns.countP fun t => t.edge.isSome
  lookups : p.xnodeJoins + p.xnodeMisses =
    turns.countP fun t => (exchangeOf t.delivery.envelope).isSome
  vips : p.vipJoins =
    turns.countP fun t => t.edge.any fun edge => attrOf edge "via" == "service-vip"

private theorem attrOf_via (src : IntentEvent) (l : Listener) (how : How) (node : String) :
    attrOf (peerEdge src l how node) "via" = how.via := by
  simp [attrOf, peerEdge, List.lookup_cons]

private theorem via_eq_iff (how : How) : (how.via == "service-vip") = decide
    (how = .serviceVIP) := by
  cases how <;> rfl

private theorem exchangeOf_of_control {env : EventEnvelope} {op : Op}
    (h : controlOp env = some op) :
    exchangeOf env = none := by
  unfold controlOp at h
  unfold exchangeOf
  cases hpayload : env.payload with
  | intent ev =>
      rw [hpayload] at h
      by_cases hkind : ev.kind = kindNetworkExchange
      · have hadvertise : ev.kind ≠ kindListenerAdvertise := by
          rw [hkind]
          decide
        have hwithdraw : ev.kind ≠ kindListenerWithdraw := by
          rw [hkind]
          decide
        simp [listenerFromAdvertise_of_ne hadvertise, listenerFromWithdraw_of_ne hwithdraw] at h
      · simp [hkind]
  | _ => rfl

namespace Counted

variable {p : Peers} {turns : List Turn}

theorem turn (h : Counted p turns) (resolvers : Resolvers) (now : Int) (d : Delivery) :
    Counted (p.write resolvers now d.envelope).2 (turns ++ [p.turn resolvers now d]) := by
  have hlookups := h.lookups
  rw [p.write_peers, Peers.turn]
  cases hop : controlOp d.envelope with
  | some op =>
      have hexchange := exchangeOf_of_control hop
      rw [Peers.joinPeer_of_none hexchange]
      exact ⟨by simp [h.joins], by simpa [hexchange] using hlookups, by simp [h.vips]⟩
  | none =>
      dsimp only
      cases hexchange : exchangeOf d.envelope with
      | none =>
          rw [Peers.joinPeer_of_none hexchange]
          exact ⟨by simp [h.joins], by simpa [hexchange] using hlookups, by simp [h.vips]⟩
      | some ev =>
          cases hjoin : p.registry.join resolvers (attrOf ev attrPeer) now with
          | none =>
              rw [Peers.joinPeer_of_miss hexchange hjoin]
              refine ⟨by simp [h.joins], ?_, by simp [h.vips]⟩
              rw [List.countP_append, List.countP_singleton, hexchange, ← hlookups]
              rfl
          | some found =>
              obtain ⟨l, how⟩ := found
              rw [Peers.joinPeer_of_join hexchange hjoin]
              refine ⟨by simp [h.joins], ?_, ?_⟩
              · rw [List.countP_append, List.countP_singleton, hexchange, ← hlookups]
                exact Nat.add_right_comm _ _ _
              · rw [List.countP_append, List.countP_singleton, Option.any_some, attrOf_via,
                  via_eq_iff, ← h.vips]
                by_cases hvip : how = .serviceVIP <;> simp [hvip]

end Counted

namespace Attribution

/-- How the state comes from the log. -/
structure Logged (ttl : Int) (s : Attribution) : Prop where
  registry : s.fan.peers.registry = Registry.run ttl s.log.ops
  ordered : s.log.Pairwise fun use use' => use.1 ≤ use'.1
  clock : ∀ use ∈ s.log, use.1 ≤ s.clock
  deliveries : s.log.turns.map Turn.delivery = s.fan.handled
  emitted : s.fan.emitted = s.log.turns.flatMap Turn.calls
  edges : ∀ (before : UseLog) now resolvers t (after : UseLog),
    s.log = before ++ (now, .turn resolvers t) :: after →
      ∃ p : Peers, p.registry = Registry.run ttl before.ops ∧ t = p.turn resolvers now t.delivery
  counted : Counted s.fan.peers s.log.turns

private theorem ops_append (log : UseLog) (use : Int × RegistryUse) :
    UseLog.ops (log ++ [use]) = log.ops ++ (use.2.op.map fun op => (use.1, op)).toList := by
  unfold UseLog.ops
  rw [List.filterMap_append]
  cases h : use.2.op <;> simp [h]

private theorem turns_append (log : UseLog) (use : Int × RegistryUse) :
    UseLog.turns (log ++ [use]) = log.turns ++ use.2.turn?.toList := by
  unfold UseLog.turns
  rw [List.filterMap_append]
  cases h : use.2.turn? <;> simp [h]

namespace Logged

variable {ttl : Int} {s t : Attribution}

theorem start (queueDepth : Nat) (ttl : Int) (file : CursorFile) (now : Int) :
    (start queueDepth ttl file now).Logged ttl where
  registry := rfl
  ordered := .nil
  clock := by simp [Attribution.start]
  deliveries := rfl
  emitted := rfl
  edges := by
    intro before now' resolvers t after hlog
    simp [Attribution.start] at hlog
  counted := ⟨rfl, rfl, rfl⟩

private theorem ordered_concat (h : s.Logged ttl) {now : Int} (hnow : s.clock ≤ now)
    (use : RegistryUse) :
    (s.log ++ [(now, use)]).Pairwise (fun use use' => use.1 ≤ use'.1) ∧
      ∀ use' ∈ s.log ++ [(now, use)], use'.1 ≤ now := by
  have hbefore : ∀ use' ∈ s.log, use'.1 ≤ now := fun use' huse =>
    Int.le_trans (h.clock use' huse) hnow
  constructor
  · rw [List.pairwise_append]
    refine ⟨h.ordered, List.pairwise_singleton _ _, ?_⟩
    intro use' huse last hlast
    rw [List.mem_singleton.mp hlast]
    exact hbefore use' huse
  · intro use' huse
    rcases List.mem_append.mp huse with hold | hnew
    · exact hbefore use' hold
    · rw [List.mem_singleton.mp hnew]

theorem turn (h : s.Logged ttl) {now : Int} (hnow : s.clock ≤ now) (resolvers : Resolvers)
    (d : Delivery) :
    Logged ttl
      { fan := s.fan.finish d resolvers now
        clock := now
        log := s.log ++ [(now, .turn resolvers (s.fan.peers.turn resolvers now d))] } where
  registry := by
    change (s.fan.peers.write resolvers now d.envelope).2.registry = _
    rw [Peers.write_registry, ops_append]
    simp only [RegistryUse.op, Peers.turn]
    cases controlOp d.envelope with
    | none => simp [h.registry]
    | some op => simp [h.registry, Registry.run_append]
  ordered := (h.ordered_concat hnow _).1
  clock := (h.ordered_concat hnow _).2
  deliveries := by
    rw [turns_append, List.map_append, h.deliveries]
    rfl
  emitted := by
    change s.fan.emitted ++ _ = _
    rw [turns_append, h.emitted, ← s.fan.peers.turn_calls]
    simp [RegistryUse.turn?]
  edges := by
    intro before now' resolvers' t after hlog
    rcases concat_eq_append_cons hlog with ⟨-, rfl, heq⟩ | ⟨rest, -, hbefore⟩
    · cases heq
      exact ⟨s.fan.peers, h.registry, rfl⟩
    · exact h.edges before now' resolvers' t rest hbefore
  counted := by
    rw [turns_append]
    exact h.counted.turn resolvers now d

theorem sweep (h : s.Logged ttl) {now : Int} (hnow : s.clock ≤ now) : (s.sweep now).Logged ttl where
  registry := by
    change s.fan.peers.registry.sweep now = _
    rw [Attribution.sweep, ops_append, RegistryUse.op]
    simp [h.registry, Registry.run_append, Registry.apply]
  ordered := (h.ordered_concat hnow _).1
  clock := (h.ordered_concat hnow _).2
  deliveries := by
    rw [Attribution.sweep, turns_append]
    simpa [RegistryUse.turn?] using h.deliveries
  emitted := by
    rw [Attribution.sweep, turns_append]
    simp [h.emitted, RegistryUse.turn?]
  edges := by
    intro before now' resolvers t after hlog
    rcases concat_eq_append_cons hlog with ⟨-, -, heq⟩ | ⟨rest, -, hbefore⟩
    · cases heq
    · exact h.edges before now' resolvers t rest hbefore
  counted := by
    rw [Attribution.sweep, turns_append]
    simpa [RegistryUse.turn?] using ⟨h.counted.joins, h.counted.lookups, h.counted.vips⟩

theorem step (h : s.Logged ttl) {event : AttributionEvent} (hstep : s.step event = some t) :
    t.Logged ttl := by
  rcases step_cases hstep with ⟨resolvers, now, d, hnow, rfl⟩ | ⟨now, hnow, rfl⟩ |
    ⟨hpeers, hhandled, hemitted, hclock, hlog⟩
  · exact h.turn hnow resolvers d
  · exact h.sweep hnow
  · exact ⟨by rw [hpeers, hlog, h.registry], hlog ▸ h.ordered, by rw [hlog, hclock]; exact h.clock,
      by rw [hhandled, hlog, h.deliveries], by rw [hemitted, hlog, h.emitted], hlog ▸ h.edges,
      by rw [hpeers, hlog]; exact h.counted⟩

theorem run {queueDepth : Nat} {ttl : Int} {file : CursorFile} {now : Int}
    {events : List AttributionEvent}
    (hrun : Foundation.run Attribution.step (Attribution.start queueDepth ttl file now) events =
      some s) : s.Logged ttl :=
  run_invariant (Logged ttl) (fun _ _ _ h hstep => h.step hstep) (.start _ _ _ _) hrun

end Logged

end Attribution

/-! ## Advertises in force -/

/-- The edge says of the peer what the advertise says of the listener. -/
structure NamesListener (edge adv : IntentEvent) : Prop where
  pid : attrOf edge "peer_pid" = attrOf adv "pid"
  process : attrOf edge "peer_process" = attrOf adv "process"
  pod : attrOf edge "peer_pod" = (metaOf adv).pod
  namespace_ : attrOf edge "peer_namespace" = (metaOf adv).namespace_
  container : attrOf edge "peer_container" = (metaOf adv).container
  image : attrOf edge "peer_image" = (metaOf adv).image
  node : attrOf edge "peer_node" = (metaOf adv).nodeName

private theorem namesListener_peerEdge {adv : IntentEvent} {l found : Listener} {expires : Int}
    (hl : listenerFromAdvertise adv = some l)
    (hfound : found.advertised = { l with expires := expires }.advertised) (src : IntentEvent)
    (how : How) (node : String) : NamesListener (peerEdge src found how node) adv := by
  unfold listenerFromAdvertise at hl
  split at hl
  · cases hl
  · split at hl
    · cases hl
    · cases hl
      simp only [Listener.advertised, Listener.mk.injEq] at hfound
      obtain ⟨-, -, hpid, hprocess, -, hnode, hns, hpod, hcontainer, -, himage, -⟩ := hfound
      constructor <;> simp [attrOf, peerEdge, List.lookup_cons, *]

/-- An advertise that is younger than the TTL, with nothing behind it about the same
entry. -/
structure InForce (ttl : Int) (log : UseLog) (now : Int) (adv : IntentEvent) (l : Listener) :
    Prop where
  listener : listenerFromAdvertise adv = some l
  taken : ∃ (earlier : UseLog) (at_ : Int) (resolvers : Resolvers) (t : Turn) (later : UseLog),
    log = earlier ++ (at_, .turn resolvers t) :: later ∧
      t.delivery.envelope.payload = .intent adv ∧ now < at_ + (newRegistry ttl).ttl ∧
        ∃ key, l.key = some key ∧ ∀ use ∈ later, use.2.key ≠ some key

private theorem controlOp_eq_observe {env : EventEnvelope} {l : Listener} :
    controlOp env = some (.observe l) ↔
      ∃ adv, env.payload = .intent adv ∧ listenerFromAdvertise adv = some l := by
  unfold controlOp
  cases env.payload with
  | intent ev => cases listenerFromAdvertise ev <;> simp
  | _ => simp

private theorem op_eq_observe {use : RegistryUse} {l : Listener} :
    use.op = some (.observe l) ↔ ∃ resolvers t adv, use = .turn resolvers t ∧
      t.delivery.envelope.payload = .intent adv ∧ listenerFromAdvertise adv = some l := by
  cases use with
  | sweep => simp [RegistryUse.op]
  | turn resolvers t => simp [RegistryUse.op, controlOp_eq_observe]

private theorem entry_ops_append (ttl : Int) (log : UseLog) (use : Int × RegistryUse) (key : Key) :
    History.entry ttl (UseLog.ops (log ++ [use])) key =
      if use.2.key = some key then use.2.op.bind fun op => op.stored (use.1 + ttl)
      else History.entry ttl log.ops key := by
  rw [Attribution.ops_append, RegistryUse.key]
  cases use.2.op with
  | none => simp
  | some op => exact History.entry_append ttl log.ops (use.1, op) key

private theorem entry_ops_iff {ttl : Int} {log : UseLog} {key : Key} {base : Listener} :
    History.entry ttl log.ops key = some base ↔
      ∃ (earlier : UseLog) (at_ : Int) (use : RegistryUse) (later : UseLog) (l : Listener),
        log = earlier ++ (at_, use) :: later ∧ use.op = some (.observe l) ∧ l.key = some key ∧
          base = { l with expires := at_ + ttl } ∧ ∀ use' ∈ later, use'.2.key ≠ some key := by
  induction log using List.reverseRecOn with
  | nil => simp [UseLog.ops]
  | append_singleton log last ih =>
      rw [entry_ops_append]
      constructor
      · intro hentry
        split at hentry
        · rename_i hkey
          obtain ⟨op, hop, hstored⟩ := Option.bind_eq_some_iff.mp hentry
          rw [RegistryUse.key, hop] at hkey
          cases op with
          | observe l =>
              cases hstored
              exact ⟨log, last.1, last.2, [], l, rfl, hop, hkey, rfl, by simp⟩
          | remove l => cases hstored
          | sweep => cases hstored
        · rename_i hkey
          obtain ⟨earlier, at_, use, later, l, rfl, hop, hl, hbase, hlater⟩ := ih.mp hentry
          refine ⟨earlier, at_, use, later ++ [last], l, by simp, hop, hl, hbase, ?_⟩
          intro use' huse
          rcases List.mem_append.mp huse with hold | hnew
          · exact hlater use' hold
          · rw [List.mem_singleton.mp hnew]
            exact hkey
      · rintro ⟨earlier, at_, use, later, l, hlog, hop, hl, rfl, hlater⟩
        rcases concat_eq_append_cons hlog with ⟨-, -, rfl⟩ | ⟨rest, rfl, hrest⟩
        · have hkey : use.key = some key := by simp [RegistryUse.key, hop, Op.key, hl]
          rw [if_pos hkey, hop]
          rfl
        · rw [if_neg (hlater last (by simp))]
          exact ih.mpr ⟨earlier, at_, use, rest, l, hrest, hop, hl, rfl,
            fun use' huse => hlater use' (List.mem_append_left _ huse)⟩

namespace Attribution.Logged

variable {ttl : Int} {s : Attribution} {before after : UseLog} {now : Int} {resolvers : Resolvers}
  {t : Turn}

private theorem clock_le (h : s.Logged ttl)
    (hlog : s.log = before ++ (now, .turn resolvers t) :: after) :
    ∀ use ∈ before, use.1 ≤ now := by
  have hordered := h.ordered
  rw [hlog, List.pairwise_append] at hordered
  intro use huse
  exact hordered.2.2 use huse _ List.mem_cons_self

private theorem liveEntry_eq (h : s.Logged ttl)
    (hlog : s.log = before ++ (now, .turn resolvers t) :: after) (key : Key) :
    (Registry.run ttl before.ops).liveEntry now key =
      (History.entry (newRegistry ttl).ttl before.ops key).filter (Listener.isLive now) := by
  apply Registry.liveEntry_run
  intro op hop
  obtain ⟨use, huse, heq⟩ := List.mem_filterMap.mp hop
  obtain ⟨op', -, rfl⟩ := Option.map_eq_some_iff.mp heq
  exact h.clock_le hlog use huse

private theorem inForce_of_liveEntry (h : s.Logged ttl)
    (hlog : s.log = before ++ (now, .turn resolvers t) :: after) {key : Key} {base : Listener}
    (hlive : (Registry.run ttl before.ops).liveEntry now key = some base) :
    ∃ adv l expires, InForce ttl before now adv l ∧ base = { l with expires := expires } := by
  rw [h.liveEntry_eq hlog, Option.filter_eq_some_iff, entry_ops_iff] at hlive
  obtain ⟨⟨earlier, at_, use, later, l, hbefore, hop, hkey, rfl, hlater⟩, hlive⟩ := hlive
  obtain ⟨resolvers', t', adv, rfl, hpayload, hl⟩ := op_eq_observe.mp hop
  have hnow : now < at_ + (newRegistry ttl).ttl := by simpa [Listener.isLive] using hlive
  exact ⟨adv, l, _, ⟨hl, earlier, at_, resolvers', t', later, hbefore, hpayload, hnow, key, hkey,
    hlater⟩, rfl⟩

private theorem liveEntry_of_inForce (h : s.Logged ttl)
    (hlog : s.log = before ++ (now, .turn resolvers t) :: after) {adv : IntentEvent} {l : Listener}
    (hforce : InForce ttl before now adv l) {key : Key} (hkey : l.key = some key) :
    ∃ expires, (Registry.run ttl before.ops).liveEntry now key =
      some { l with expires := expires } := by
  obtain ⟨hl, earlier, at_, resolvers', t', later, hbefore, hpayload, hnow, key', hkey', hlater⟩ :=
    hforce
  cases hkey.symm.trans hkey'
  have hentry : History.entry (newRegistry ttl).ttl before.ops key =
      some { l with expires := at_ + (newRegistry ttl).ttl } :=
    entry_ops_iff.mpr ⟨earlier, at_, .turn resolvers' t', later, l, hbefore,
      op_eq_observe.mpr ⟨resolvers', t', adv, rfl, hpayload, hl⟩, hkey, rfl, hlater⟩
  refine ⟨at_ + (newRegistry ttl).ttl, ?_⟩
  rw [h.liveEntry_eq hlog, hentry, Option.filter_eq_some_iff]
  exact ⟨rfl, by simpa [Listener.isLive] using hnow⟩

private theorem edge_eq (h : s.Logged ttl)
    (hlog : s.log = before ++ (now, .turn resolvers t) :: after)
    {edge : IntentEvent} :
    t.edge = some edge ↔ ∃ ev l how, exchangeOf t.delivery.envelope = some ev ∧
      (Registry.run ttl before.ops).join resolvers (attrOf ev attrPeer) now = some (l, how) ∧
        edge = peerEdge ev l how (metaOf ev).nodeName := by
  obtain ⟨p, hregistry, hturn⟩ := h.edges before now resolvers t after hlog
  have hedge : t.edge = (p.joinPeer resolvers now t.delivery.envelope).1 :=
    congrArg Turn.edge hturn
  rw [hedge, ← hregistry]
  cases hexchange : exchangeOf t.delivery.envelope with
  | none => simp [Peers.joinPeer_of_none hexchange]
  | some ev =>
      cases hjoin : p.registry.join resolvers (attrOf ev attrPeer) now with
      | none => simp [Peers.joinPeer_of_miss hexchange hjoin, hjoin]
      | some found =>
          simp only [Peers.joinPeer_of_join hexchange hjoin, Option.some.injEq]
          constructor
          · rintro rfl
            exact ⟨ev, found.1, found.2, rfl, hjoin, rfl⟩
          · rintro ⟨ev', l, how, rfl, hfound, rfl⟩
            rw [hjoin] at hfound
            cases hfound
            rfl

end Attribution.Logged

namespace Attribution

variable {queueDepth : Nat} {ttl start' : Int} {file : CursorFile}
  {events : List AttributionEvent} {s : Attribution}

private theorem conserved_step {t : Attribution} {event : AttributionEvent} (h : s.fan.Conserved)
    (hstep : s.step event = some t) : t.fan.Conserved := by
  cases event with
  | sweep now =>
      simp only [step] at hstep
      split at hstep
      · cases hstep
        exact h
      · cases hstep
  | fan e =>
      have hfan : s.fan.step e = some t.fan := by
        cases e with
        | write resolvers now =>
            simp only [step] at hstep
            split at hstep
            · obtain ⟨d, hwriting, rfl⟩ := Option.map_eq_some_iff.mp hstep
              simp [FanIn.step, hwriting]
            · cases hstep
        | start agent stream =>
            cases hstep
            rfl
        | _ =>
            obtain ⟨fan, hfan, rfl⟩ := Option.map_eq_some_iff.mp hstep
            exact hfan
      exact h.step hfan

theorem conserved_run (hrun : run step (start queueDepth ttl file start') events = some s) :
    s.fan.Conserved :=
  run_invariant (fun s => s.fan.Conserved) (fun _ _ _ h hstep => conserved_step h hstep)
    (FanIn.conserved_run (run_nil _ _)) hrun

def advertise80 : IntentEvent :=
  ⟨kindListenerAdvertise, [("addr", "10.0.0.5:80"), ("pid", "7")], none, 0, []⟩

def exchange80 : IntentEvent :=
  ⟨kindNetworkExchange, [(attrPeer, "10.0.0.5:80")], none, 0, []⟩

def advertisedThenReached : List AttributionEvent :=
  [.fan (.start "agent-a" "intent"), .fan (.recv 0 ⟨none, .intent advertise80⟩), .fan (.save 0),
    .fan (.enqueue 0), .fan .dequeue, .fan (.write ⟨none, none, none⟩ 0), .sweep 20,
    .fan (.recv 0 ⟨none, .intent exchange80⟩), .fan (.save 0), .fan (.enqueue 0), .fan .dequeue,
    .fan (.write ⟨none, none, none⟩ 40)]

def reachedTurn : Turn :=
  ⟨⟨"agent-a", "intent", none, .intent exchange80⟩,
    some (peerEdge exchange80 { bareListener "10.0.0.5:80" false "" "" with pid := "7" }
      .direct "")⟩

def beforeReached : UseLog :=
  [(0, .turn ⟨none, none, none⟩ ⟨⟨"agent-a", "intent", none, .intent advertise80⟩, none⟩),
    (20, .sweep)]

private theorem exists_reached :
    ∃ s, run step (start 8 60 none 0) advertisedThenReached = some s ∧
      s.log = beforeReached ++ [(40, .turn ⟨none, none, none⟩ reachedTurn)] ∧
      s.fan.received.length = 2 ∧ s.fan.emitted.length = 2 ∧ s.fan.peers.xnodeJoins = 1 :=
  ⟨_, rfl, rfl, rfl, rfl, rfl⟩

/-- What leaves the aggregator is what the turns emit: envelopes that agents have sent, each
in one turn at most, and edges that name a listener by an advertise in force. -/
theorem edge_names_advertiser
    (hrun : run step (start queueDepth ttl file start') events = some s) :
    s.fan.emitted = s.log.turns.flatMap Turn.calls ∧
      s.log.turns.map Turn.delivery = s.fan.handled ∧ s.fan.handled.Subperm s.fan.received ∧
      ∀ (before : UseLog) now resolvers t (after : UseLog) edge,
        s.log = before ++ (now, .turn resolvers t) :: after → t.edge = some edge →
          ∃ adv l, InForce ttl before now adv l ∧ NamesListener edge adv := by
  have hlogged := Logged.run hrun
  have hreceived : s.fan.handled.Subperm s.fan.received :=
    (List.sublist_append_right _ _).subperm.trans (conserved_run hrun).symm.subperm
  refine ⟨hlogged.emitted, hlogged.deliveries, hreceived, ?_⟩
  intro before now resolvers t after edge hlog hedge
  obtain ⟨ev, l, how, -, hjoin, rfl⟩ := (hlogged.edge_eq hlog).mp hedge
  obtain ⟨key, base, hlive, hadvertised⟩ := Registry.liveEntry_of_join hjoin
  obtain ⟨adv, l', expires, hforce, rfl⟩ := hlogged.inForce_of_liveEntry hlog hlive
  exact ⟨adv, l', hforce, namesListener_peerEdge hforce.listener hadvertised ev how _⟩

theorem edge_names_reached : ∃ s edge,
    run step (start 8 60 none 0) advertisedThenReached = some s ∧ reachedTurn.edge = some edge ∧
      (reachedTurn.delivery.agent, ⟨none, .intent edge⟩) ∈ s.fan.emitted ∧
        reachedTurn.delivery ∈ s.fan.received ∧
          ∃ adv l, InForce 60 beforeReached 40 adv l ∧ NamesListener edge adv := by
  obtain ⟨s, hrun, hlog, -⟩ := exists_reached
  obtain ⟨hemitted, hhandled, hreceived, hnames⟩ := edge_names_advertiser hrun
  refine ⟨s, _, hrun, rfl, ?_, hreceived.subset ?_, hnames _ _ _ _ [] _ hlog rfl⟩
  · rw [hemitted, hlog]
    decide
  · rw [← hhandled, hlog]
    decide

/-- An exchange with an address that was advertised as it stands gets its edge, unless the
pod index says that the address has changed hands. -/
theorem exchange_gets_edge
    (hrun : run step (start queueDepth ttl file start') events = some s)
    {before after : UseLog} {now : Int} {resolvers : Resolvers} {t : Turn}
    (hlog : s.log = before ++ (now, .turn resolvers t) :: after) {ev adv : IntentEvent}
    {l : Listener} (hexchange : exchangeOf t.delivery.envelope = some ev)
    (hforce : InForce ttl before now adv l) (hkey : l.key = some (.exact (attrOf ev attrPeer)))
    (howns : Registry.stillOwns resolvers l (attrOf ev attrPeer) = true) :
    ∃ edge, t.edge = some edge ∧ NamesListener edge adv ∧ attrOf edge "via" = "direct" := by
  have hlogged := Logged.run hrun
  obtain ⟨expires, hlive⟩ := hlogged.liveEntry_of_inForce hlog hforce hkey
  have hexact : (Registry.run ttl before.ops).liveExact resolvers (attrOf ev attrPeer) now =
      some { l with expires := expires } := by
    rw [Registry.liveExact_eq, hlive, Option.filter_eq_some_iff]
    exact ⟨rfl, howns⟩
  have hjoin : (Registry.run ttl before.ops).join resolvers (attrOf ev attrPeer) now =
      some ({ l with expires := expires }, .direct) := by
    rw [Registry.join, hexact]
  exact ⟨_, (hlogged.edge_eq hlog).mpr ⟨ev, _, _, hexchange, hjoin, rfl⟩,
    namesListener_peerEdge hforce.listener rfl ev .direct _, attrOf_via _ _ _ _⟩

theorem exchange_gets_edge_reached : ∃ edge, reachedTurn.edge = some edge ∧
    NamesListener edge advertise80 ∧ attrOf edge "via" = "direct" := by
  obtain ⟨s, hrun, hlog, -⟩ := exists_reached
  have hforce : InForce 60 beforeReached 40 advertise80
      { bareListener "10.0.0.5:80" false "" "" with pid := "7" } := by
    refine ⟨rfl, [], 0, _, _, [(20, .sweep)], rfl, rfl, by decide, .exact "10.0.0.5:80", rfl, ?_⟩
    intro use huse
    rw [List.mem_singleton.mp huse]
    simp [RegistryUse.key, RegistryUse.op, Op.key]
  have hexchange : exchangeOf reachedTurn.delivery.envelope = some exchange80 := rfl
  exact exchange_gets_edge hrun hlog hexchange hforce rfl rfl

private theorem length_calls {t : Turn} (h : t.WellFormed) :
    t.calls.length = (if t.delivery.envelope.isControl then 0 else 1) +
      if t.edge.isSome then 1 else 0 := by
  cases hedge : t.edge with
  | none =>
      unfold Turn.calls Turn.edgeCalls
      split <;> simp [hedge]
  | some edge =>
      have hcontrol := h.isControl_eq_false hedge
      simp [Turn.calls, Turn.edgeCalls, hedge, hcontrol]

private theorem length_flatMap_calls {turns : List Turn} (h : ∀ t ∈ turns, t.WellFormed) :
    (turns.flatMap Turn.calls).length =
      (turns.countP fun t => !t.delivery.envelope.isControl) +
        turns.countP fun t => t.edge.isSome := by
  induction turns with
  | nil => rfl
  | cons t turns ih =>
      have hfirst := length_calls (h t List.mem_cons_self)
      have hrest := ih fun t ht => h t (List.mem_cons_of_mem _ ht)
      rw [List.flatMap_cons, List.length_append, List.countP_cons, List.countP_cons, hfirst, hrest]
      cases t.delivery.envelope.isControl <;> simp <;> omega

theorem Logged.wellFormed (h : s.Logged ttl) : ∀ t ∈ s.log.turns, t.WellFormed := by
  intro t ht
  obtain ⟨use, huse, hturn⟩ := List.mem_filterMap.mp ht
  obtain ⟨now, registryUse⟩ := use
  cases registryUse with
  | sweep => cases hturn
  | turn resolvers t' =>
      cases hturn
      obtain ⟨before, after, hlog⟩ := List.append_of_mem huse
      obtain ⟨p, -, hp⟩ := h.edges before now resolvers t after hlog
      rw [hp]
      exact p.turn_wellFormed resolvers now t.delivery

/-- The counters balance: an envelope that came in, and every edge, is dropped, under way,
folded into the registry or emitted; what was looked up was joined or missed. -/
theorem stats_balance (hrun : run step (start queueDepth ttl file start') events = some s) :
    s.fan.received.length + s.fan.peers.xnodeJoins =
        s.fan.dropped.length + s.fan.inFlight.length + s.fan.consumed.length +
          s.fan.emitted.length ∧
      s.fan.peers.xnodeJoins + s.fan.peers.xnodeMisses =
        s.fan.handled.countP (fun d => (exchangeOf d.envelope).isSome) ∧
      s.fan.peers.vipJoins ≤ s.fan.peers.xnodeJoins := by
  have hlogged := Logged.run hrun
  have hreceived := (conserved_run hrun).length_eq
  simp only [List.length_append] at hreceived
  have hemitted := length_flatMap_calls hlogged.wellFormed
  rw [← hlogged.emitted, ← hlogged.counted.joins] at hemitted
  have hupstream : s.log.turns.countP (fun t => !t.delivery.envelope.isControl) =
      s.fan.handled.countP fun d => !d.envelope.isControl := by
    rw [← hlogged.deliveries, List.countP_map]
    rfl
  have hhandled := s.fan.handled.length_eq_countP_add_countP fun d => d.envelope.isControl
  simp only [Bool.not_eq_true, Bool.decide_eq_false] at hhandled
  refine ⟨?_, ?_, ?_⟩
  · rw [FanIn.inFlight, FanIn.consumed, ← List.countP_eq_length_filter, List.length_append,
      List.length_append]
    unfold FanIn.inHands at hreceived
    omega
  · rw [hlogged.counted.lookups, ← hlogged.deliveries, List.countP_map]
    rfl
  · rw [hlogged.counted.vips, hlogged.counted.joins]
    refine List.countP_mono_left fun t _ hvia => ?_
    cases hedge : t.edge with
    | none => simp [hedge] at hvia
    | some edge => rfl

theorem stats_balance_reached : ∃ s,
    run step (start 8 60 none 0) advertisedThenReached = some s ∧ s.fan.emitted.length = 2 ∧
      s.fan.received.length + s.fan.peers.xnodeJoins =
        s.fan.dropped.length + s.fan.inFlight.length + s.fan.consumed.length +
          s.fan.emitted.length := by
  obtain ⟨s, hrun, -, -, hemitted, -⟩ := exists_reached
  exact ⟨s, hrun, hemitted, (stats_balance hrun).1⟩

end Attribution

end KloudlensAggregator.Aggregator
