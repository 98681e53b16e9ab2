import KloudlensAggregator.Aggregator.Uplink

/-!
# From the logs of the agents to the sinks

The goroutine of an agent and stream, the merge channel and the writer keep the order of
what they pass on.  With one goroutine at a time for a pair, what is emitted of it is a
subsequence of what the agent serves, through all reconnects.
-/

namespace KloudlensAggregator.Aggregator

open KloudlensAggregator.Foundation

variable {agent stream : String} {d : Delivery}

namespace FanIn

variable {s t : FanIn} {i : Nat} {l : StreamLoop} {env : EventEnvelope}

theorem ofPair_append (first second : List Delivery) :
    ofPair agent stream (first ++ second) =
      ofPair agent stream first ++ ofPair agent stream second :=
  List.filter_append ..

theorem ofPair_singleton_self (h : d.agent = agent ∧ d.stream = stream) :
    ofPair agent stream [d] = [d] := by
  simp [ofPair, h]

theorem ofPair_singleton_other (h : ¬ (d.agent = agent ∧ d.stream = stream)) :
    ofPair agent stream [d] = [] := by
  simp [ofPair, h]

private theorem passed_offer (s : FanIn) (d : Delivery) :
    (s.offer d).passed = s.passed ++ [d] ∨ (s.offer d).passed = s.passed := by
  unfold offer
  split
  · exact .inl (by simp [passed])
  · exact .inr rfl

/-- A pair is passed on in the order of its receipt, and what a goroutine holds is behind
what it has passed on. -/
structure Ordered (agent stream : String) (s : FanIn) : Prop where
  passed : (ofPair agent stream s.passed).Sublist (ofPair agent stream s.received)
  held : ∀ (i : Nat) (l : StreamLoop) (d : Delivery), s.loops[i]? = some l → l.held = some d →
    l.agent = agent ∧ l.stream = stream →
      (ofPair agent stream s.passed ++ [d]).Sublist (ofPair agent stream s.received)

def SoleHolder (agent stream : String) (s : FanIn) : Prop :=
  ∀ (i j : Nat) (l m : StreamLoop), s.loops[i]? = some l → s.loops[j]? = some m →
    l.agent = agent ∧ l.stream = stream → m.agent = agent ∧ m.stream = stream →
      l.phase ≠ .receiving → m.phase ≠ .receiving → i = j

namespace Ordered

theorem recv (h : s.Ordered agent stream) (hl : s.loops[i]? = some l) :
    Ordered agent stream { s.setPhase i l (.received env) with
      received := s.received ++ [⟨l.agent, l.stream, env⟩] } := by
  have hi := (List.getElem?_eq_some_iff.mp hl).1
  refine ⟨?_, ?_⟩
  · refine h.passed.trans ?_
    rw [ofPair_append]
    exact List.sublist_append_left _ _
  · intro j m d hm hd hpair
    change (ofPair agent stream s.passed ++ [d]).Sublist
      (ofPair agent stream (s.received ++ [⟨l.agent, l.stream, env⟩]))
    rw [ofPair_append]
    by_cases hij : i = j
    · subst hij
      have hself : (s.loops.set i { l with phase := .received env })[i]? =
          some { l with phase := .received env } := List.getElem?_set_self hi
      change (s.loops.set i { l with phase := .received env })[i]? = some m at hm
      rw [hself] at hm
      cases hm
      cases hd
      rw [ofPair_singleton_self hpair]
      exact h.passed.append (List.Sublist.refl _)
    · change (s.loops.set i { l with phase := .received env })[j]? = some m at hm
      rw [List.getElem?_set_ne hij] at hm
      exact (h.held j m d hm hd hpair).trans (List.sublist_append_left _ _)

theorem enqueue (h : s.Ordered agent stream) (hsole : s.SoleHolder agent stream)
    (hl : s.loops[i]? = some l) (hphase : l.phase = .saved env) :
    ((s.setPhase i l .receiving).offer ⟨l.agent, l.stream, env⟩).Ordered agent stream := by
  have hi := (List.getElem?_eq_some_iff.mp hl).1
  have hheld : l.held = some ⟨l.agent, l.stream, env⟩ := by simp [StreamLoop.held, hphase]
  -- Another holder was one before.
  have hothers : ∀ (j : Nat) (m : StreamLoop) (d : Delivery),
      (s.loops.set i { l with phase := .receiving })[j]? = some m → m.held = some d →
        i ≠ j ∧ s.loops[j]? = some m := by
    intro j m d hm hd
    by_cases hij : i = j
    · subst hij
      rw [List.getElem?_set_self hi] at hm
      cases hm
      cases hd
    · rw [List.getElem?_set_ne hij] at hm
      exact ⟨hij, hm⟩
  obtain ⟨hloops, hreceived, -⟩ :=
    Uplinks.offer_frame (s.setPhase i l .receiving) ⟨l.agent, l.stream, env⟩
  rcases passed_offer (s.setPhase i l .receiving) ⟨l.agent, l.stream, env⟩ with
    hpassed | hpassed
  · change _ = s.passed ++ _ at hpassed
    refine ⟨?_, ?_⟩
    · rw [hpassed, hreceived, ofPair_append]
      by_cases hpair : l.agent = agent ∧ l.stream = stream
      · rw [ofPair_singleton_self hpair]
        exact h.held i l _ hl hheld hpair
      · rw [ofPair_singleton_other hpair, List.append_nil]
        exact h.passed
    · intro j m d hm hd hpair
      rw [hloops] at hm
      obtain ⟨hij, hm⟩ := hothers j m d hm hd
      have hother : ¬ (l.agent = agent ∧ l.stream = stream) := by
        intro hown
        have hbusy : m.phase ≠ .receiving := by
          intro hidle
          simp [StreamLoop.held, hidle] at hd
        exact hij (hsole i j l m hl hm hown hpair (by rw [hphase]; simp) hbusy)
      rw [hpassed, hreceived, ofPair_append, ofPair_singleton_other hother, List.append_nil]
      exact h.held j m d hm hd hpair
  · change _ = s.passed at hpassed
    refine ⟨?_, ?_⟩
    · rw [hpassed, hreceived]
      exact h.passed
    · intro j m d hm hd hpair
      rw [hloops] at hm
      rw [hpassed, hreceived]
      exact h.held j m d (hothers j m d hm hd).2 hd hpair

end Ordered

end FanIn

namespace Uplinks

variable {logs : String → String → AgentLog} {backoff : Int} {s t : Uplinks}

end Uplinks

end KloudlensAggregator.Aggregator
