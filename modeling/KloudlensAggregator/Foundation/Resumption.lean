import KloudlensAggregator.Foundation.Run
import KloudlensAggregator.Foundation.Slice

/-!
# Readers that resume

A reader follows a log through sessions that may end at any time.  It keeps the mark of
the last item it has committed and opens the next session with it.  The server goes on
with the first item above the mark, or at its tail for a reader that has none.  Between
the receipt of an item and its commit the mark lies behind, but no session starts there.
-/

namespace KloudlensAggregator.Foundation

variable {α μ : Type*}

/-- A log whose marks increase. -/
structure MarkedLog (α μ : Type*) where
  items : List α
  mark : α → μ
  seq : μ → Nat
  increasing : items.Pairwise fun a b => seq (mark a) < seq (mark b)

namespace MarkedLog

variable (log : MarkedLog α μ)

def resume (m : μ) : Nat := log.items.findIdx fun a => log.seq m < log.seq (log.mark a)

def attach : Option μ → Nat → Nat
  | some m, _ => log.resume m
  | none, tail => min tail log.items.length

variable {log} {a b : α} {m : μ} {j k : Nat}

theorem seq_lt (hjk : j < k) (ha : log.items[j]? = some a) (hb : log.items[k]? = some b) :
    log.seq (log.mark a) < log.seq (log.mark b) := by
  obtain ⟨hj, rfl⟩ := List.getElem?_eq_some_iff.mp ha
  obtain ⟨hk, rfl⟩ := List.getElem?_eq_some_iff.mp hb
  exact List.pairwise_iff_getElem.mp log.increasing j k hj hk hjk

theorem attach_le (m : Option μ) (tail : Nat) : log.attach m tail ≤ log.items.length := by
  cases m with
  | none => exact min_le_right _ _
  | some m => exact List.findIdx_le_length

theorem seq_lt_of_resume_le (hk : log.resume m ≤ k) (ha : log.items[k]? = some a) :
    log.seq m < log.seq (log.mark a) := by
  have hlength := lt_of_le_of_lt hk (List.getElem?_eq_some_iff.mp ha).1
  have hfirst := of_decide_eq_true (List.findIdx_getElem (w := hlength))
  rcases Nat.eq_or_lt_of_le hk with rfl | hlt
  · obtain ⟨-, rfl⟩ := List.getElem?_eq_some_iff.mp ha
    exact hfirst
  · exact hfirst.trans (seq_lt hlt (List.getElem?_eq_getElem hlength) ha)

theorem resume_mark (ha : log.items[k]? = some a) : log.resume (log.mark a) = k + 1 := by
  apply le_antisymm
  · by_contra hlate
    have hlt : k + 1 < log.resume (log.mark a) := Nat.lt_of_not_le hlate
    have hlength : k + 1 < log.items.length := lt_of_lt_of_le hlt List.findIdx_le_length
    have habove := seq_lt (Nat.lt_succ_self k) ha (List.getElem?_eq_getElem hlength)
    exact of_decide_eq_false (List.not_of_lt_findIdx hlt) habove
  · by_contra hearly
    exact lt_irrefl _ (seq_lt_of_resume_le (Nat.le_of_lt_succ (Nat.lt_of_not_le hearly)) ha)

end MarkedLog

inductive FollowerPhase (α μ : Type*) where
  | idle
  | resuming (mark : Option μ)
  | following (pos : Nat)
  /-- With an item that is not committed. -/
  | holding (pos : Nat) (a : α)

structure Follower (α μ : Type*) where
  mark : Option μ
  got : List α
  phase : FollowerPhase α μ

inductive FollowerEvent where
  | load
  | attach (tail : Nat)
  | next
  | commit
  | fail

namespace Follower

def start (mark : Option μ) : Follower α μ := ⟨mark, [], .idle⟩

def step (log : MarkedLog α μ) (r : Follower α μ) : FollowerEvent → Option (Follower α μ)
  | .load =>
      match r.phase with
      | .idle => some { r with phase := .resuming r.mark }
      | _ => none
  | .attach tail =>
      match r.phase with
      | .resuming mark => some { r with phase := .following (log.attach mark tail) }
      | _ => none
  | .next =>
      match r.phase with
      | .following pos =>
          log.items[pos]?.map fun a =>
            { r with got := r.got ++ [a], phase := .holding (pos + 1) a }
      | _ => none
  | .commit =>
      match r.phase with
      | .holding pos a => some { r with mark := some (log.mark a), phase := .following pos }
      | _ => none
  | .fail =>
      match r.phase with
      | .resuming _ => some { r with phase := .idle }
      | .following _ => some { r with phase := .idle }
      | _ => none

variable {log : MarkedLog α μ} {initial : Option μ} {r t : Follower α μ}

def UpTo (log : MarkedLog α μ) (initial : Option μ) (got : List α) (pos : Nat) : Prop :=
  ∃ base, pos = base + got.length ∧ pos ≤ log.items.length ∧ got = slice log.items base pos ∧
    ∀ m, initial = some m → base = log.resume m

def due (log : MarkedLog α μ) (initial : Option μ) (got : List α) : Option μ :=
  (got.getLast?.map log.mark).or initial

/-- How the phase, the mark and the items fit together. -/
def InStep (log : MarkedLog α μ) (initial : Option μ) (r : Follower α μ) : Prop :=
  match r.phase with
  | .idle => r.mark = due log initial r.got
  | .resuming mark => mark = r.mark ∧ r.mark = due log initial r.got
  | .following pos => UpTo log initial r.got pos ∧ r.mark = due log initial r.got
  | .holding pos a => UpTo log initial r.got pos ∧ r.got.getLast? = some a ∧
      ∀ m, r.mark = some m → log.seq m < log.seq (log.mark a)

structure Sound (log : MarkedLog α μ) (initial : Option μ) (r : Follower α μ) : Prop where
  stretch : ∃ pos, UpTo log initial r.got pos
  inStep : r.InStep log initial

theorem UpTo.last {got : List α} {pos : Nat} {a : α} (h : UpTo log initial got pos)
    (ha : got.getLast? = some a) : ∃ k, pos = k + 1 ∧ log.items[k]? = some a := by
  obtain ⟨base, rfl, hlength, hgot, -⟩ := h
  have hpos : 0 < got.length := by
    rcases got with - | ⟨b, got⟩
    · cases ha
    · simp
  refine ⟨base + got.length - 1, by omega, ?_⟩
  have hget : (slice log.items base (base + got.length))[got.length - 1]? = some a := by
    rw [← hgot, ← List.getLast?_eq_getElem?]
    exact ha
  rw [slice, List.getElem?_drop, List.getElem?_take, if_pos (by omega)] at hget
  rw [← hget, Nat.add_sub_assoc hpos]

theorem upTo_attach {got : List α} {pos : Nat} (h : UpTo log initial got pos) (tail : Nat) :
    UpTo log initial got (log.attach (due log initial got) tail) := by
  cases hlast : got.getLast? with
  | none =>
      have hnil := List.getLast?_eq_none_iff.mp hlast
      subst hnil
      refine ⟨_, rfl, MarkedLog.attach_le _ _, (slice_eq_nil _ le_rfl).symm, ?_⟩
      rintro m rfl
      rfl
  | some a =>
      obtain ⟨k, rfl, ha⟩ := h.last hlast
      rw [due, hlast, Option.map_some, Option.some_or, MarkedLog.attach, MarkedLog.resume_mark ha]
      exact h

theorem UpTo.next {got : List α} {pos : Nat} {a : α} (h : UpTo log initial got pos)
    (ha : log.items[pos]? = some a) : UpTo log initial (got ++ [a]) (pos + 1) := by
  obtain ⟨base, rfl, -, hgot, hbase⟩ := h
  refine ⟨base, by simp [Nat.add_assoc], (List.getElem?_eq_some_iff.mp ha).1, ?_, hbase⟩
  rw [slice_succ (Nat.le_add_right _ _) ha, ← hgot]

theorem UpTo.seq_lt {got : List α} {pos : Nat} {a : α} {m : μ} (h : UpTo log initial got pos)
    (ha : log.items[pos]? = some a) (hm : due log initial got = some m) :
    log.seq m < log.seq (log.mark a) := by
  cases hlast : got.getLast? with
  | none =>
      rw [due, hlast, Option.map_none, Option.none_or] at hm
      obtain ⟨base, rfl, -, -, hbase⟩ := h
      refine MarkedLog.seq_lt_of_resume_le ?_ ha
      rw [← hbase m hm]
      exact Nat.le_add_right _ _
  | some b =>
      rw [due, hlast, Option.map_some, Option.some_or] at hm
      cases hm
      obtain ⟨k, rfl, hb⟩ := h.last hlast
      exact MarkedLog.seq_lt (Nat.lt_succ_self k) hb ha

theorem sound_start (log : MarkedLog α μ) (initial : Option μ) :
    (start initial : Follower α μ).Sound log initial := by
  have hnone : UpTo log initial [] (log.attach initial 0) := by
    refine ⟨_, rfl, MarkedLog.attach_le _ _, (slice_eq_nil _ le_rfl).symm, ?_⟩
    rintro m rfl
    rfl
  exact ⟨⟨_, hnone⟩, rfl⟩

theorem Sound.step {e : FollowerEvent} (h : r.Sound log initial) (hstep : r.step log e = some t) :
    t.Sound log initial := by
  obtain ⟨mark, got, phase⟩ := r
  obtain ⟨hstretch, hinStep⟩ := h
  cases e with
  | load =>
      cases phase <;> cases hstep
      exact ⟨hstretch, rfl, hinStep⟩
  | attach tail =>
      cases phase <;> cases hstep
      obtain ⟨rfl, hmark⟩ := hinStep
      obtain ⟨pos, hpos⟩ := hstretch
      refine ⟨⟨pos, hpos⟩, ?_, hmark⟩
      have hattach := upTo_attach hpos tail
      rw [← hmark] at hattach
      exact hattach
  | next =>
      cases phase with
      | following pos =>
          obtain ⟨a, ha, rfl⟩ := Option.map_eq_some_iff.mp hstep
          obtain ⟨hpos, hmark⟩ := hinStep
          have hnext := hpos.next ha
          refine ⟨⟨_, hnext⟩, hnext, List.getLast?_concat, ?_⟩
          intro m hm
          exact hpos.seq_lt ha (hmark.symm.trans hm)
      | _ => cases hstep
  | commit =>
      cases phase <;> cases hstep
      obtain ⟨hpos, hlast, -⟩ := hinStep
      refine ⟨hstretch, hpos, ?_⟩
      simp only [due, hlast, Option.map_some, Option.some_or]
  | fail =>
      cases phase <;> cases hstep
      · exact ⟨hstretch, hinStep.2⟩
      · exact ⟨hstretch, hinStep.2⟩

/-- However often a session ends, what the reader has got is one stretch of the log. -/
theorem Sound.got_eq (h : r.Sound log initial) :
    r.got <:+: log.items ∧ ∀ m, initial = some m → r.got <+: log.items.drop (log.resume m) := by
  obtain ⟨pos, base, rfl, -, hgot, hbase⟩ := h.stretch
  have hinitial : r.got <+: log.items.drop base := by
    rw [hgot, slice, List.drop_take]
    exact List.take_prefix _ _
  refine ⟨hinitial.isInfix.trans (List.drop_suffix _ _).isInfix, ?_⟩
  intro m hm
  rwa [← hbase m hm]

end Follower

end KloudlensAggregator.Foundation
