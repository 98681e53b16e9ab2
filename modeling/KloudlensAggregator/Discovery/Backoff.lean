import KloudlensAggregator.Discovery.WatchLoop
import KloudlensAggregator.Foundation.Separated

/-!
# Backing off

The loops wait after a LIST or a watch that fails.  A watch that returns nil is
taken for one whose context was cancelled, and is followed by the next LIST at
once.  This module says when a run of a loop keeps its LIST requests apart.
-/

namespace KloudlensAggregator.Discovery

open KloudlensAggregator.Foundation

section Log

variable {ctx : Context} {reconnectBackoff : Int} {log : List Action} {a : Action}

def Action.IsList (a : Action) : Prop := ∃ time, a = .list time

def Action.Waits (reconnectBackoff : Int) (a : Action) : Prop :=
  ∃ start stop : Nat, a = .backoff start stop ∧ start + reconnectBackoff ≤ stop

/-- A watch returns nil only if the context is cancelled, and between two LIST requests
there is a wait. -/
structure BacksOff (ctx : Context) (reconnectBackoff : Int) (log : List Action) : Prop where
  nil_only_cancelled : ∀ time, .watched none time ∈ log → ctx.err time = true
  waits_between : Separated Action.IsList (Action.Waits reconnectBackoff) log

namespace BacksOff

theorem nil : BacksOff ctx reconnectBackoff [] := ⟨by simp, separated_nil⟩

theorem concat (h : BacksOff ctx reconnectBackoff log) (hlist : ¬ a.IsList)
    (hnil : ∀ time, a = .watched none time → ctx.err time = true) :
    BacksOff ctx reconnectBackoff (log ++ [a]) := by
  refine ⟨?_, h.waits_between.concat hlist⟩
  intro time htime
  rcases List.mem_append.mp htime with htime | htime
  · exact h.nil_only_cancelled time htime
  · exact hnil time (List.mem_singleton.mp htime).symm

private theorem concat_list (h : BacksOff ctx reconnectBackoff log)
    (hsettled : Settled Action.IsList (Action.Waits reconnectBackoff) log) (time : Nat) :
    BacksOff ctx reconnectBackoff (log ++ [.list time]) := by
  refine ⟨?_, h.waits_between.concat_of_settled hsettled⟩
  intro time' htime
  rcases List.mem_append.mp htime with htime | htime
  · exact h.nil_only_cancelled time' htime
  · simp at htime

end BacksOff

end Log

variable {I P C : Type} {r : Resource I P C} {ctx : Context} {reconnectBackoff : Int}
  {s : WatchLoop I P} {t : Turn C}

/-! ## One iteration -/

inductive Turned (r : Resource I P C) (ctx : Context) (reconnectBackoff : Int)
    (s : WatchLoop I P) (t : Turn C) : WatchLoop I P → Prop
  | ended (hreturned : s.returned = true) : Turned r ctx reconnectBackoff s t s
  | cancelled (hdone : ctx.err s.now = true) :
      Turned r ctx reconnectBackoff s t { s with returned := true }
  | notListed {err : Bytes} (hreturned : s.returned = false) (hlive : ctx.err s.now = false)
      (hlist : (r.list t.list.result s.state).1 = .error err) :
      Turned r ctx reconnectBackoff s t
        (WatchLoop.sleep ⟨⟨s.now + t.list.delay, s.state, s.published⟩, false,
          s.log ++ [.list s.now]⟩ ctx reconnectBackoff t.late)
  | failed {rv : String} {err : Bytes} {start : Nat} {v v' : View I P}
      (hreturned : s.returned = false) (hlive : ctx.err s.now = false)
      (hlist : (r.list t.list.result s.state).1 = .ok rv)
      (hwatch : r.watch ctx t.watch t.pace v = (some err, v')) :
      Turned r ctx reconnectBackoff s t
        (WatchLoop.sleep ⟨v', false,
          s.log ++ [.list s.now] ++ [.watch rv start] ++ [.watched (some err) v'.now]⟩ ctx
          reconnectBackoff t.late)
  | nil {rv : String} {start : Nat} {v v' : View I P}
      (hreturned : s.returned = false) (hlive : ctx.err s.now = false)
      (hlist : (r.list t.list.result s.state).1 = .ok rv)
      (hwatch : r.watch ctx t.watch t.pace v = (none, v')) :
      Turned r ctx reconnectBackoff s t
        ⟨v', false, s.log ++ [.list s.now] ++ [.watch rv start] ++ [.watched none v'.now]⟩

theorem turned (r : Resource I P C) (ctx : Context) (reconnectBackoff : Int)
    (s : WatchLoop I P) (t : Turn C) :
    Turned r ctx reconnectBackoff s t (r.turn ctx reconnectBackoff s t) := by
  unfold Resource.turn
  cases hreturned : s.returned with
  | true => exact .ended hreturned
  | false =>
      cases hdone : ctx.err s.now with
      | true => exact .cancelled hdone
      | false =>
          simp only [Bool.false_eq_true, if_false]
          cases hlist : (r.list t.list.result s.state).1 with
          | error err =>
              simp only [list_of_error hlist]
              exact .notListed hreturned hdone hlist
          | ok rv =>
              simp only
              generalize hview : r.announce ctx t.listed
                ⟨s.now + t.list.delay, (r.list t.list.result s.state).2, s.published⟩ = v
              cases hwatch : r.watch ctx t.watch t.pace v with
              | mk err v' =>
                  cases err with
                  | none => simpa using Turned.nil hreturned hdone hlist hwatch
                  | some err => simpa using Turned.failed hreturned hdone hlist hwatch

def KeepsOnFailedList (r : Resource I P C) (ctx : Context) (reconnectBackoff : Int) : Prop :=
  ∀ (s : WatchLoop I P) (t : Turn C) (err : Bytes),
    (r.list t.list.result s.state).1 = .error err →
      (r.turn ctx reconnectBackoff s t).state = s.state ∧
        (r.turn ctx reconnectBackoff s t).published = s.published

theorem keepsOnFailedList (r : Resource I P C) (ctx : Context) (reconnectBackoff : Int) :
    KeepsOnFailedList r ctx reconnectBackoff := by
  intro s t err h
  have hturned := turned r ctx reconnectBackoff s t
  generalize r.turn ctx reconnectBackoff s t = next at hturned ⊢
  cases hturned with
  | ended | cancelled | notListed => exact ⟨rfl, rfl⟩
  | failed _ _ hlist | nil _ _ hlist =>
      rw [h] at hlist
      cases hlist

private theorem sleepBackoff_waits (ctx : Context) (reconnectBackoff : Int) (late now : Nat) :
    now + reconnectBackoff ≤ sleepBackoff ctx reconnectBackoff late now ∨
      ctx.err (sleepBackoff ctx reconnectBackoff late now) = true := by
  unfold sleepBackoff Context.err
  cases ctx.doneAt with
  | none =>
      simp only
      omega
  | some done =>
      simp only [Option.any_some, decide_eq_true_eq]
      omega

structure Ready (ctx : Context) (reconnectBackoff : Int) (s : WatchLoop I P) : Prop extends
    BacksOff ctx reconnectBackoff s.log where
  settled : s.returned = true ∨ ctx.err s.now = true ∨
    Settled Action.IsList (Action.Waits reconnectBackoff) s.log

theorem Ready.new (now : Nat) (published : P) :
    Ready ctx reconnectBackoff (WatchLoop.new now published : WatchLoop I P) :=
  ⟨.nil, .inr (.inr settled_nil)⟩

theorem Ready.sleep (h : BacksOff ctx reconnectBackoff s.log) (late : Nat) :
    Ready ctx reconnectBackoff (s.sleep ctx reconnectBackoff late) := by
  have hlist : ∀ start stop, ¬ Action.IsList (.backoff start stop) := by
    rintro start stop ⟨time, hlist⟩
    cases hlist
  refine ⟨h.concat (hlist _ _) (by simp), .inr ?_⟩
  rcases sleepBackoff_waits ctx reconnectBackoff late s.now with hwaits | hcancelled
  · exact .inr (settled_concat (hlist _ _) ⟨_, _, rfl, hwaits⟩)
  · exact .inl hcancelled

/-- The watch of the iteration comes to the end of its stream without an error, and the
context is not cancelled by then. -/
def QuietEnd (r : Resource I P C) (ctx : Context) (reconnectBackoff : Int) (s : WatchLoop I P)
    (t : Turn C) : Prop :=
  s.returned = false ∧ ctx.err s.now = false ∧
    (∃ rv, (r.list t.list.result s.state).1 = .ok rv) ∧ r.EndsQuietly t.watch.result ∧
    ctx.err (r.turn ctx reconnectBackoff s t).now = false

theorem Ready.turn (h : Ready ctx reconnectBackoff s)
    (hquiet : ¬ QuietEnd r ctx reconnectBackoff s t) :
    Ready ctx reconnectBackoff (r.turn ctx reconnectBackoff s t) := by
  have hlisted : s.returned = false → ctx.err s.now = false →
      BacksOff ctx reconnectBackoff (s.log ++ [.list s.now]) := by
    intro hreturned hlive
    rcases h.settled with hsettled | hsettled | hsettled
    · simp [hreturned] at hsettled
    · simp [hlive] at hsettled
    · exact h.toBacksOff.concat_list hsettled s.now
  have hwatch : ∀ rv start, ¬ Action.IsList (.watch rv start) := by simp [Action.IsList]
  have hwatched : ∀ err time, ¬ Action.IsList (.watched err time) := by simp [Action.IsList]
  have hturned := turned r ctx reconnectBackoff s t
  unfold QuietEnd at hquiet
  generalize r.turn ctx reconnectBackoff s t = next at hturned hquiet ⊢
  cases hturned with
  | ended => exact h
  | cancelled => exact ⟨h.toBacksOff, .inl rfl⟩
  | notListed hreturned hlive => exact Ready.sleep (hlisted hreturned hlive) t.late
  | failed hreturned hlive =>
      refine Ready.sleep ?_ t.late
      exact ((hlisted hreturned hlive).concat (hwatch _ _) (by simp)).concat (hwatched _ _)
        (by simp)
  | @nil rv start v v' hreturned hlive hlist hresult =>
      -- Only the context is left as the reason for nil, so no further LIST follows.
      have hdone : ctx.err v'.now = true := by
        have hnil : ctx.err (r.watch ctx t.watch t.pace v).2.now = true ∨
            r.EndsQuietly t.watch.result := watch_nil (by rw [hresult])
        rw [hresult] at hnil
        rcases hnil with hdone | hends
        · exact hdone
        · by_contra hlive'
          exact hquiet ⟨hreturned, hlive, ⟨rv, hlist⟩, hends, by simpa using hlive'⟩
      refine ⟨?_, .inr (.inl hdone)⟩
      refine ((hlisted hreturned hlive).concat (hwatch _ _) (by simp)).concat (hwatched _ _) ?_
      intro time htime
      cases htime
      exact hdone

/-! ## Runs -/

private theorem turn_log_extends (r : Resource I P C) (ctx : Context) (reconnectBackoff : Int)
    (s : WatchLoop I P) (t : Turn C) : s.log <+: (r.turn ctx reconnectBackoff s t).log := by
  have hturned := turned r ctx reconnectBackoff s t
  generalize r.turn ctx reconnectBackoff s t = next at hturned ⊢
  cases hturned with
  | ended | cancelled => exact List.prefix_rfl
  | notListed | failed | nil =>
      simp only [WatchLoop.sleep, List.append_assoc]
      exact List.prefix_append _ _

private theorem loop_log_extends (r : Resource I P C) (ctx : Context) (reconnectBackoff : Int)
    (s : WatchLoop I P) (turns : List (Turn C)) :
    s.log <+: (r.loop ctx reconnectBackoff s turns).log := by
  induction turns generalizing s with
  | nil => exact List.prefix_rfl
  | cons t turns ih => exact (turn_log_extends r ctx reconnectBackoff s t).trans (ih _)

private theorem exists_nil_of_quietEnd (h : QuietEnd r ctx reconnectBackoff s t) :
    ∃ time, ctx.err time = false ∧
      .watched none time ∈ (r.turn ctx reconnectBackoff s t).log := by
  obtain ⟨hreturned, hlive, ⟨rv, hlist⟩, hends, hlive'⟩ := h
  have hturned := turned r ctx reconnectBackoff s t
  generalize r.turn ctx reconnectBackoff s t = next at hturned hlive' ⊢
  cases hturned with
  | ended hended => simp [hreturned] at hended
  | cancelled hdone => simp [hlive] at hdone
  | notListed _ _ herror => simp [hlist] at herror
  | @failed _ _ _ v _ _ _ _ hwatch =>
      have hnil : (r.watch ctx t.watch t.pace v).1 = none := watch_of_endsQuietly hends t.pace v
      simp [hwatch] at hnil
  | nil => exact ⟨_, hlive', by simp⟩

def NoQuietEnd (r : Resource I P C) (ctx : Context) (reconnectBackoff : Int)
    (s : WatchLoop I P) (turns : List (Turn C)) : Prop :=
  Along (r.turn ctx reconnectBackoff) (fun s t => ¬ QuietEnd r ctx reconnectBackoff s t) s turns

theorem backsOff_iff (r : Resource I P C) (ctx : Context) (reconnectBackoff : Int) (now : Nat)
    (published : P) (turns : List (Turn C)) :
    BacksOff ctx reconnectBackoff
        (r.loop ctx reconnectBackoff (.new now published) turns).log ↔
      NoQuietEnd r ctx reconnectBackoff (.new now published) turns := by
  constructor
  · intro hbacks
    by_contra hnot
    obtain ⟨before, t, ⟨after, rfl⟩, -, hquiet⟩ := exists_of_not_along hnot
    rw [not_not] at hquiet
    obtain ⟨time, hlive, hmem⟩ := exists_nil_of_quietEnd hquiet
    have hextends := loop_log_extends r ctx reconnectBackoff
      (r.loop ctx reconnectBackoff (.new now published) (before ++ [t])) after
    simp only [Resource.loop, ← List.foldl_append] at hextends
    have hwatched : .watched none time ∈
        (r.loop ctx reconnectBackoff (.new now published) (before ++ [t])).log := by
      simpa [Resource.loop] using hmem
    have hdone := hbacks.nil_only_cancelled time (hextends.subset hwatched)
    simp [hlive] at hdone
  · intro halong
    have hready : Ready ctx reconnectBackoff
        (turns.foldl (r.turn ctx reconnectBackoff) (.new now published)) :=
      along_invariant (Ready ctx reconnectBackoff) (fun _ _ h hquiet => h.turn hquiet)
        (Ready.new now published) halong
    exact hready.toBacksOff

/-- However many whole events came before, a server that closes the stream of a live
context breaks the rule. -/
theorem not_backsOff_of_closed (r : Resource I P C) (reconnectBackoff : Int) (now : Nat)
    (published : P) {t : Turn C} {rv : String} {resp : Response} {texts : List Bytes}
    (hlist : (r.list t.list.result ∅).1 = .ok rv) (hwatch : t.watch.result = .ok resp)
    (hstatus : resp.status < 400) (hbody : resp.body = ⟨Json.lines texts, none⟩)
    (hwhole : ∀ text ∈ texts, Json.newline ∉ text ∧ text.length < maxEventSize ∧
      dropCR text = text)
    (haccepts : ∀ text ∈ texts, r.Accepts text) (turns : List (Turn C)) :
    ¬ BacksOff ⟨none⟩ reconnectBackoff
      (r.loop ⟨none⟩ reconnectBackoff (.new now published) (t :: turns)).log := by
  rw [backsOff_iff]
  rintro ⟨hnot, -⟩
  refine hnot ⟨rfl, rfl, ⟨rv, hlist⟩, ?_, rfl⟩
  rw [hwatch]
  exact endsQuietly_of_closed hstatus hbody hwhole haccepts

/-! ## The two watchers -/

theorem watchers_back_off_iff (ctx : Context) (now : Nat) {O : Type}
    (json : EventJson (RawObject O)) (reconnectBackoff : Int) (path : String)
    (apply : ServiceWatcher → RangeOrders → GoMap String (RawObject O) → ServiceWatcher)
    (w : ServiceWatcher) (turns : List (Turn RangeOrders))
    (sliceJson : EventJson EndpointSlice.SliceObject) (agents : EndpointSliceWatcher)
    (agentTurns : List (Turn EmitChoice)) :
    ((BacksOff ctx (withDefaultBackoff reconnectBackoff)
          (ServiceWatcher.watchLoop json ctx reconnectBackoff path apply (.new now w) turns).log ↔
        NoQuietEnd (ServiceWatcher.resource json path apply) ctx
          (withDefaultBackoff reconnectBackoff) (.new now w) turns) ∧
      KeepsOnFailedList (ServiceWatcher.resource json path apply) ctx
        (withDefaultBackoff reconnectBackoff)) ∧
    (BacksOff ctx (withDefaultBackoff agents.reconnectBackoff)
          (agents.loop sliceJson ctx (.new now []) agentTurns).log ↔
        NoQuietEnd (agents.resource sliceJson) ctx
          (withDefaultBackoff agents.reconnectBackoff) (.new now []) agentTurns) ∧
      KeepsOnFailedList (agents.resource sliceJson) ctx
        (withDefaultBackoff agents.reconnectBackoff) := by
  refine ⟨⟨?_, keepsOnFailedList _ ctx _⟩, ?_, keepsOnFailedList _ ctx _⟩
  · exact backsOff_iff (ServiceWatcher.resource json path apply) ctx _ now w turns
  · exact backsOff_iff (agents.resource sliceJson) ctx _ now [] agentTurns

def emptyCluster (I : Type) : EventJson I := ⟨fun _ => .ok ⟨"7", []⟩, fun _ => .error []⟩

def closedAtOnce {C : Type} (choice : C) : Turn C where
  list := ⟨0, .ok ⟨200, ⟨[], none⟩⟩⟩
  listed := choice
  watch := ⟨0, .ok ⟨200, ⟨[], none⟩⟩⟩
  pace := fun _ => ⟨0, choice⟩
  late := 0

def tightLog : List Action :=
  [.list 0, .watch "7" 0, .watched none 0, .list 0, .watch "7" 0, .watched none 0]

theorem watchers_list_at_once :
    (ServiceWatcher.watchLoop (emptyCluster (RawObject ServiceObject)) ⟨none⟩ 0 "/api/v1/services"
        ServiceWatcher.applyServices (.new 0 ⟨⟨∅, ∅⟩, none⟩)
        (List.replicate 2 (closedAtOnce RangeOrders.forwards))).log = tightLog ∧
      ((EndpointSliceWatcher.mk 0 0).loop (emptyCluster EndpointSlice.SliceObject) ⟨none⟩
        (.new 0 []) (List.replicate 2 (closedAtOnce ⟨.forwards, .insertion, 0, true⟩))).log =
          tightLog ∧
      ¬ (∀ time, .watched none time ∈ tightLog → (Context.mk none).err time = true) ∧
      ¬ Separated Action.IsList (Action.Waits (withDefaultBackoff 0)) tightLog := by
  refine ⟨rfl, rfl, ?_, ?_⟩
  · intro hcancelled
    have hdone := hcancelled 0 (by decide)
    cases hdone
  · intro hseparated
    obtain ⟨a, hmem, start, stop, rfl, -⟩ := hseparated [] (.list 0)
      [.watch "7" 0, .watched none 0] (.list 0) [.watch "7" 0, .watched none 0] rfl
      ⟨0, rfl⟩ ⟨0, rfl⟩
    simp at hmem

end KloudlensAggregator.Discovery
