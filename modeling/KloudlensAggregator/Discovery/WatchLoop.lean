import KloudlensAggregator.Discovery.EndpointSlice
import KloudlensAggregator.Discovery.Watch
import KloudlensAggregator.Foundation.JsonText
import KloudlensAggregator.Foundation.Lines
import KloudlensAggregator.Foundation.Run

/-!
# The list and watch loops

Both watchers keep a map of objects by a LIST and a watch stream behind it, over
and over until their context is cancelled.  What the API server answers and when,
and the moment of the cancellation, are inputs here.  The two implementations
differ in the keys of the objects, in the texts of their errors and in what they
publish, which are the fields of `ObjectKind` and `Resource`.
-/

namespace KloudlensAggregator.Discovery

open KloudlensAggregator.Foundation
open KloudlensAggregator.Foundation.Json (natText)

/-! ## The API server and the clock -/

structure Context where
  doneAt : Option Nat

def Context.err (ctx : Context) (now : Nat) : Bool := ctx.doneAt.any (· ≤ now)

/-- The bytes of a body and the error its reads end with; `none` is EOF. -/
structure Body where
  data : Bytes
  err : Option Bytes

structure Response where
  status : Nat
  body : Body

structure Exchange where
  delay : Nat
  result : Except Bytes Response

structure RawList (I : Type) where
  resourceVersion : String
  items : List I

structure RawEvent (I : Type) where
  type : String
  object : I

inductive EventType where
  | added
  | modified
  | deleted
  | bookmark
  | error
  | unknown
  deriving DecidableEq, Repr

def EventType.ofString (type : String) : EventType :=
  if type = "ADDED" then .added
  else if type = "MODIFIED" then .modified
  else if type = "DELETED" then .deleted
  else if type = "BOOKMARK" then .bookmark
  else if type = "ERROR" then .error
  else .unknown

structure EventJson (I : Type) where
  decode : Body → Except Bytes (RawList I)
  unmarshal : Bytes → Except Bytes (RawEvent I)

structure ObjectKind (I : Type) extends EventJson I where
  label : String
  keyOf : I → Option String

/-- Objects and their publication.  It takes some time, and it may turn out otherwise once
the context is cancelled; `C` is what it leaves open besides. -/
structure Resource (I P C : Type) extends ObjectKind I where
  delay : C → Nat
  publish : Bool → C → GoMap String I → P → P

structure View (I P : Type) where
  now : Nat
  state : GoMap String I
  published : P

structure Pace (C : Type) where
  delay : Nat
  choice : C

def maxEventSize : Nat := 4194304

/-! ## LIST and watch -/

namespace ObjectKind

variable {I : Type}

def put (k : ObjectKind I) (state : GoMap String I) (item : I) : GoMap String I :=
  match k.keyOf item with
  | some key => state.insert key item
  | none => state

def drop (k : ObjectKind I) (state : GoMap String I) (item : I) : GoMap String I :=
  match k.keyOf item with
  | some key => state.erase key
  | none => state

def statusError (k : ObjectKind I) (request : String) (resp : Response) : Bytes :=
  utf8Bytes ("discovery: " ++ request ++ k.label ++ " ") ++ natText resp.status ++
    utf8Bytes ": " ++ resp.body.data.take 4096

def list (k : ObjectKind I) (result : Except Bytes Response) (state : GoMap String I) :
    Except Bytes String × GoMap String I :=
  match result with
  | .error err => (.error err, state)
  | .ok resp =>
      if 400 ≤ resp.status then (.error (k.statusError "list" resp), state)
      else
        match k.decode resp.body with
        | .error err =>
            (.error (utf8Bytes ("discovery: decode list" ++ k.label ++ ": ") ++ err), state)
        | .ok lr => (.ok lr.resourceVersion, lr.items.foldl k.put ∅)

end ObjectKind

namespace Resource

variable {I P C : Type}

def announce (r : Resource I P C) (ctx : Context) (choice : C) (v : View I P) : View I P :=
  let now := v.now + r.delay choice
  { v with now := now, published := r.publish (ctx.err now) choice v.state v.published }

def handle (r : Resource I P C) (ctx : Context) (line : Bytes) (choice : C) (v : View I P) :
    Except Bytes (View I P) :=
  match r.unmarshal line with
  | .error err => .error (utf8Bytes ("discovery: parse watch event" ++ r.label ++ ": ") ++ err)
  | .ok ev =>
      match EventType.ofString ev.type with
      | .added => .ok (r.announce ctx choice { v with state := r.put v.state ev.object })
      | .modified => .ok (r.announce ctx choice { v with state := r.put v.state ev.object })
      | .deleted => .ok (r.announce ctx choice { v with state := r.drop v.state ev.object })
      | .bookmark => .ok v
      | .error => .error (utf8Bytes ("discovery: watch ERROR" ++ r.label ++ ": ") ++ line)
      | .unknown => .ok v

/-- The loop over the lines that are left, from the `n`th `Scan` on; nil is `none`. -/
def watchFrom (r : Resource I P C) (ctx : Context) (err : Option Bytes) (pace : Nat → Pace C) :
    Nat → List Bytes → View I P → Option Bytes × View I P
  | n, [], v => (err, { v with now := v.now + (pace n).delay })
  | n, line :: lines, v =>
      let v := { v with now := v.now + (pace n).delay }
      if ctx.err v.now then (none, v)
      else
        match r.handle ctx line (pace n).choice v with
        | .error err => (some err, v)
        | .ok v => watchFrom r ctx err pace (n + 1) lines v

def watch (r : Resource I P C) (ctx : Context) (exchange : Exchange) (pace : Nat → Pace C)
    (v : View I P) : Option Bytes × View I P :=
  let v := { v with now := v.now + exchange.delay }
  match exchange.result with
  | .error err => (some err, v)
  | .ok resp =>
      if 400 ≤ resp.status then (some (r.statusError "watch" resp), v)
      else
        let scanned := scanLines maxEventSize resp.body.data resp.body.err
        r.watchFrom ctx scanned.2 pace 0 scanned.1 v

end Resource

/-! ## The loop -/

inductive Action where
  | list (time : Nat)
  | watch (resourceVersion : String) (time : Nat)
  | watched (err : Option Bytes) (time : Nat)
  | backoff (start stop : Nat)
  deriving DecidableEq, Repr

structure WatchLoop (I P : Type) extends View I P where
  returned : Bool
  log : List Action

def WatchLoop.new {I P : Type} (now : Nat) (published : P) : WatchLoop I P :=
  ⟨⟨now, ∅, published⟩, false, []⟩

/-- What one iteration meets; what it does not come to is not looked at. -/
structure Turn (C : Type) where
  list : Exchange
  listed : C
  watch : Exchange
  pace : Nat → Pace C
  late : Nat

/-- The end of a wait: the timer or the cancellation, whichever is first, or later. -/
def sleepBackoff (ctx : Context) (reconnectBackoff : Int) (late now : Nat) : Nat :=
  let fires := now + reconnectBackoff.toNat
  match ctx.doneAt with
  | none => fires + late
  | some done => min fires (max now done) + late

def WatchLoop.sleep {I P : Type} (s : WatchLoop I P) (ctx : Context) (reconnectBackoff : Int)
    (late : Nat) : WatchLoop I P :=
  let stop := sleepBackoff ctx reconnectBackoff late s.now
  { s with now := stop, log := s.log ++ [.backoff s.now stop] }

namespace Resource

variable {I P C : Type}

def turn (r : Resource I P C) (ctx : Context) (reconnectBackoff : Int) (s : WatchLoop I P)
    (t : Turn C) : WatchLoop I P :=
  if s.returned then s
  else if ctx.err s.now then { s with returned := true }
  else
    let listed := r.list t.list.result s.state
    let v : View I P := ⟨s.now + t.list.delay, listed.2, s.published⟩
    let log := s.log ++ [.list s.now]
    match listed.1 with
    | .error _ => WatchLoop.sleep ⟨v, false, log⟩ ctx reconnectBackoff t.late
    | .ok rv =>
        let v := r.announce ctx t.listed v
        let watched := r.watch ctx t.watch t.pace v
        let log := log ++ [.watch rv v.now, .watched watched.1 watched.2.now]
        match watched.1 with
        | some _ => WatchLoop.sleep ⟨watched.2, false, log⟩ ctx reconnectBackoff t.late
        | none => ⟨watched.2, false, log⟩

def loop (r : Resource I P C) (ctx : Context) (reconnectBackoff : Int) (s : WatchLoop I P)
    (turns : List (Turn C)) : WatchLoop I P :=
  turns.foldl (r.turn ctx reconnectBackoff) s

end Resource

def withDefaultBackoff (reconnectBackoff : Int) : Int :=
  if reconnectBackoff = 0 then 2000000000 else reconnectBackoff

/-! ## The two watchers -/

namespace ServiceWatcher

variable {O : Type}

def kind (json : EventJson (RawObject O)) (path : String) : ObjectKind (RawObject O) where
  toEventJson := json
  label := " " ++ path
  keyOf := keyOf

def resource (json : EventJson (RawObject O)) (path : String)
    (apply : ServiceWatcher → RangeOrders → GoMap String (RawObject O) → ServiceWatcher) :
    Resource (RawObject O) ServiceWatcher RangeOrders where
  toObjectKind := kind json path
  delay := fun _ => 0
  publish := fun _ orders state w => apply w orders state

def list (json : EventJson (RawObject O)) (path : String) := (kind json path).list

def watch (json : EventJson (RawObject O)) (path : String)
    (apply : ServiceWatcher → RangeOrders → GoMap String (RawObject O) → ServiceWatcher) :=
  (resource json path apply).watch

def watchLoop (json : EventJson (RawObject O)) (ctx : Context) (reconnectBackoff : Int)
    (path : String)
    (apply : ServiceWatcher → RangeOrders → GoMap String (RawObject O) → ServiceWatcher) :=
  (resource json path apply).loop ctx (withDefaultBackoff reconnectBackoff)

end ServiceWatcher

open EndpointSlice in
structure EmitChoice where
  order : RangeOrder String SliceObject
  sort : AddrSort
  delay : Nat
  sends : Bool

structure EndpointSliceWatcher where
  targetPort : Int32
  reconnectBackoff : Int

namespace EndpointSliceWatcher

open EndpointSlice

def emit (cancelled : Bool) (choice : EmitChoice) (state : GoMap String SliceObject)
    (targetPort : Int32) (out : List (List Endpoint)) : List (List Endpoint) :=
  if cancelled && !choice.sends then out
  else out ++ [flatten choice.order choice.sort state targetPort]

def kind (json : EventJson SliceObject) : ObjectKind SliceObject where
  toEventJson := json
  label := ""
  keyOf := fun slice => some slice.name

def resource (w : EndpointSliceWatcher) (json : EventJson SliceObject) :
    Resource SliceObject (List (List Endpoint)) EmitChoice where
  toObjectKind := kind json
  delay := EmitChoice.delay
  publish := fun cancelled choice state out => emit cancelled choice state w.targetPort out

def list (json : EventJson SliceObject) := (kind json).list

def watchUntilErr (w : EndpointSliceWatcher) (json : EventJson SliceObject) :=
  (w.resource json).watch

def loop (w : EndpointSliceWatcher) (json : EventJson SliceObject) (ctx : Context) :=
  (w.resource json).loop ctx (withDefaultBackoff w.reconnectBackoff)

end EndpointSliceWatcher

/-! ## What LIST and watch return -/

section Returns

variable {I P C : Type} {k : ObjectKind I} {r : Resource I P C} {ctx : Context}

theorem list_of_error {result : Except Bytes Response} {state : GoMap String I} {err : Bytes}
    (h : (k.list result state).1 = .error err) : (k.list result state).2 = state := by
  unfold ObjectKind.list at h ⊢
  cases result with
  | error err => rfl
  | ok resp =>
      by_cases hstatus : 400 ≤ resp.status
      · simp only [hstatus, if_true]
      · simp only [hstatus, if_false] at h ⊢
        cases hdecode : k.decode resp.body with
        | error err => rfl
        | ok lr => simp [hdecode] at h

def ObjectKind.Accepts (k : ObjectKind I) (line : Bytes) : Prop :=
  ∃ ev, k.unmarshal line = .ok ev ∧ EventType.ofString ev.type ≠ .error

theorem exists_handle_iff {line : Bytes} {choice : C} {v : View I P} :
    (∃ next, r.handle ctx line choice v = .ok next) ↔ r.Accepts line := by
  unfold Resource.handle ObjectKind.Accepts
  cases r.unmarshal line with
  | error err => simp
  | ok ev => cases htype : EventType.ofString ev.type <;> simp [htype]

def ObjectKind.EndsQuietly (k : ObjectKind I) (result : Except Bytes Response) : Prop :=
  ∃ resp, result = .ok resp ∧ resp.status < 400 ∧
    (scanLines maxEventSize resp.body.data resp.body.err).2 = none ∧
    ∀ line ∈ (scanLines maxEventSize resp.body.data resp.body.err).1, k.Accepts line

theorem endsQuietly_of_closed {texts : List Bytes} {resp : Response} (hstatus : resp.status < 400)
    (hbody : resp.body = ⟨Json.lines texts, none⟩)
    (hwhole : ∀ text ∈ texts, Json.newline ∉ text ∧ text.length < maxEventSize ∧
      dropCR text = text)
    (haccepts : ∀ text ∈ texts, k.Accepts text) : k.EndsQuietly (.ok resp) := by
  have hscan : scanLines maxEventSize (Json.lines texts) none = (texts, none) :=
    scanLines_lines none (fun text htext => (hwhole text htext).1)
      (fun text htext => (hwhole text htext).2.1) (fun text htext => (hwhole text htext).2.2)
  refine ⟨resp, rfl, hstatus, ?_, ?_⟩
  · rw [hbody, hscan]
  · rw [hbody, hscan]
    exact haccepts

private theorem watchFrom_nil {err : Option Bytes} {pace : Nat → Pace C} {n : Nat}
    {lines : List Bytes}
    {v : View I P} (h : (r.watchFrom ctx err pace n lines v).1 = none) :
    ctx.err (r.watchFrom ctx err pace n lines v).2.now = true ∨
      err = none ∧ ∀ line ∈ lines, r.Accepts line := by
  induction lines generalizing n v with
  | nil => exact .inr ⟨h, by simp⟩
  | cons line lines ih =>
      rw [Resource.watchFrom] at h ⊢
      cases hdone : ctx.err (v.now + (pace n).delay) with
      | true =>
          simp only [if_true]
          exact .inl hdone
      | false =>
          simp only [hdone, Bool.false_eq_true, if_false] at h ⊢
          cases hhandle : r.handle ctx line (pace n).choice
              { v with now := v.now + (pace n).delay } with
          | error err => simp [hhandle] at h
          | ok next =>
              simp only [hhandle] at h ⊢
              rcases ih h with hcancelled | ⟨herr, hlines⟩
              · exact .inl hcancelled
              · rw [List.forall_mem_cons]
                exact .inr ⟨herr, exists_handle_iff.mp ⟨next, hhandle⟩, hlines⟩

private theorem watchFrom_of_accepts {pace : Nat → Pace C} {n : Nat} {lines : List Bytes}
    {v : View I P}
    (h : ∀ line ∈ lines, r.Accepts line) : (r.watchFrom ctx none pace n lines v).1 = none := by
  induction lines generalizing n v with
  | nil => rfl
  | cons line lines ih =>
      rw [List.forall_mem_cons] at h
      rw [Resource.watchFrom]
      cases hdone : ctx.err (v.now + (pace n).delay) with
      | true => simp only [if_true]
      | false =>
          obtain ⟨next, hhandle⟩ := exists_handle_iff.mpr h.1
          simp only [Bool.false_eq_true, if_false]
          rw [hhandle]
          exact ih h.2

theorem watch_nil {exchange : Exchange} {pace : Nat → Pace C} {v : View I P}
    (h : (r.watch ctx exchange pace v).1 = none) :
    ctx.err (r.watch ctx exchange pace v).2.now = true ∨ r.EndsQuietly exchange.result := by
  unfold Resource.watch at h ⊢
  cases hresult : exchange.result with
  | error err => simp [hresult] at h
  | ok resp =>
      by_cases hstatus : 400 ≤ resp.status
      · simp [hresult, hstatus] at h
      · simp only [hresult, hstatus, if_false] at h ⊢
        rcases watchFrom_nil h with hcancelled | ⟨herr, hlines⟩
        · exact .inl hcancelled
        · exact .inr ⟨resp, rfl, Nat.not_le.mp hstatus, herr, hlines⟩

theorem watch_of_endsQuietly {exchange : Exchange} (h : r.EndsQuietly exchange.result)
    (pace : Nat → Pace C) (v : View I P) : (r.watch ctx exchange pace v).1 = none := by
  obtain ⟨resp, hresult, hstatus, herr, hlines⟩ := h
  simp only [Resource.watch, hresult, hstatus.not_ge, if_false, herr]
  exact watchFrom_of_accepts hlines

end Returns

end KloudlensAggregator.Discovery
