import KloudlensAggregator.Discovery.WatchLoop
import KloudlensAggregator.Foundation.Replica

/-!
# The watchers as replicas of the cluster

The cluster is a sequence of changes of its objects.  A LIST shows the objects as
some number of changes have left them, and the watch behind it the changes that
follow, until it breaks somewhere.  Whatever fails in between, and however often,
the objects of a watcher are at every publication those of the cluster at one
version, and the versions do not go back.
-/

namespace KloudlensAggregator.Discovery

open KloudlensAggregator.Foundation

variable {I P C : Type}

/-! ## The cluster -/

inductive Change (I : Type) where
  | put (object : I)
  | drop (object : I)

namespace ObjectKind

def change (k : ObjectKind I) (objects : String → Option I) : Change I → String → Option I
  | .put object =>
      match k.keyOf object with
      | some key => Function.update objects key (some object)
      | none => objects
  | .drop object =>
      match k.keyOf object with
      | some key => Function.update objects key none
      | none => objects

def clusterAt (k : ObjectKind I) (cluster : List (Change I)) (n : Nat) : String → Option I :=
  storeAt k.change (fun _ => none) cluster n

def changeOf (k : ObjectKind I) (line : Bytes) : Option (Change I) :=
  match k.unmarshal line with
  | .error _ => none
  | .ok ev =>
      match EventType.ofString ev.type with
      | .added => some (.put ev.object)
      | .modified => some (.put ev.object)
      | .deleted => some (.drop ev.object)
      | _ => none

def changesOf (k : ObjectKind I) (result : Except Bytes Response) : List (Change I) :=
  match result with
  | .error _ => []
  | .ok resp =>
      if 400 ≤ resp.status then []
      else (scanLines maxEventSize resp.body.data resp.body.err).1.filterMap k.changeOf

/-- The LIST of an iteration shows version `n`, where it succeeds, and its watch the changes
behind it, up to wherever it breaks. -/
structure Answers (k : ObjectKind I) (cluster : List (Change I)) (t : Turn C) (n : Nat) :
    Prop where
  bounded : n ≤ cluster.length
  list : ∀ resp lr, t.list.result = .ok resp → resp.status < 400 →
    k.decode resp.body = .ok lr → ∀ key object,
      k.clusterAt cluster n key = some object ↔ object ∈ lr.items ∧ k.keyOf object = some key
  watch : k.changesOf t.watch.result <+: cluster.drop n

def Serves (k : ObjectKind I) (cluster : List (Change I)) : Nat → List (Turn C × Nat) → Prop
  | _, [] => True
  | low, (t, n) :: served =>
      low ≤ n ∧ k.Answers cluster t n ∧
        Serves k cluster (n + (k.changesOf t.watch.result).length) served

def held (state : GoMap String I) (key : String) : Option I := state.lookup key

variable {k : ObjectKind I} {cluster : List (Change I)} {state : GoMap String I} {n : Nat}

theorem held_put (k : ObjectKind I) (state : GoMap String I) (object : I) :
    held (k.put state object) = k.change (held state) (.put object) := by
  simp only [put, change]
  cases k.keyOf object with
  | none => rfl
  | some key =>
      funext key'
      by_cases heq : key' = key
      · rw [heq]
        simp [held]
      · simp [held, heq]

private theorem held_drop (k : ObjectKind I) (state : GoMap String I) (object : I) :
    held (k.drop state object) = k.change (held state) (.drop object) := by
  simp only [drop, change]
  cases k.keyOf object with
  | none => rfl
  | some key =>
      funext key'
      by_cases heq : key' = key
      · rw [heq]
        simp [held]
      · simp [held, heq]

private theorem held_foldl_put (items : List I) (state : GoMap String I) (key : String) :
    held (items.foldl k.put state) key =
      (items.reverse.find? fun item => k.keyOf item = some key).or (held state key) := by
  induction items generalizing state with
  | nil => rfl
  | cons item items ih =>
      rw [List.foldl_cons, ih, List.reverse_cons, List.find?_append, Option.or_assoc, held_put]
      congr 1
      simp only [change]
      cases hkey : k.keyOf item with
      | none => simp [hkey]
      | some key' =>
          by_cases heq : key = key'
          · simp [hkey, heq]
          · have hne : ¬ key' = key := fun h => heq h.symm
            simp [hkey, hne, heq]

private theorem held_list {t : Turn C} (h : k.Answers cluster t n) {rv : String}
    (hlist : (k.list t.list.result state).1 = .ok rv) :
    held (k.list t.list.result state).2 = k.clusterAt cluster n := by
  unfold list at hlist ⊢
  cases hresult : t.list.result with
  | error err => simp [hresult] at hlist
  | ok resp =>
      by_cases hstatus : 400 ≤ resp.status
      · simp [hresult, hstatus] at hlist
      · cases hdecode : k.decode resp.body with
        | error err => simp [hresult, hstatus, hdecode] at hlist
        | ok lr =>
            simp only [hstatus, if_false, hdecode]
            have hitems := h.list resp lr hresult (by omega) hdecode
            funext key
            rw [held_foldl_put]
            cases hfind : lr.items.reverse.find? fun item => k.keyOf item = some key with
            | some object =>
                have hmem := List.mem_reverse.mp (List.mem_of_find?_eq_some hfind)
                have hkey := List.find?_some hfind
                rw [(hitems key object).mpr ⟨hmem, of_decide_eq_true hkey⟩]
                rfl
            | none =>
                have hnone : k.clusterAt cluster n key = none := by
                  by_contra hsome
                  obtain ⟨object, hobject⟩ := Option.ne_none_iff_exists'.mp hsome
                  obtain ⟨hmem, hkey⟩ := (hitems key object).mp hobject
                  have := List.find?_eq_none.mp hfind object (List.mem_reverse.mpr hmem)
                  simp [hkey] at this
                rw [hnone]
                rfl

end ObjectKind

/-! ## Announcements -/

structure Announced (I C : Type) where
  cancelled : Bool
  choice : C
  state : GoMap String I

namespace Resource

/-- The same watcher, but it publishes the list of its publications. -/
def recorder (r : Resource I P C) : Resource I (List (Announced I C)) C where
  toObjectKind := r.toObjectKind
  delay := r.delay
  publish := fun cancelled choice state out => out ++ [⟨cancelled, choice, state⟩]

def publishAll (r : Resource I P C) (p : P) (announced : List (Announced I C)) : P :=
  announced.foldl (fun p a => r.publish a.cancelled a.choice a.state p) p

def replayed (r : Resource I P C) (p : P) (v : View I (List (Announced I C))) : View I P :=
  ⟨v.now, v.state, r.publishAll p v.published⟩

def replayedLoop (r : Resource I P C) (p : P) (s : WatchLoop I (List (Announced I C))) :
    WatchLoop I P :=
  ⟨r.replayed p s.toView, s.returned, s.log⟩

variable (r : Resource I P C) (ctx : Context) (p : P)

theorem announce_replayed (choice : C) (v : View I (List (Announced I C))) :
    r.announce ctx choice (r.replayed p v) = r.replayed p (r.recorder.announce ctx choice v) := by
  simp only [announce, replayed, recorder, publishAll, List.foldl_append, List.foldl_cons,
    List.foldl_nil]

private theorem handle_replayed (line : Bytes) (choice : C) (v : View I (List (Announced I C))) :
    r.handle ctx line choice (r.replayed p v) =
      (r.recorder.handle ctx line choice v).map (r.replayed p) := by
  have hput : ∀ state, { r.replayed p v with state := state } =
      r.replayed p { v with state := state } := fun _ => rfl
  unfold handle
  simp only [hput, r.announce_replayed ctx p]
  have hsame : r.recorder.unmarshal line = r.unmarshal line := rfl
  rw [hsame]
  cases r.unmarshal line with
  | error err => rfl
  | ok ev =>
      dsimp only
      cases EventType.ofString ev.type <;> rfl

private theorem watchFrom_replayed (err : Option Bytes) (pace : Nat → Pace C) (i : Nat)
    (lines : List Bytes) (v : View I (List (Announced I C))) :
    r.watchFrom ctx err pace i lines (r.replayed p v) =
      (r.recorder.watchFrom ctx err pace i lines v).map id (r.replayed p) := by
  induction lines generalizing i v with
  | nil => rfl
  | cons line lines ih =>
      have hnow : (r.replayed p v).now = v.now := rfl
      have hhandle : r.handle ctx line (pace i).choice
          { r.replayed p v with now := v.now + (pace i).delay } =
            (r.recorder.handle ctx line (pace i).choice
              { v with now := v.now + (pace i).delay }).map (r.replayed p) :=
        r.handle_replayed ctx p line (pace i).choice { v with now := v.now + (pace i).delay }
      simp only [watchFrom, hnow]
      split
      · rfl
      · rw [hhandle]
        cases r.recorder.handle ctx line (pace i).choice
            { v with now := v.now + (pace i).delay } with
        | error err => rfl
        | ok next => exact ih (i + 1) next

private theorem watch_replayed (exchange : Exchange) (pace : Nat → Pace C)
    (v : View I (List (Announced I C))) :
    r.watch ctx exchange pace (r.replayed p v) =
      (r.recorder.watch ctx exchange pace v).map id (r.replayed p) := by
  unfold watch
  cases exchange.result with
  | error err => rfl
  | ok resp =>
      dsimp only
      split
      · rfl
      · exact r.watchFrom_replayed ctx p _ _ _ _ { v with now := v.now + exchange.delay }

def watchTurn (reconnectBackoff : Int) (t : Turn C) (rv : String) (log : List Action)
    (v : View I P) : WatchLoop I P :=
  let v := r.announce ctx t.listed v
  let watched := r.watch ctx t.watch t.pace v
  let log := log ++ [.watch rv v.now, .watched watched.1 watched.2.now]
  match watched.1 with
  | some _ => WatchLoop.sleep ⟨watched.2, false, log⟩ ctx reconnectBackoff t.late
  | none => ⟨watched.2, false, log⟩

theorem turn_of_ok {reconnectBackoff : Int} {s : WatchLoop I P} {t : Turn C} {rv : String}
    (hreturned : s.returned = false) (hlive : ctx.err s.now = false)
    (hlist : (r.list t.list.result s.state).1 = .ok rv) :
    r.turn ctx reconnectBackoff s t =
      r.watchTurn ctx reconnectBackoff t rv (s.log ++ [.list s.now])
        ⟨s.now + t.list.delay, (r.list t.list.result s.state).2, s.published⟩ := by
  simp only [turn, hreturned, hlive, hlist, Bool.false_eq_true, if_false]
  rfl

theorem turn_of_error {reconnectBackoff : Int} {s : WatchLoop I P} {t : Turn C} {err : Bytes}
    (hreturned : s.returned = false) (hlive : ctx.err s.now = false)
    (hlist : (r.list t.list.result s.state).1 = .error err) :
    r.turn ctx reconnectBackoff s t =
      WatchLoop.sleep ⟨⟨s.now + t.list.delay, s.state, s.published⟩, false,
        s.log ++ [.list s.now]⟩ ctx reconnectBackoff t.late := by
  simp only [turn, hreturned, hlive, hlist, Bool.false_eq_true, if_false, list_of_error hlist]

private theorem watchTurn_replayed (reconnectBackoff : Int) (t : Turn C) (rv : String)
    (log : List Action) (v : View I (List (Announced I C))) :
    r.watchTurn ctx reconnectBackoff t rv log (r.replayed p v) =
      r.replayedLoop p (r.recorder.watchTurn ctx reconnectBackoff t rv log v) := by
  simp only [watchTurn]
  rw [r.announce_replayed ctx p, r.watch_replayed ctx p]
  generalize r.recorder.watch ctx t.watch t.pace (r.recorder.announce ctx t.listed v) = watched
  obtain ⟨err, v'⟩ := watched
  cases err <;> rfl

private theorem turn_replayed (reconnectBackoff : Int) (s : WatchLoop I (List (Announced I C)))
    (t : Turn C) :
    r.turn ctx reconnectBackoff (r.replayedLoop p s) t =
      r.replayedLoop p (r.recorder.turn ctx reconnectBackoff s t) := by
  cases hreturned : s.returned with
  | true => simp [turn, replayedLoop, hreturned]
  | false =>
      cases hlive : ctx.err s.now with
      | true =>
          have hlive' : ctx.err (r.replayed p s.toView).now = true := hlive
          simp [turn, replayedLoop, hreturned, hlive, hlive']
      | false =>
          cases hlist : (r.list t.list.result s.state).1 with
          | error err =>
              have hrecorded : (r.recorder.list t.list.result s.state).1 = .error err := hlist
              have hreplayed :
                  (r.list t.list.result (r.replayedLoop p s).state).1 = .error err := hlist
              rw [r.recorder.turn_of_error ctx hreturned hlive hrecorded,
                r.turn_of_error ctx hreturned hlive hreplayed]
              rfl
          | ok rv =>
              have hrecorded : (r.recorder.list t.list.result s.state).1 = .ok rv := hlist
              have hreplayed :
                  (r.list t.list.result (r.replayedLoop p s).state).1 = .ok rv := hlist
              rw [r.recorder.turn_of_ok ctx hreturned hlive hrecorded,
                r.turn_of_ok ctx hreturned hlive hreplayed]
              exact r.watchTurn_replayed ctx p reconnectBackoff t rv (s.log ++ [.list s.now])
                ⟨s.now + t.list.delay, (r.list t.list.result s.state).2, s.published⟩

private theorem loop_replayed (reconnectBackoff : Int) (s : WatchLoop I (List (Announced I C)))
    (turns : List (Turn C)) :
    r.loop ctx reconnectBackoff (r.replayedLoop p s) turns =
      r.replayedLoop p (r.recorder.loop ctx reconnectBackoff s turns) := by
  induction turns generalizing s with
  | nil => rfl
  | cons t turns ih =>
      rw [loop, List.foldl_cons, r.turn_replayed ctx p]
      exact ih _

end Resource

/-! ## Replicas -/

/-- The objects are those of version `n`, every publication was one of a version up to it,
none older than the one before, and the last one was of the objects as they are. -/
structure Mirrors (k : ObjectKind I) (cluster : List (Change I)) (ctx : Context)
    (v : View I (List (Announced I C))) (n : Nat) : Prop where
  state : ObjectKind.held v.state = k.clusterAt cluster n
  published : Ascends (fun a version => ObjectKind.held a.state = k.clusterAt cluster version)
    v.published n
  current : ∀ a, v.published.getLast? = some a → a.state = v.state
  uncancelled : ctx.doneAt = none → ∀ a ∈ v.published, a.cancelled = false
  bounded : n ≤ cluster.length

namespace Mirrors

variable {r : Resource I P C} {ctx : Context} {cluster : List (Change I)} {m n : Nat}
  {v : View I (List (Announced I C))}

theorem new (k : ObjectKind I) (cluster : List (Change I)) (ctx : Context) (now : Nat) :
    Mirrors k cluster ctx (⟨now, ∅, []⟩ : View I (List (Announced I C))) 0 :=
  ⟨rfl, .nil 0, by simp, by simp, Nat.zero_le _⟩

theorem announce (h : Mirrors r.toObjectKind cluster ctx v m) (hle : m ≤ n) (now : Nat)
    {state : GoMap String I} (hstate : ObjectKind.held state = r.clusterAt cluster n)
    (hbounded : n ≤ cluster.length) (choice : C) :
    Mirrors r.toObjectKind cluster ctx
      (r.recorder.announce ctx choice ⟨now, state, v.published⟩) n := by
  refine ⟨hstate, h.published.concat hle hstate (Nat.le_refl n), ?_, ?_, hbounded⟩
  · intro a ha
    change (v.published ++ [_]).getLast? = some a at ha
    rw [List.getLast?_concat] at ha
    cases ha
    rfl
  · intro hdone a ha
    rcases List.mem_append.mp ha with hold | hnew
    · exact h.uncancelled hdone a hold
    · rw [List.mem_singleton.mp hnew]
      simp [Context.err, hdone]

theorem next (h : Mirrors r.toObjectKind cluster ctx v n) {c : Change I}
    (hget : cluster[n]? = some c) {state : GoMap String I}
    (hstate : ObjectKind.held state = r.change (ObjectKind.held v.state) c) (choice : C) :
    Mirrors r.toObjectKind cluster ctx (r.recorder.announce ctx choice { v with state := state })
      (n + 1) := by
  refine h.announce (Nat.le_succ n) v.now ?_ (List.getElem?_eq_some_iff.mp hget).1 choice
  rw [hstate, h.state]
  exact (storeAt_succ _ hget).symm

theorem handle (h : Mirrors r.toObjectKind cluster ctx v n) {line : Bytes}
    (hnext : (r.changeOf line).toList <+: cluster.drop n) {choice : C}
    {next : View I (List (Announced I C))}
    (hhandle : r.recorder.handle ctx line choice v = .ok next) :
    Mirrors r.toObjectKind cluster ctx next (n + (r.changeOf line).toList.length) := by
  have hunmarshal : r.recorder.unmarshal line = r.unmarshal line := rfl
  have hfirst : ∀ c, [c] <+: cluster.drop n → cluster[n]? = some c := by
    rintro c ⟨rest, hrest⟩
    have hget : (cluster.drop n)[0]? = some c := by rw [← hrest]; rfl
    rwa [List.getElem?_drop] at hget
  simp only [Resource.handle, hunmarshal] at hhandle
  unfold ObjectKind.changeOf at hnext ⊢
  cases hread : r.unmarshal line with
  | error err => simp [hread] at hhandle
  | ok ev =>
      simp only [hread] at hhandle hnext ⊢
      cases htype : EventType.ofString ev.type with
      | added =>
          simp only [htype, Option.toList_some] at hhandle hnext ⊢
          cases hhandle
          exact h.next (hfirst _ hnext) (r.held_put v.state ev.object) choice
      | modified =>
          simp only [htype, Option.toList_some] at hhandle hnext ⊢
          cases hhandle
          exact h.next (hfirst _ hnext) (r.held_put v.state ev.object) choice
      | deleted =>
          simp only [htype, Option.toList_some] at hhandle hnext ⊢
          cases hhandle
          exact h.next (hfirst _ hnext) (r.held_drop v.state ev.object) choice
      | bookmark =>
          simp only [htype] at hhandle ⊢
          cases hhandle
          exact h
      | error => simp [htype] at hhandle
      | unknown =>
          simp only [htype] at hhandle ⊢
          cases hhandle
          exact h

theorem tick (h : Mirrors r.toObjectKind cluster ctx v n) (now : Nat) :
    Mirrors r.toObjectKind cluster ctx { v with now := now } n :=
  ⟨h.state, h.published, h.current, h.uncancelled, h.bounded⟩

theorem watchFrom (h : Mirrors r.toObjectKind cluster ctx v n) {lines : List Bytes}
    (hnext : lines.filterMap r.changeOf <+: cluster.drop n) (err : Option Bytes)
    (pace : Nat → Pace C) (i : Nat) :
    ∃ m, n ≤ m ∧ m ≤ n + (lines.filterMap r.changeOf).length ∧
      Mirrors r.toObjectKind cluster ctx (r.recorder.watchFrom ctx err pace i lines v).2 m := by
  -- The loop over a stream of the next changes: wherever it stops, it stands at a version.
  induction lines generalizing n v i with
  | nil => exact ⟨n, Nat.le_refl n, Nat.le_refl n, h.tick _⟩
  | cons line lines ih =>
      have hsplit : (line :: lines).filterMap r.changeOf =
          (r.changeOf line).toList ++ lines.filterMap r.changeOf := by
        cases hchange : r.changeOf line <;> simp [hchange]
      rw [hsplit] at hnext
      rw [Resource.watchFrom]
      simp only
      split
      · exact ⟨n, Nat.le_refl n, Nat.le_add_right _ _, h.tick _⟩
      · cases hhandle : r.recorder.handle ctx line (pace i).choice
            { v with now := v.now + (pace i).delay } with
        | error err => exact ⟨n, Nat.le_refl n, Nat.le_add_right _ _, h.tick _⟩
        | ok next =>
            have hfirst : (r.changeOf line).toList <+: cluster.drop n :=
              (List.prefix_append _ _).trans hnext
            obtain ⟨rest, hrest⟩ := hnext
            have hbehind : lines.filterMap r.changeOf <+:
                cluster.drop (n + (r.changeOf line).toList.length) := by
              refine ⟨rest, ?_⟩
              rw [← List.drop_drop, ← hrest, List.append_assoc, List.drop_left]
            obtain ⟨m, hlow, hhigh, hmirrors⟩ :=
              ih ((h.tick _).handle hfirst hhandle) hbehind (i + 1)
            refine ⟨m, by omega, ?_, hmirrors⟩
            rw [hsplit, List.length_append]
            omega

theorem watch (h : Mirrors r.toObjectKind cluster ctx v n) {exchange : Exchange}
    (hnext : r.changesOf exchange.result <+: cluster.drop n) (pace : Nat → Pace C) :
    ∃ m, n ≤ m ∧ m ≤ n + (r.changesOf exchange.result).length ∧
      Mirrors r.toObjectKind cluster ctx (r.recorder.watch ctx exchange pace v).2 m := by
  unfold Resource.watch
  unfold ObjectKind.changesOf at hnext ⊢
  cases hresult : exchange.result with
  | error err => exact ⟨n, Nat.le_refl n, Nat.le_add_right _ _, h.tick _⟩
  | ok resp =>
      simp only [hresult] at hnext ⊢
      split
      · exact ⟨n, Nat.le_refl n, Nat.le_add_right _ _, h.tick _⟩
      · rename_i hstatus
        rw [if_neg hstatus] at hnext
        exact (h.tick _).watchFrom hnext _ pace 0

theorem turn {s : WatchLoop I (List (Announced I C))} {t : Turn C}
    (h : Mirrors r.toObjectKind cluster ctx s.toView m) (hle : m ≤ n)
    (hanswers : r.Answers cluster t n) (reconnectBackoff : Int) :
    ∃ m', m ≤ m' ∧ m' ≤ n + (r.changesOf t.watch.result).length ∧
      Mirrors r.toObjectKind cluster ctx (r.recorder.turn ctx reconnectBackoff s t).toView m' := by
  have hstay : ∃ m', m ≤ m' ∧ m' ≤ n + (r.changesOf t.watch.result).length ∧
      Mirrors r.toObjectKind cluster ctx s.toView m' := ⟨m, Nat.le_refl m, by omega, h⟩
  cases hreturned : s.returned with
  | true => simpa [Resource.turn, hreturned] using hstay
  | false =>
      cases hlive : ctx.err s.now with
      | true => simpa [Resource.turn, hreturned, hlive] using hstay
      | false =>
          cases hlist : (r.recorder.list t.list.result s.state).1 with
          | error err =>
              rw [r.recorder.turn_of_error ctx hreturned hlive hlist]
              exact ⟨m, Nat.le_refl m, by omega, h.tick _⟩
          | ok rv =>
              rw [r.recorder.turn_of_ok ctx hreturned hlive hlist]
              have hlisted := h.announce hle (s.now + t.list.delay)
                (ObjectKind.held_list hanswers hlist) hanswers.bounded t.listed
              obtain ⟨m', hlow, hhigh, hmirrors⟩ := hlisted.watch hanswers.watch t.pace
              refine ⟨m', by omega, hhigh, ?_⟩
              unfold Resource.watchTurn
              simp only
              split
              · exact hmirrors.tick _
              · exact hmirrors

theorem loop {s : WatchLoop I (List (Announced I C))} {served : List (Turn C × Nat)}
    (h : Mirrors r.toObjectKind cluster ctx s.toView m) (hle : m ≤ n)
    (hserves : r.Serves cluster n served) (reconnectBackoff : Int) :
    ∃ m', m ≤ m' ∧ Mirrors r.toObjectKind cluster ctx
      (r.recorder.loop ctx reconnectBackoff s (served.map Prod.fst)).toView m' := by
  induction served generalizing s m n with
  | nil => exact ⟨m, Nat.le_refl m, h⟩
  | cons first served ih =>
      obtain ⟨t, version⟩ := first
      obtain ⟨hversion, hanswers, hrest⟩ := hserves
      obtain ⟨m', hlow, hhigh, hmirrors⟩ :=
        h.turn (Nat.le_trans hle hversion) hanswers reconnectBackoff
      obtain ⟨last, hlast, hend⟩ := ih hmirrors hhigh hrest
      exact ⟨last, Nat.le_trans hlow hlast, hend⟩

end Mirrors

theorem Resource.loop_new (r : Resource I P C) (ctx : Context) (reconnectBackoff : Int) (now : Nat)
    (p : P) (turns : List (Turn C)) :
    r.loop ctx reconnectBackoff (.new now p) turns =
      r.replayedLoop p (r.recorder.loop ctx reconnectBackoff (.new now []) turns) :=
  r.loop_replayed ctx p reconnectBackoff (.new now []) turns

/-! ## A cluster with one object -/

def oneObject (object : I) : EventJson I :=
  ⟨fun _ => .ok ⟨"1", [object]⟩, fun _ => .ok ⟨"DELETED", object⟩⟩

def listedThenDeleted (choice : C) : Turn C where
  list := ⟨0, .ok ⟨200, ⟨[], none⟩⟩⟩
  listed := choice
  watch := ⟨0, .ok ⟨200, ⟨Json.lines [utf8Bytes "x"], none⟩⟩⟩
  pace := fun _ => ⟨0, choice⟩
  late := 0

theorem serves_oneObject {k : ObjectKind I} {object : I} {key : String}
    (hjson : k.toEventJson = oneObject object) (hkey : k.keyOf object = some key) (choice : C) :
    k.Serves [.put object, .drop object] 0 [(listedThenDeleted choice, 1)] := by
  have hscan : (scanLines maxEventSize (Json.lines [utf8Bytes "x"]) none).1 = [utf8Bytes "x"] := by
    rfl
  have hchange : k.changeOf (utf8Bytes "x") = some (.drop object) := by
    simp only [ObjectKind.changeOf, hjson, oneObject]
    rfl
  have hchanges : k.changesOf (listedThenDeleted choice).watch.result = [.drop object] := by
    change (scanLines maxEventSize (Json.lines [utf8Bytes "x"]) none).1.filterMap k.changeOf = _
    rw [hscan, List.filterMap_cons, hchange]
    rfl
  refine ⟨Nat.zero_le 1, ⟨Nat.le_succ 1, ?_, ?_⟩, trivial⟩
  · intro resp lr _ _ hdecode key' object'
    have hlisted : lr = ⟨"1", [object]⟩ := by
      rw [hjson] at hdecode
      cases hdecode
      rfl
    have hat : k.clusterAt [.put object, .drop object] 1 =
        Function.update (fun _ => none) key (some object) := by
      simp [ObjectKind.clusterAt, storeAt, ObjectKind.change, hkey]
    rw [hat, hlisted, Function.update_apply]
    constructor
    · intro hsome
      split at hsome
      · rename_i heq
        cases hsome
        exact ⟨List.mem_singleton_self _, hkey.trans (by rw [heq])⟩
      · cases hsome
    · rintro ⟨hmem, hkey'⟩
      rw [List.mem_singleton.mp hmem, hkey, Option.some.injEq] at hkey'
      rw [if_pos hkey'.symm, List.mem_singleton.mp hmem]
  · rw [hchanges]
    exact List.prefix_refl _

/-! ## The agents -/

namespace EndpointSliceWatcher

open EndpointSlice

def emission (targetPort : Int32) (a : Announced SliceObject EmitChoice) :
    Option (List Endpoint) :=
  if a.cancelled && !a.choice.sends then none
  else some (flatten a.choice.order a.choice.sort a.state targetPort)

theorem publishAll_eq (w : EndpointSliceWatcher) (json : EventJson SliceObject)
    (out : List (List Endpoint)) (announced : List (Announced SliceObject EmitChoice)) :
    (w.resource json).publishAll out announced =
      out ++ announced.filterMap (emission w.targetPort) := by
  induction announced generalizing out with
  | nil => simp [Resource.publishAll]
  | cons a announced ih =>
      rw [Resource.publishAll, List.foldl_cons]
      refine (ih _).trans ?_
      simp only [resource, emit, emission, List.filterMap_cons]
      split <;> simp

def IsEmissionAt (w : EndpointSliceWatcher) (json : EventJson SliceObject)
    (cluster : List (Change SliceObject)) (eps : List Endpoint) (version : Nat) : Prop :=
  ∃ order sort state, ObjectKind.held state = (kind json).clusterAt cluster version ∧
    eps = flatten order sort state w.targetPort

/-- Where the loop stands in the history of the cluster. -/
structure Follows (w : EndpointSliceWatcher) (json : EventJson SliceObject)
    (cluster : List (Change SliceObject)) (ctx : Context)
    (s : WatchLoop SliceObject (List (List Endpoint))) (n : Nat) : Prop where
  bounded : n ≤ cluster.length
  state : ObjectKind.held s.state = (kind json).clusterAt cluster n
  published : Ascends (w.IsEmissionAt json cluster) s.published n
  last : ctx.doneAt = none → ∀ eps, s.published.getLast? = some eps →
    w.IsEmissionAt json cluster eps n

theorem loop_follows (w : EndpointSliceWatcher) (json : EventJson SliceObject)
    (ctx : Context) (now : Nat) {cluster : List (Change SliceObject)}
    {served : List (Turn EmitChoice × Nat)} (hserves : (kind json).Serves cluster 0 served) :
    ∃ n, w.Follows json cluster ctx (w.loop json ctx (.new now []) (served.map Prod.fst)) n := by
  have hnew : Mirrors (w.resource json).toObjectKind cluster ctx
      (WatchLoop.new now [] :
        WatchLoop SliceObject (List (Announced SliceObject EmitChoice))).toView 0 := .new _ _ _ _
  obtain ⟨n, -, hmirrors⟩ := hnew.loop (Nat.le_refl 0) hserves
    (withDefaultBackoff w.reconnectBackoff)
  rw [loop, (w.resource json).loop_new]
  refine ⟨n, hmirrors.bounded, hmirrors.state, ?_, ?_⟩
  · change Ascends _ ((w.resource json).publishAll [] _) n
    rw [publishAll_eq, List.nil_append]
    refine hmirrors.published.filterMap ?_
    intro a eps version heps hheld
    unfold emission at heps
    split at heps
    · cases heps
    · cases heps
      exact ⟨_, _, _, hheld, rfl⟩
  · intro hdone eps heps
    change ((w.resource json).publishAll [] _).getLast? = some eps at heps
    rw [publishAll_eq, List.nil_append] at heps
    rcases List.eq_nil_or_concat ((w.resource json).recorder.loop ctx
      (withDefaultBackoff w.reconnectBackoff) (.new now []) (served.map Prod.fst)).published with
      hnone | ⟨before, a, hlast⟩
    · rw [hnone] at heps
      cases heps
    · rw [List.concat_eq_append] at hlast
      have hstate := hmirrors.current a (by rw [hlast, List.getLast?_concat])
      have hlive := hmirrors.uncancelled hdone a (by simp [hlast])
      have hemission : emission w.targetPort a =
          some (flatten a.choice.order a.choice.sort a.state w.targetPort) := by
        simp [emission, hlive]
      rw [hlast, List.filterMap_append, List.filterMap_cons, hemission, List.filterMap_nil,
        List.getLast?_concat] at heps
      cases heps
      exact ⟨_, _, _, hstate ▸ hmirrors.state, rfl⟩

/-- Every emission is the agents of the cluster at one version, none is older than the one
before it, and without a cancellation the last one is that of the objects as they
are. -/
theorem emissions_follow_cluster (w : EndpointSliceWatcher) (json : EventJson SliceObject)
    (ctx : Context) (now : Nat) {cluster : List (Change SliceObject)}
    {served : List (Turn EmitChoice × Nat)} (hserves : (kind json).Serves cluster 0 served) :
    ∃ n ≤ cluster.length,
      ObjectKind.held (w.loop json ctx (.new now []) (served.map Prod.fst)).state =
        (kind json).clusterAt cluster n ∧
      Ascends (w.IsEmissionAt json cluster)
        (w.loop json ctx (.new now []) (served.map Prod.fst)).published n ∧
      (ctx.doneAt = none → ∀ eps,
        (w.loop json ctx (.new now []) (served.map Prod.fst)).published.getLast? = some eps →
          w.IsEmissionAt json cluster eps n) := by
  obtain ⟨n, hfollows⟩ := w.loop_follows json ctx now hserves
  exact ⟨n, hfollows.bounded, hfollows.state, hfollows.published, hfollows.last⟩

def oneAgent : SliceObject := ⟨"agents-1", [⟨7443, "grpc"⟩], [⟨["10.0.0.5"], some true, none⟩]⟩

theorem emissions_follow_oneAgent :
    ((mk 7443 0).loop (oneObject oneAgent) ⟨none⟩ (.new 0 [])
      [listedThenDeleted ⟨.forwards, .insertion, 0, true⟩]).published =
        [[⟨"agents-1/10.0.0.5", "10.0.0.5:7443"⟩], []] ∧
    ∃ n ≤ 2,
      ObjectKind.held ((mk 7443 0).loop (oneObject oneAgent) ⟨none⟩ (.new 0 [])
        [listedThenDeleted ⟨.forwards, .insertion, 0, true⟩]).state =
          (kind (oneObject oneAgent)).clusterAt [.put oneAgent, .drop oneAgent] n ∧
      Ascends ((mk 7443 0).IsEmissionAt (oneObject oneAgent) [.put oneAgent, .drop oneAgent])
        [[⟨"agents-1/10.0.0.5", "10.0.0.5:7443"⟩], []] n := by
  have hpublished : ((mk 7443 0).loop (oneObject oneAgent) ⟨none⟩ (.new 0 [])
      [listedThenDeleted ⟨.forwards, .insertion, 0, true⟩]).published =
        [[⟨"agents-1/10.0.0.5", "10.0.0.5:7443"⟩], []] := by
    decide +kernel
  obtain ⟨n, hn, hstate, hascends, -⟩ := emissions_follow_cluster (mk 7443 0) (oneObject oneAgent)
    ⟨none⟩ 0 (serves_oneObject (k := kind (oneObject oneAgent)) rfl rfl
      ⟨.forwards, .insertion, 0, true⟩)
  exact ⟨hpublished, n, hn, hstate, hpublished ▸ hascends⟩

end EndpointSliceWatcher

end KloudlensAggregator.Discovery
