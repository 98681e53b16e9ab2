import KloudlensAggregator.Aggregator.CursorStore
import KloudlensAggregator.Foundation.Run

/-!
# The background flush

`Save` marks the store and wakes a loop that flushes it; `Close` tells the loop to end
and waits for it.  Everything that reads or writes the map holds the lock; the wake-up
is sent after the lock was released, and the loop looks at the closing flag and flushes
in two sections of the lock.  A flush writes a temporary file and renames it; either
can fail.
-/

namespace KloudlensAggregator.Aggregator

open KloudlensAggregator.Foundation

inductive FlushFault where
  | none
  | writeTmp
  | rename
  deriving DecidableEq, Repr

inductive TempFile where
  | absent
  | torn
  | whole (entries : List DiskEntry)
  deriving DecidableEq, Repr

structure GuardedStore where
  store : CursorStore
  file : CursorFile
  tmp : TempFile
  lastFailed : Bool

namespace GuardedStore

def opened (file : CursorFile) : GuardedStore := ⟨CursorStore.newFile file, file, .absent, false⟩

def flushLockedBare (g : GuardedStore) (order : List (Sigma fun _ : String => PersistedCursor))
    (fault : FlushFault) : GuardedStore :=
  if g.store.dirty then
    match fault with
    | .writeTmp => { g with tmp := .torn, lastFailed := true }
    | .rename => { g with tmp := .whole (CursorStore.payload order), lastFailed := true }
    | .none =>
        { store := { g.store with dirty := false }
          file := some (CursorStore.payload order)
          tmp := .absent
          lastFailed := false }
  else { g with lastFailed := false }

end GuardedStore

inductive FlushPhase where
  | selecting
  /-- A tick or a wake-up was received. -/
  | woken
  /-- The closing flag was not set. -/
  | flushing
  /-- The wake-up channel was closed. -/
  | lastFlush
  | done
  deriving DecidableEq, Repr

def FlushPhase.remaining : FlushPhase → Nat
  | .flushing => 3
  | .selecting => 2
  | .woken => 1
  | .lastFlush => 1
  | .done => 0

/-- `wake` says whether the slot of the wake-up channel is full, `unsent` counts the
calls of `Save` between the lock and the send. -/
structure FlushLoop where
  guarded : GuardedStore
  closing : Bool
  wake : Bool
  wakeClosed : Bool
  unsent : Nat
  phase : FlushPhase
  finalFailed : Bool
  returned : Bool

inductive FlushEvent where
  | save (agent stream : String) (cursor : Option Cursor)
  | wake
  | flush (order : List (Sigma fun _ : String => PersistedCursor)) (fault : FlushFault)
  | tick
  | wakeRecv
  | wakeEnd
  | check (order : List (Sigma fun _ : String => PersistedCursor)) (fault : FlushFault)
  | loopFlush (order : List (Sigma fun _ : String => PersistedCursor)) (fault : FlushFault)
  | close
  | closeWake
  | closeReturn

def FlushEvent.ofLoop : FlushEvent → Bool
  | .tick | .wakeRecv | .wakeEnd | .check _ _ | .loopFlush _ _ => true
  | _ => false

namespace FlushLoop

def opened (file : CursorFile) : FlushLoop :=
  { guarded := GuardedStore.opened file
    closing := false
    wake := false
    wakeClosed := false
    unsent := 0
    phase := .selecting
    finalFailed := false
    returned := false }

def flushLocked (s : FlushLoop) (order : List (Sigma fun _ : String => PersistedCursor))
    (fault : FlushFault) : Option FlushLoop :=
  if order.Perm s.guarded.store.data.entries then
    some { s with guarded := s.guarded.flushLockedBare order fault }
  else none

def finish (s : FlushLoop) : FlushLoop :=
  { s with phase := .done, finalFailed := s.guarded.lastFailed }

def step (s : FlushLoop) : FlushEvent → Option FlushLoop
  | .save agent stream cursor =>
      if s.closing then none
      else
        some { s with
          guarded := { s.guarded with store := s.guarded.store.save agent stream cursor }
          unsent :=
            if s.guarded.store.accepts agent stream cursor then s.unsent + 1 else s.unsent }
  | .wake => if 0 < s.unsent then some { s with unsent := s.unsent - 1, wake := true } else none
  | .flush order fault => s.flushLocked order fault
  | .tick => if s.phase = .selecting then some { s with phase := .woken } else none
  | .wakeRecv =>
      if s.phase = .selecting ∧ s.wake = true then
        some { s with wake := false, phase := .woken }
      else none
  | .wakeEnd =>
      if s.phase = .selecting ∧ s.wake = false ∧ s.wakeClosed = true then
        some { s with phase := .lastFlush }
      else none
  | .check order fault =>
      if s.phase = .woken then
        if s.closing then (s.flushLocked order fault).map finish
        else some { s with phase := .flushing }
      else none
  | .loopFlush order fault =>
      match s.phase with
      | .flushing => (s.flushLocked order fault).map fun t => { t with phase := .selecting }
      | .lastFlush => (s.flushLocked order fault).map finish
      | _ => none
  | .close =>
      -- Every `Save` has returned.
      if s.closing = false ∧ s.unsent = 0 then some { s with closing := true } else none
  | .closeWake =>
      if s.closing = true ∧ s.wakeClosed = false then some { s with wakeClosed := true } else none
  | .closeReturn =>
      if s.wakeClosed = true ∧ s.phase = .done then some { s with returned := true } else none

end FlushLoop

/-! ## The store under its lock -/

def Encodes (data : GoMap String PersistedCursor) (file : CursorFile) : Prop :=
  ∃ order : List (Sigma fun _ : String => PersistedCursor),
    order.Perm data.entries ∧ file = some (CursorStore.payload order)

namespace GuardedStore

variable {found : CursorFile} {g : GuardedStore}
  {order : List (Sigma fun _ : String => PersistedCursor)} {fault : FlushFault}

/-- The file encodes the map, or is the one found, from which the map was loaded. -/
def Current (found : CursorFile) (g : GuardedStore) : Prop :=
  Encodes g.store.data g.file ∨
    (g.file = found ∧ g.store.data = CursorStore.loadFromDisk (found.getD []))

structure Sound (found : CursorFile) (g : GuardedStore) : Prop where
  clean : g.store.dirty = false → g.Current found
  failed : g.lastFailed = true → g.store.dirty = true

theorem flushLockedBare_none (g : GuardedStore)
    (order : List (Sigma fun _ : String => PersistedCursor)) :
    ((g.flushLockedBare order .none).store, (g.flushLockedBare order .none).file) =
      g.store.flush g.file order := by
  unfold flushLockedBare CursorStore.flush
  split <;> rfl

theorem flushLockedBare_cases (g : GuardedStore)
    (order : List (Sigma fun _ : String => PersistedCursor)) (fault : FlushFault) :
    (g.flushLockedBare order fault).store.data = g.store.data ∧
      (g.flushLockedBare order fault).store.dirty = (g.flushLockedBare order fault).lastFailed ∧
      (((g.flushLockedBare order fault).file = g.file ∧
          (g.flushLockedBare order fault).store.dirty = g.store.dirty) ∨
        (g.store.dirty = true ∧
          (g.flushLockedBare order fault).file = some (CursorStore.payload order))) := by
  unfold flushLockedBare
  cases hdirty : g.store.dirty with
  | false => exact ⟨rfl, hdirty, Or.inl ⟨rfl, hdirty⟩⟩
  | true =>
      cases fault with
      | none => exact ⟨rfl, rfl, Or.inr ⟨rfl, rfl⟩⟩
      | writeTmp => exact ⟨rfl, hdirty, Or.inl ⟨rfl, hdirty⟩⟩
      | rename => exact ⟨rfl, hdirty, Or.inl ⟨rfl, hdirty⟩⟩

theorem Sound.flush (h : g.Sound found) (horder : order.Perm g.store.data.entries) :
    (g.flushLockedBare order fault).Sound found := by
  obtain ⟨hdata, hdirty, hcases⟩ := g.flushLockedBare_cases order fault
  refine ⟨?_, fun hfailed => hdirty.trans hfailed⟩
  intro hclean
  rcases hcases with ⟨hfile, hsame⟩ | ⟨-, hfile⟩
  · unfold Current
    rw [hdata, hfile]
    exact h.clean (hsame.symm.trans hclean)
  · exact Or.inl ⟨order, hdata.symm ▸ horder, hfile⟩

theorem Sound.save (h : g.Sound found) (agent stream : String) (cursor : Option Cursor) :
    Sound found { g with store := g.store.save agent stream cursor } := by
  rcases g.store.save_cases agent stream cursor with hsame | ⟨c, hinsert⟩
  · rw [hsame]
    exact h
  · rw [hinsert]
    refine ⟨?_, fun _ => rfl⟩
    intro hclean
    cases hclean

end GuardedStore

namespace FlushLoop

variable {found : CursorFile} {s t : FlushLoop}
  {order : List (Sigma fun _ : String => PersistedCursor)} {fault : FlushFault}

theorem flushLocked_eq_some :
    s.flushLocked order fault = some t ↔ order.Perm s.guarded.store.data.entries ∧
      t = { s with guarded := s.guarded.flushLockedBare order fault } := by
  simp [flushLocked, eq_comm]

/-! ## Every state -/

structure Sound (found : CursorFile) (s : FlushLoop) : Prop where
  guarded : s.guarded.Sound found
  unsent : s.closing = true → s.unsent = 0
  wakeClosed : s.wakeClosed = true → s.closing = true
  lastFlush : s.phase = .lastFlush → s.wakeClosed = true
  done : s.phase = .done →
    s.closing = true ∧ (s.finalFailed = false → s.guarded.store.dirty = false)
  returned : s.returned = true → s.phase = .done

theorem Sound.flushLocked (h : s.Sound found) (hstep : s.flushLocked order fault = some t) :
    t.Sound found := by
  obtain ⟨horder, rfl⟩ := flushLocked_eq_some.mp hstep
  refine ⟨h.guarded.flush horder, h.unsent, h.wakeClosed, h.lastFlush, ?_, h.returned⟩
  intro hphase
  refine ⟨(h.done hphase).1, fun hfinal => ?_⟩
  have hclean := (h.done hphase).2 hfinal
  obtain ⟨-, -, ⟨-, hsame⟩ | ⟨hdirty, -⟩⟩ := s.guarded.flushLockedBare_cases order fault
  · exact hsame.trans hclean
  · rw [hclean] at hdirty
    cases hdirty

theorem Sound.finish (h : s.Sound found) (hclosing : s.closing = true)
    (hstep : (s.flushLocked order fault).map FlushLoop.finish = some t) : t.Sound found := by
  obtain ⟨u, hflush, rfl⟩ := Option.map_eq_some_iff.mp hstep
  obtain ⟨horder, rfl⟩ := flushLocked_eq_some.mp hflush
  obtain ⟨-, hdirty, -⟩ := s.guarded.flushLockedBare_cases order fault
  refine ⟨h.guarded.flush horder, h.unsent, h.wakeClosed, ?_, ?_, fun _ => rfl⟩
  · intro hphase
    cases hphase
  · exact fun _ => ⟨hclosing, fun hfinal => hdirty.trans hfinal⟩

theorem Sound.move (h : s.Sound found) (phase : FlushPhase) (wake : Bool)
    (hphase : s.phase ≠ .done) (hdone : phase ≠ .done)
    (hlast : phase = .lastFlush → s.wakeClosed = true) :
    Sound found { s with phase := phase, wake := wake } := by
  refine ⟨h.guarded, h.unsent, h.wakeClosed, hlast, fun hnow => absurd hnow hdone, ?_⟩
  intro hreturned
  exact absurd (h.returned hreturned) hphase

theorem Sound.step {e : FlushEvent} (h : s.Sound found) (hstep : s.step e = some t) :
    t.Sound found := by
  cases e with
  | save agent stream cursor =>
      simp only [FlushLoop.step] at hstep
      split at hstep
      · cases hstep
      · rename_i hopen
        cases hstep
        refine ⟨h.guarded.save agent stream cursor, fun hclosing => absurd hclosing hopen,
          h.wakeClosed, h.lastFlush, fun hphase => absurd (h.done hphase).1 hopen, h.returned⟩
  | wake =>
      simp only [FlushLoop.step] at hstep
      split at hstep <;> cases hstep
      refine ⟨h.guarded, fun hclosing => ?_, h.wakeClosed, h.lastFlush, h.done, h.returned⟩
      simp only [h.unsent hclosing]
  | flush order fault => exact h.flushLocked hstep
  | tick =>
      simp only [FlushLoop.step] at hstep
      split at hstep <;> cases hstep
      rename_i hphase
      exact h.move .woken s.wake (by simp [hphase]) (by simp) (by simp)
  | wakeRecv =>
      simp only [FlushLoop.step] at hstep
      split at hstep <;> cases hstep
      rename_i hready
      exact h.move .woken false (by simp [hready.1]) (by simp) (by simp)
  | wakeEnd =>
      simp only [FlushLoop.step] at hstep
      split at hstep <;> cases hstep
      rename_i hready
      exact h.move .lastFlush s.wake (by simp [hready.1]) (by simp) fun _ => hready.2.2
  | check order fault =>
      simp only [FlushLoop.step] at hstep
      split at hstep
      · rename_i hphase
        split at hstep
        · rename_i hclosing
          exact h.finish hclosing hstep
        · cases hstep
          exact h.move .flushing s.wake (by simp [hphase]) (by simp) (by simp)
      · cases hstep
  | loopFlush order fault =>
      simp only [FlushLoop.step] at hstep
      split at hstep
      · rename_i hphase
        obtain ⟨u, hflush, rfl⟩ := Option.map_eq_some_iff.mp hstep
        have hflushed := h.flushLocked hflush
        obtain ⟨-, rfl⟩ := flushLocked_eq_some.mp hflush
        exact hflushed.move .selecting s.wake (by simp [hphase]) (by simp) (by simp)
      · rename_i hphase
        exact h.finish (h.wakeClosed (h.lastFlush hphase)) hstep
      · cases hstep
  | close =>
      simp only [FlushLoop.step] at hstep
      split at hstep <;> cases hstep
      rename_i hready
      refine ⟨h.guarded, fun _ => hready.2, fun _ => rfl, h.lastFlush, ?_, h.returned⟩
      exact fun hphase => ⟨rfl, (h.done hphase).2⟩
  | closeWake =>
      simp only [FlushLoop.step] at hstep
      split at hstep <;> cases hstep
      rename_i hready
      exact ⟨h.guarded, h.unsent, fun _ => hready.1, fun _ => rfl, h.done, h.returned⟩
  | closeReturn =>
      simp only [FlushLoop.step] at hstep
      split at hstep <;> cases hstep
      rename_i hready
      exact ⟨h.guarded, h.unsent, h.wakeClosed, h.lastFlush, h.done, fun _ => hready.2⟩

theorem sound_run {file : CursorFile} {events : List FlushEvent}
    (hrun : run FlushLoop.step (opened file) events = some s) : s.Sound file := by
  refine run_invariant (Sound file) (fun s e t h hstep => h.step hstep) ?_ hrun
  refine ⟨⟨fun _ => Or.inr ⟨rfl, rfl⟩, ?_⟩, fun _ => rfl, ?_, ?_, ?_, ?_⟩ <;>
    intro h <;> cases h

/-! ## Where the file comes from -/

private theorem file_of_step {e : FlushEvent} (hstep : s.step e = some t) :
    t.guarded.file = s.guarded.file ∨ Encodes s.guarded.store.data t.guarded.file := by
  have hflush : ∀ {order fault u}, s.flushLocked order fault = some u →
      u.guarded.file = s.guarded.file ∨ Encodes s.guarded.store.data u.guarded.file := by
    intro order fault u hflush
    obtain ⟨horder, rfl⟩ := flushLocked_eq_some.mp hflush
    obtain ⟨-, -, ⟨hfile, -⟩ | ⟨-, hfile⟩⟩ := s.guarded.flushLockedBare_cases order fault
    · exact Or.inl hfile
    · exact Or.inr ⟨order, horder, hfile⟩
  cases e with
  | flush order fault => exact hflush hstep
  | check order fault =>
      simp only [FlushLoop.step] at hstep
      split at hstep
      · split at hstep
        · obtain ⟨u, hu, rfl⟩ := Option.map_eq_some_iff.mp hstep
          have hfile := hflush hu
          exact hfile
        · cases hstep
          exact Or.inl rfl
      · cases hstep
  | loopFlush order fault =>
      simp only [FlushLoop.step] at hstep
      split at hstep
      · obtain ⟨u, hu, rfl⟩ := Option.map_eq_some_iff.mp hstep
        have hfile := hflush hu
        exact hfile
      · obtain ⟨u, hu, rfl⟩ := Option.map_eq_some_iff.mp hstep
        have hfile := hflush hu
        exact hfile
      · cases hstep
  | _ =>
      simp only [FlushLoop.step] at hstep
      split at hstep <;> cases hstep
      exact Or.inl rfl

/-- The file encodes the map of an earlier state, or is the one found. -/
def FromEarlier (file : CursorFile) (events : List FlushEvent) (s : FlushLoop) : Prop :=
  s.guarded.file = file ∨ ∃ first second t, events = first ++ second ∧
    run FlushLoop.step (opened file) first = some t ∧
    Encodes t.guarded.store.data s.guarded.file

private theorem fromEarlier_run {file : CursorFile} {events : List FlushEvent}
    (hrun : run FlushLoop.step (opened file) events = some s) : FromEarlier file events s := by
  let Inv : List FlushEvent → FlushLoop → Prop := fun past s =>
    run FlushLoop.step (opened file) past = some s ∧ FromEarlier file past s
  have hinitially : Inv [] (opened file) := ⟨rfl, Or.inl rfl⟩
  refine (run_history Inv ?_ hinitially hrun).2
  rintro past s e t ⟨hpast, hfile⟩ hstep
  refine ⟨run_append_eq_some.mpr ⟨s, hpast, (run_singleton _ _ _).trans hstep⟩, ?_⟩
  rcases file_of_step hstep with hsame | hencodes
  · rw [FromEarlier, hsame]
    refine hfile.imp_right ?_
    rintro ⟨first, second, u, rfl, hu, hencodes⟩
    exact ⟨first, second ++ [e], u, List.append_assoc _ _ _, hu, hencodes⟩
  · exact Or.inr ⟨past, [e], s, rfl, hpast, hencodes⟩

theorem flushing_loses_nothing (file : CursorFile) (events : List FlushEvent) (s : FlushLoop)
    (hrun : run step (opened file) events = some s) :
    FromEarlier file events s ∧
      (s.guarded.store.dirty = false → s.guarded.Current file) ∧
      (s.guarded.lastFailed = true → s.guarded.store.dirty = true) ∧
      (s.returned = true → s.finalFailed = false → s.guarded.Current file) := by
  have hsound := sound_run hrun
  refine ⟨fromEarlier_run hrun, hsound.guarded.clean, hsound.guarded.failed, ?_⟩
  intro hreturned hfinal
  exact hsound.guarded.clean ((hsound.done (hsound.returned hreturned)).2 hfinal)

def closedInBetween : List FlushEvent :=
  [.save "agent-a" "intent" (some ⟨"node-a", "intent", 1⟩), .wake, .wakeRecv, .check [] .none,
    .loopFlush [⟨keyOf "agent-a" "intent", ⟨"node-a", "intent", 1⟩⟩] .rename,
    .save "agent-a" "intent" (some ⟨"node-a", "intent", 2⟩), .wake, .tick, .close,
    .check [⟨keyOf "agent-a" "intent", ⟨"node-a", "intent", 2⟩⟩] .none, .closeWake, .closeReturn]

theorem flushing_loses_nothing_closedInBetween :
    ∃ s, run step (opened none) closedInBetween = some s ∧ s.returned = true ∧
      s.guarded.file = some [⟨"agent-a", ⟨"node-a", "intent", 2⟩⟩] ∧ s.guarded.Current none := by
  have hvalues : (run step (opened none) closedInBetween).map (fun s =>
      (s.returned, s.finalFailed, s.guarded.file)) =
      some (true, false, some [⟨"agent-a", ⟨"node-a", "intent", 2⟩⟩]) := by
    decide +kernel
  obtain ⟨s, hrun, hvalues⟩ := Option.map_eq_some_iff.mp hvalues
  simp only [Prod.mk.injEq] at hvalues
  obtain ⟨hreturned, hfinal, hfile⟩ := hvalues
  obtain ⟨-, -, -, hcurrent⟩ := flushing_loses_nothing none closedInBetween s hrun
  exact ⟨s, hrun, hreturned, hfile, hcurrent hreturned hfinal⟩

/-! ## The end of the loop -/

theorem Sound.remaining_lt {e : FlushEvent} (h : s.Sound found) (hclosed : s.wakeClosed = true)
    (hloop : e.ofLoop = true) (hstep : s.step e = some t) :
    t.wakeClosed = true ∧ t.phase.remaining < s.phase.remaining := by
  -- With the wake-up channel closed, each step of the loop brings it nearer to its end.
  cases e with
  | tick =>
      simp only [FlushLoop.step] at hstep
      split at hstep <;> cases hstep
      rename_i hphase
      exact ⟨hclosed, by simp [hphase, FlushPhase.remaining]⟩
  | wakeRecv =>
      simp only [FlushLoop.step] at hstep
      split at hstep <;> cases hstep
      rename_i hready
      exact ⟨hclosed, by simp [hready.1, FlushPhase.remaining]⟩
  | wakeEnd =>
      simp only [FlushLoop.step] at hstep
      split at hstep <;> cases hstep
      rename_i hready
      exact ⟨hclosed, by simp [hready.1, FlushPhase.remaining]⟩
  | check order fault =>
      simp only [FlushLoop.step, h.wakeClosed hclosed, if_true] at hstep
      split at hstep
      · rename_i hphase
        obtain ⟨u, hflush, rfl⟩ := Option.map_eq_some_iff.mp hstep
        obtain ⟨-, rfl⟩ := flushLocked_eq_some.mp hflush
        exact ⟨hclosed, by simp [FlushLoop.finish, hphase, FlushPhase.remaining]⟩
      · cases hstep
  | loopFlush order fault =>
      simp only [FlushLoop.step] at hstep
      split at hstep
      · rename_i hphase
        obtain ⟨u, hflush, rfl⟩ := Option.map_eq_some_iff.mp hstep
        obtain ⟨-, rfl⟩ := flushLocked_eq_some.mp hflush
        exact ⟨hclosed, by simp [hphase, FlushPhase.remaining]⟩
      · rename_i hphase
        obtain ⟨u, hflush, rfl⟩ := Option.map_eq_some_iff.mp hstep
        obtain ⟨-, rfl⟩ := flushLocked_eq_some.mp hflush
        exact ⟨hclosed, by simp [FlushLoop.finish, hphase, FlushPhase.remaining]⟩
      · cases hstep
  | _ => cases hloop

private theorem loop_enabled (hphase : s.phase ≠ .done) :
    ∃ e t, e.ofLoop = true ∧ s.step e = some t := by
  have hflush : s.flushLocked s.guarded.store.data.entries .none =
      some { s with guarded := s.guarded.flushLockedBare s.guarded.store.data.entries .none } :=
    flushLocked_eq_some.mpr ⟨List.Perm.refl _, rfl⟩
  cases hnow : s.phase with
  | selecting => exact ⟨.tick, _, rfl, by simp only [FlushLoop.step, hnow, if_true]; rfl⟩
  | woken =>
      refine ⟨.check s.guarded.store.data.entries .none, ?_⟩
      cases hclosing : s.closing with
      | false => exact ⟨_, rfl, by simp only [FlushLoop.step, hnow, hclosing]; rfl⟩
      | true => exact ⟨_, rfl, by simp only [FlushLoop.step, hnow, hclosing, hflush]; rfl⟩
  | flushing =>
      exact ⟨.loopFlush s.guarded.store.data.entries .none, _, rfl,
        by simp only [FlushLoop.step, hnow, hflush]; rfl⟩
  | lastFlush =>
      exact ⟨.loopFlush s.guarded.store.data.entries .none, _, rfl,
        by simp only [FlushLoop.step, hnow, hflush]; rfl⟩
  | done => exact absurd hnow hphase

/-- `Close` does not wait forever: from its closing of the channel on the loop takes three
steps at most. -/
theorem Sound.loop_ends (h : s.Sound found) (hclosed : s.wakeClosed = true) :
    ∃ events t, events.length ≤ s.phase.remaining ∧ (∀ e ∈ events, e.ofLoop = true) ∧
      run FlushLoop.step s events = some t ∧ t.phase = .done := by
  induction hremaining : s.phase.remaining using Nat.strong_induction_on generalizing s with
  | _ n ih =>
      by_cases hphase : s.phase = .done
      · exact ⟨[], s, Nat.zero_le _, fun _ he => absurd he List.not_mem_nil, rfl, hphase⟩
      · obtain ⟨e, next, hloop, hstep⟩ := loop_enabled hphase
        obtain ⟨hnext, hlt⟩ := h.remaining_lt hclosed hloop hstep
        obtain ⟨events, t, hlength, hall, hrun, hdone⟩ :=
          ih _ (hremaining ▸ hlt) (h.step hstep) hnext rfl
        refine ⟨e :: events, t, ?_, List.forall_mem_cons.mpr ⟨hloop, hall⟩,
          run_cons_eq_some.mpr ⟨next, hstep, hrun⟩, hdone⟩
        rw [List.length_cons]
        omega

end FlushLoop

end KloudlensAggregator.Aggregator
