import KloudlensAggregator.Envwal.Footprint
import KloudlensAggregator.Foundation.Janitor

/-!
# The directory under `runWALGC`

A process that has opened the log appends to it, and `runWALGC` collects on a ticker.
What the files take up then depends on how much is written in the time between two
collections, and no longer on how long the process has been running.
-/

namespace KloudlensAggregator.Envwal

open KloudlensAggregator.Foundation

variable {E : Type} {pj : ProtoJson E} {opts : Options}

structure Dated (E : Type) where
  world : World E
  written : List (Int × Nat)

def writtenSince (written : List (Int × Nat)) (time : Int) : Nat :=
  ((written.filter fun record => time ≤ record.1).map Prod.snd).sum

/-- What a process does with the log it has opened, by a time; the collections are those of
`runWALGC`. -/
def Event.inProcess (now : Int) : Event E → Bool
  | .append _ _ clock _ => clock.opened ≤ now
  | .close => true
  | _ => false

def runWALGC (pj : ProtoJson E) (every : Int) (hevery : 0 < every) (late : Nat) :
    Routine (Dated E) (Event E) where
  interval := every
  interval_pos := hevery
  late := late
  act log now ev :=
    if ev.inProcess now then
      (log.world.timedStep pj ev).map fun next =>
        ⟨next, log.written ++ [(now, log.world.recordSize pj ev)]⟩
    else none
  chore log now :=
    (log.world.timedStep pj (.gc now)).map fun next => { log with world := next }

private theorem writtenSince_concat {time now : Int} (htime : time ≤ now)
    (written : List (Int × Nat))
    (size : Nat) :
    writtenSince (written ++ [(now, size)]) time = writtenSince written time + size := by
  simp [writtenSince, List.filter_append, htime]

private theorem writtenSince_anti {time time' : Int} (htime : time' ≤ time)
    (written : List (Int × Nat)) :
    writtenSince written time ≤ writtenSince written time' := by
  have hkept : (written.filter fun record => time ≤ record.1).Sublist
      (written.filter fun record => time' ≤ record.1) := by
    refine List.monotone_filter_right written fun record hrecord => ?_
    have hrecord := of_decide_eq_true hrecord
    exact decide_eq_true (htime.trans hrecord)
  exact (hkept.map Prod.snd).sum_le_sum fun _ _ => Nat.zero_le _

theorem Event.opensWith_of_inProcess {now : Int} {ev : Event E} (h : ev.inProcess now = true)
    (opts : Options) : ev.opensWith opts = true := by
  cases ev with
  | openLog _ _ => cases h
  | _ => rfl

structure Dated.Within (pj : ProtoJson E) (opts : Options) (bound time : Int) (log : Dated E) :
    Prop where
  tidy : log.world.Tidy pj opts
  bounded : (diskBytes log.world.dir : Int) ≤ bound + writtenSince log.written time

namespace Dated.Within

variable {every : Int} {hevery : 0 < every} {late : Nat} {bound served now : Int}
  {log next : Dated E} {ev : Event E}

theorem act (h : log.Within pj opts bound served) (hserved : served ≤ now)
    (hact : (runWALGC pj every hevery late).act log now ev = some next) :
    next.Within pj opts bound served := by
  simp only [runWALGC] at hact
  split at hact
  · rename_i hprocess
    obtain ⟨world, htimed, rfl⟩ := Option.map_eq_some_iff.mp hact
    obtain ⟨htidy, hgrows, -⟩ := h.tidy.step (Event.opensWith_of_inProcess hprocess opts) htimed
    refine ⟨htidy, ?_⟩
    have hbounded := h.bounded
    rw [writtenSince_concat hserved]
    push_cast
    omega
  · cases hact

theorem chore (h : log.Within pj opts bound served) (hcap : opts.cap ≤ bound)
    (hchore : (runWALGC pj every hevery late).chore log now = some next) :
    next.Within pj opts bound now := by
  obtain ⟨world, htimed, rfl⟩ := Option.map_eq_some_iff.mp hchore
  obtain ⟨htidy, -, hcollected⟩ := h.tidy.step rfl htimed
  have hcollected := hcollected rfl
  refine ⟨htidy, ?_⟩
  dsimp only
  omega

end Dated.Within

/-- As long as `runWALGC` runs, the files take up no more than the cap, or what the process
found, and what was written within one interval and the time a tick may wait. -/
theorem upkeep_bounds_disk {every start opened : Int} (hevery : 0 < every) (late : Nat)
    {lives : List (Event E)} {m : Metered E} {events : List (JanitorEvent (Event E))}
    {j : Janitor (Dated E)}
    (hlives : run (Metered.step pj opts) ⟨World.empty start, 0⟩ lives = some m)
    (hrun : run (Janitor.step (runWALGC pj every hevery late))
      (.start (runWALGC pj every hevery late) ⟨m.world, []⟩ opened) events = some j)
    (hlive : j.returned = false) :
    (diskBytes j.state.world.dir : Int) ≤
      max opts.cap (diskBytes m.world.dir) +
        writtenSince j.state.written (j.now - every - late) := by
  have hfound : Dated.Within pj opts (max opts.cap (diskBytes m.world.dir)) opened
      ⟨m.world, []⟩ := ⟨(Metered.kept_run hlives).tidy, by simp [writtenSince]⟩
  obtain ⟨hpunctual, hwithin⟩ := Janitor.run_invariant
    (fun served _ => Dated.Within pj opts (max opts.cap (diskBytes m.world.dir)) served)
    (fun _ _ _ _ h _ => h) (fun _ _ _ _ _ hserved h hact => h.act hserved hact)
    (fun _ _ _ _ h hchore => h.chore (le_max_left _ _) hchore) hfound hrun
  have hnow := hpunctual.now_le_served hlive
  have hwindow : writtenSince j.state.written j.served ≤
      writtenSince j.state.written (j.now - every - late) := by
    apply writtenSince_anti
    dsimp only [runWALGC] at hnow
    omega
  have hbounded := hwithin.bounded
  omega

def collectedOnce : List (JanitorEvent (Event Unit)) :=
  [.pass 3, .act (.append "node-a" (some ()) ⟨2, 2, 3⟩ .none), .pass 4,
    .act (.append "node-b" (some ()) ⟨4, 4, 4⟩ .none), .pass 11, .send, .pass 12, .receive,
    .pass 15, .act (.append "node-c" (some ()) ⟨15, 15, 15⟩ .none)]

theorem upkeep_bounds_disk_collectedOnce : ∃ (m : Metered Unit) (j : Janitor (Dated Unit)),
    run (Metered.step emptyMessage Metered.smallCap) ⟨World.empty 0, 0⟩
      [.openLog Metered.smallCap 1] = some m ∧
    run (Janitor.step (runWALGC emptyMessage 10 (by decide) 2))
      (.start (runWALGC emptyMessage 10 (by decide) 2) ⟨m.world, []⟩ 1) collectedOnce =
        some j ∧
    (diskBytes j.state.world.dir : Int) ≤ 60 + writtenSince j.state.written 3 := by
  have hvalues : ((run (Metered.step emptyMessage Metered.smallCap) ⟨World.empty 0, 0⟩
      [.openLog Metered.smallCap 1]).bind fun m =>
        (run (Janitor.step (runWALGC emptyMessage 10 (by decide) 2))
          (.start (runWALGC emptyMessage 10 (by decide) 2) ⟨m.world, []⟩ 1)
          collectedOnce).map fun j =>
            (m, j)).map (fun r => (diskBytes r.1.world.dir, r.2.returned, r.2.now)) =
        some (0, false, 15) := by
    decide +kernel
  obtain ⟨⟨m, j⟩, hboth, hfields⟩ := Option.map_eq_some_iff.mp hvalues
  obtain ⟨m', hm, hpair⟩ := Option.bind_eq_some_iff.mp hboth
  obtain ⟨j', hj, hsame⟩ := Option.map_eq_some_iff.mp hpair
  cases hsame
  simp only [Prod.mk.injEq] at hfields
  obtain ⟨hfound, hlive, hnow⟩ := hfields
  have hbounded := upkeep_bounds_disk (by decide) 2 hm hj hlive
  rw [hfound, hnow] at hbounded
  exact ⟨m, j, hm, hj, hbounded⟩

end KloudlensAggregator.Envwal
