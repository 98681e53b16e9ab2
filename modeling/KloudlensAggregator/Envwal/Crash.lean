import KloudlensAggregator.Envwal.Replay

/-!
# A crash in the middle of an append

A process may die after any number of bytes of a record line.  If it wrote
nothing of the record or all of it, the next `Open` goes on as if it had died
between two appends, and everything appended is read back.  A torn record is
another matter.
-/

namespace KloudlensAggregator.Envwal

open KloudlensAggregator.Foundation
open KloudlensAggregator.Foundation.Json

variable {E : Type} {pj : ProtoJson E} {world next : World E} {log : List (Entry E)}
  {dir : Directory} {segs : List Segment} {w : Wal}

def Event.keepsRecords : Event E → Bool
  | .openLog .. => true
  | .append .. => true
  | .close => true
  | _ => false

def World.quietStep (pj : ProtoJson E) : World E → Event E → Option (World E) :=
  restrict (fun _ ev => ev.keepsRecords) (World.safeStep pj)

/-- `ReadFrom(0)` returns nil and delivers every entry appended, in seq order. -/
def World.ReadsBack (pj : ProtoJson E) (world : World E) (w : Wal) : Prop :=
  (w.readFrom pj world.dir 0).2 = none ∧ Increasing (w.readFrom pj world.dir 0).1 ∧
    ∀ e ∈ world.appended, e ∈ (w.readFrom pj world.dir 0).1

/-! ## Directories that keep everything -/

structure Whole (pj : ProtoJson E) (dir : Directory) (segs : List Segment)
    (log : List (Entry E)) : Prop where
  dense : Dense pj log
  holds : Holds pj dir segs log
  contiguous : Contiguous segs
  oldest : oldestOf segs = 1
  nonempty_first : segs.filter (fun s => s.startSeq ≤ s.endSeq) <+: segs
  resume : resumeSeq (segs.filter fun s => s.startSeq ≤ s.endSeq) = log.length

theorem Whole.empty : Whole pj ∅ [] ([] : List (Entry E)) :=
  ⟨.nil, .empty, .nil, rfl, List.prefix_rfl, rfl⟩

theorem Layout.whole (h : Layout pj dir w log) (hcontiguous : Contiguous w.segments)
    (holdest : oldestOf w.segments = 1) : Whole pj dir w.segments log := by
  -- In a WAL that starts at the first seq, the last nonempty segment ends the log.
  refine ⟨h.dense, h.holds, hcontiguous, holdest, h.nonempty_first, ?_⟩
  rw [h.filter_segments]
  split
  · rw [resumeSeq, List.getLast?_concat]
    exact h.cur_end
  · rename_i hcur
    have hrange := h.holds.range w.cur (Layout.mem_cur w)
    have hend := h.cur_end
    rw [List.append_nil, resumeSeq]
    cases hlast : w.older.getLast? with
    | none =>
        have holder := List.getLast?_eq_none_iff.mp hlast
        simp only [oldestOf, Wal.segments, holder, List.nil_append, List.head?_cons] at holdest
        simp only
        omega
    | some last =>
        have hjoin := (List.isChain_append.mp hcontiguous).2.2 last hlast w.cur rfl
        simp only
        omega

theorem resumeSeq_map_refresh (dir : Directory) (segs : List Segment) :
    resumeSeq (segs.map (Segment.refresh dir)) = resumeSeq segs := by
  unfold resumeSeq
  rw [List.getLast?_map]
  cases segs.getLast? <;> simp

theorem Whole.openWal (h : Whole pj dir segs log) {opts : Options} {now : Int}
    {dir' : Directory} (hopen : openWal opts dir now = .ok (w, dir')) :
    Layout pj dir' w log ∧ Whole pj dir' w.segments log := by
  obtain ⟨hlayout, holder, hseq, -, hcur, -⟩ := openWal_layout hopen h.holds h.dense
  have hresume : w.seq = log.length := by
    rw [hseq, holder, resumeSeq_map_refresh, h.resume]
  rw [hresume, List.take_length] at hlayout
  have hstart : w.cur.startSeq = resumeSeq w.older + 1 := by
    rw [hcur, ← hseq]
    rfl
  have hcontiguous := h.contiguous.openWal h.nonempty_first holder hstart
  refine ⟨hlayout, hlayout.whole hcontiguous ?_⟩
  rcases oldestOf_openWal h.nonempty_first holder hstart with hone | hsame
  · exact hone
  · rw [hsame, h.oldest]

/-! ## Reading everything back -/

theorem Reader.Follows.steps {target low : Nat} {r : Reader} {tracks : List (Segment × Bool)}
    {delivered : List (Entry E)}
    (h : r.Follows pj world w log target low tracks delivered)
    (hlayout : Layout pj world.dir w log) (n : Nat) :
    ∃ tracks', (r.steps pj world.dir n).2.Follows pj world w log target low tracks'
      (delivered ++ (r.steps pj world.dir n).1) := by
  induction n generalizing r tracks delivered with
  | zero => exact ⟨tracks, by simpa [Reader.steps] using h⟩
  | succ n ih =>
      obtain ⟨tracks', hnext⟩ := h.read hlayout
      obtain ⟨tracks'', hrest⟩ := ih hnext
      refine ⟨tracks'', ?_⟩
      simpa [Reader.steps] using hrest

theorem Layout.readFrom_zero (hlayout : Layout pj world.dir w log)
    (hwhole : Whole pj world.dir w.segments log) (htrimmed : world.trimmed = []) :
    w.readFrom pj world.dir 0 = (log, none) := by
  have hlive : w.cursorExpired 0 = true → ∃ d ∈ world.trimmed, 0 < d.seq := by
    simp [Wal.cursorExpired]
  have hsnapshot := Wal.follows_snapshot hlayout hwhole.contiguous hlive
  obtain ⟨n, hentries, hstatus⟩ := w.steps_snapshot pj world.dir 0
  obtain ⟨tracks, hfollows⟩ := hsnapshot.steps hlayout n
  have herror : (w.readFrom pj world.dir 0).2 = none := by
    cases herr : (w.readFrom pj world.dir 0).2 with
    | none => rfl
    | some err =>
        rw [herr] at hstatus
        obtain ⟨-, d, hd, -⟩ := hfollows.failed err hstatus
        rw [htrimmed] at hd
        cases hd
  rw [herror] at hstatus
  obtain ⟨pos, hprogress⟩ := hfollows.progress (hfollows.gap_failed hstatus) (by simp [hstatus])
  have hpos : pos = log.length := by
    have := hprogress.done hstatus
    have := hprogress.pos_le
    have := hlayout.seq_eq
    omega
  have hstart : w.replayStart 0 = 0 := by
    rw [Wal.replayStart, w.oldest_eq, hwhole.oldest]
    rfl
  have hlog : (w.readFrom pj world.dir 0).1 = log := by
    rw [← hentries]
    have hdelivered := hprogress.delivered_eq
    rwa [List.nil_append, hstart, hpos, slice_zero_length] at hdelivered
  rw [← hlog, ← herror]

/-! ## Runs that keep every record -/

structure World.Complete (pj : ProtoJson E) (world : World E) (log : List (Entry E)) :
    Prop where
  whole : ∃ segs, Whole pj world.dir segs log
  layout : ∀ w, world.wal = some w →
    Layout pj world.dir w log ∧ Whole pj world.dir w.segments log
  untrimmed : world.trimmed = []
  appended : ∀ e ∈ world.appended, e ∈ log

namespace World.Complete

theorem empty (now : Int) : (World.empty now : World E).Complete pj [] :=
  ⟨⟨[], .empty⟩, by simp [World.empty], rfl, by simp [World.empty]⟩

theorem of_layout (hwal : world.wal = some w) (hlayout : Layout pj world.dir w log)
    (hwhole : Whole pj world.dir w.segments log) (htrimmed : world.trimmed = [])
    (happended : ∀ e ∈ world.appended, e ∈ log) : world.Complete pj log := by
  refine ⟨⟨_, hwhole⟩, ?_, htrimmed, happended⟩
  intro w' hw'
  rw [hwal] at hw'
  cases hw'
  exact ⟨hlayout, hwhole⟩

theorem append (h : world.Complete pj log) (hwal : world.wal = some w)
    (hopen : w.curOpen = true) (agent : String) {env : E} {text : Bytes}
    (htext : pj.marshal env = some text) (clock : AppendClock) :
    (world.append pj w agent (some env) clock .none).Complete pj
      (log ++ [⟨w.seq + 1, agent, env, clock.ts⟩]) := by
  obtain ⟨hlayout, hwhole⟩ := h.layout w hwal
  have hlayout' := hlayout.append hopen agent htext clock
  refine of_layout rfl hlayout' ?_ h.untrimmed ?_
  · apply hlayout'.whole (hwhole.contiguous.append _ hopen agent htext clock)
    rw [oldestOf_append world.dir hopen agent htext clock, hwhole.oldest]
  · rw [World.append_appended hopen agent htext clock]
    intro e he
    exact List.mem_append.mpr ((List.mem_append.mp he).imp_left (h.appended e))

theorem step {ev : Event E} (h : world.Complete pj log) (hev : ev.keepsRecords = true)
    (hstep : SafeStep pj world ev next) : ∃ log', next.Complete pj log' := by
  cases hstep with
  | openLog hopen =>
      obtain ⟨segs, hwhole⟩ := h.whole
      obtain ⟨hlayout, hwhole'⟩ := hwhole.openWal hopen
      exact ⟨log, of_layout rfl hlayout hwhole' h.untrimmed h.appended⟩
  | append hwal hopen htext => exact ⟨_, h.append hwal hopen _ htext _⟩
  | refused hwal hopen henv => exact ⟨log, h.whole, h.layout, h.untrimmed, h.appended⟩
  | gc hwal => cases hev
  | @close w hwal =>
      obtain ⟨hlayout, hwhole⟩ := h.layout w hwal
      refine ⟨log, of_layout rfl ?_ hwhole h.untrimmed h.appended⟩
      exact ⟨hlayout.dense, hlayout.holds, hlayout.older_nonempty, hlayout.cur_end,
        hlayout.seq_eq⟩

theorem run {events : List (Event E)} (h : world.Complete pj log)
    (hrun : Foundation.run (World.quietStep pj) world events = some next) :
    ∃ log', next.Complete pj log' := by
  apply run_invariant (fun world : World E => ∃ log, world.Complete pj log) _ ⟨log, h⟩ hrun
  rintro world ev next ⟨log, h⟩ hstep
  obtain ⟨hev, hsafe⟩ := restrict_eq_some.mp hstep
  exact h.step hev (safeStep_of_safeStep hsafe)

theorem readsBack (h : world.Complete pj log) (hwal : world.wal = some w) :
    world.ReadsBack pj w := by
  obtain ⟨hlayout, hwhole⟩ := h.layout w hwal
  have hread := hlayout.readFrom_zero hwhole h.untrimmed
  refine ⟨by rw [hread], ?_, ?_⟩
  · rw [hread]
    have hseqs : (slice log 0 log.length).map Entry.seq = _ :=
      hlayout.dense.map_seq_slice (Nat.le_refl log.length)
    rw [slice_zero_length] at hseqs
    rw [Increasing, hseqs]
    exact List.pairwise_lt_range' 1
  · rw [hread]
    exact h.appended

theorem crash_nothing (h : world.Complete pj log) (hwal : world.wal = some w) {agent : String}
    {env : E} {clock : AppendClock} {written : Nat}
    (hcrash : world.crash pj w agent env clock written = some next) (hwritten : written = 0) :
    next.Complete pj log := by
  obtain ⟨-, hwhole⟩ := h.layout w hwal
  simp only [World.crash] at hcrash
  split at hcrash
  · obtain ⟨text, htext, rfl⟩ := Option.map_eq_some_iff.mp hcrash
    subst hwritten
    have hholds := hwhole.holds.congr (Directory.data_write_nil world.dir w.cur.path clock.written)
    exact ⟨⟨w.segments, hwhole.dense, hholds, hwhole.contiguous, hwhole.oldest,
      hwhole.nonempty_first, hwhole.resume⟩, by simp, h.untrimmed, h.appended⟩
  · cases hcrash

theorem crash_record (h : world.Complete pj log) (hwal : world.wal = some w) {agent : String}
    {env : E} {clock : AppendClock} {written : Nat}
    (hcrash : world.crash pj w agent env clock written = some next)
    (hwritten : ∀ text, pj.marshal env = some text →
      (w.nextLine agent text clock.ts).length ≤ written + 1) :
    next.Complete pj (log ++ [⟨w.seq + 1, agent, env, clock.ts⟩]) := by
  obtain ⟨hlayout, hwhole⟩ := h.layout w hwal
  simp only [World.crash] at hcrash
  split at hcrash
  · obtain ⟨text, htext, rfl⟩ := Option.map_eq_some_iff.mp hcrash
    have hbytes : Framed marshalEntry
        [(⟨w.seq + 1, agent, env, clock.ts⟩ : Entry E).disk pj]
        ((w.nextLine agent text clock.ts).take written) := by
      have hlength := hwritten text htext
      simp only [Wal.nextLine, List.length_append, List.length_singleton] at hlength ⊢
      rw [Entry.disk_eq htext, List.take_append, List.take_of_length_le (by omega)]
      cases written - (marshalEntry ⟨w.seq + 1, agent, text, clock.ts⟩).length with
      | zero => simpa using Framed.single _
      | succ n => simpa using Framed.line _
    have hlayout' := hlayout.write rfl htext hbytes
      (fun file hfile => ⟨clock.written, Directory.lookup_write_self hfile _ _⟩)
      (fun name hname => Directory.lookup_write_of_ne hname _) 0
    have holdest : oldestOf (w.appendedTo 0).segments = 1 := by
      rw [← hwhole.oldest]
      unfold oldestOf Wal.segments Wal.appendedTo
      cases w.older <;> rfl
    refine ⟨⟨_, hlayout'.whole (hwhole.contiguous.appendedTo 0) holdest⟩, by simp,
      h.untrimmed, ?_⟩
    exact fun e he => List.mem_append_left _ (h.appended e he)
  · cases hcrash

end World.Complete

/-! ## The theorem -/

/-- The crash tore the record: a part of its line was written, not all of it. -/
def TornCrash (pj : ProtoJson E) (w : Wal) (agent : String) (env : E) (ts : Int)
    (written : Nat) : Prop :=
  0 < written ∧ ∃ text, pj.marshal env = some text ∧
    written + 1 < (w.nextLine agent text ts).length

/-- Where the crash left nothing of a record or all of it, every entry appended
before or after it is read back, through any number of reopenings. -/
theorem readsBack_of_not_torn {now : Int} {before after : List (Event E)}
    {middle crashed final : World E} {w w' : Wal} {agent : String} {env : E}
    {clock : AppendClock} {written : Nat}
    (hbefore : run (World.quietStep pj) (World.empty now) before = some middle)
    (hwal : middle.wal = some w)
    (hcrash : middle.step pj (.crash agent env clock written) = some crashed)
    (htorn : ¬ TornCrash pj w agent env clock.ts written)
    (hafter : run (World.quietStep pj) crashed after = some final)
    (hfinal : final.wal = some w') : final.ReadsBack pj w' := by
  obtain ⟨log, hmiddle⟩ := (World.Complete.empty now).run hbefore
  have hcrash' : middle.crash pj w agent env clock written = some crashed := by
    simpa [World.step, hwal] using hcrash
  have hcrashed : ∃ log', crashed.Complete pj log' := by
    by_cases hzero : written = 0
    · exact ⟨log, hmiddle.crash_nothing hwal hcrash' hzero⟩
    · refine ⟨_, hmiddle.crash_record hwal hcrash' ?_⟩
      intro text htext
      by_contra hlong
      exact htorn ⟨by omega, text, htext, by omega⟩
  obtain ⟨log', hlog'⟩ := hcrashed
  obtain ⟨log'', hlog''⟩ := hlog'.run hafter
  exact hlog''.readsBack hfinal

/-! ## A whole record, and two torn ones -/

def oneAppend : List (Event Unit) :=
  [.openLog roomySegments 0, .append "node-a" (some ()) ⟨1, 1, 1⟩ .none]

def recovery : List (Event Unit) :=
  [.openLog roomySegments 3, .append "node-b" (some ()) ⟨4, 4, 4⟩ .none, .close,
    .openLog roomySegments 5]

def crashScenario (before : List (Event Unit)) (written : Nat) :
    Option (World Unit × Wal × World Unit × World Unit × Wal) := do
  let middle ← run (World.quietStep emptyMessage) (World.empty 0) before
  let w ← middle.wal
  let crashed ← middle.step emptyMessage (.crash "node-a" () ⟨2, 2, 2⟩ written)
  let final ← run (World.quietStep emptyMessage) crashed recovery
  let w' ← final.wal
  some (middle, w, crashed, final, w')

/-- A torn record behind a whole one makes `ReadFrom` fail for good; a torn record
that is the first of its file takes the entries behind it away. -/
theorem crashScenario_torn :
    (∃ middle w crashed final w',
      crashScenario oneAppend 5 = some (middle, w, crashed, final, w') ∧
        ¬ final.ReadsBack emptyMessage w') ∧
    ∃ middle w crashed final w',
      crashScenario (oneAppend.take 1) 5 = some (middle, w, crashed, final, w') ∧
        ¬ final.ReadsBack emptyMessage w' := by
  have hbehind : (crashScenario oneAppend 5).map
      (fun (_, _, _, final, w') => (w'.readFrom emptyMessage final.dir 0).2) =
      some (some (.decode .unexpectedEOF)) := by
    decide +kernel
  have hfirst : (crashScenario (oneAppend.take 1) 5).map
      (fun (_, _, _, final, w') => (final.appended, w'.readFrom emptyMessage final.dir 0)) =
      some ([⟨1, "node-b", (), 4⟩], [], none) := by
    decide +kernel
  constructor
  · obtain ⟨⟨middle, w, crashed, final, w'⟩, hscenario, herror⟩ :=
      Option.map_eq_some_iff.mp hbehind
    refine ⟨middle, w, crashed, final, w', hscenario, fun hreads => ?_⟩
    have hnone := hreads.1
    simp only at herror
    rw [herror] at hnone
    cases hnone
  · obtain ⟨⟨middle, w, crashed, final, w'⟩, hscenario, hvalues⟩ :=
      Option.map_eq_some_iff.mp hfirst
    simp only [Prod.mk.injEq] at hvalues
    refine ⟨middle, w, crashed, final, w', hscenario, fun hreads => ?_⟩
    have hmem := hreads.2.2 ⟨1, "node-b", (), 4⟩ (by simp [hvalues.1])
    rw [hvalues.2] at hmem
    cases hmem

theorem crashScenario_readsBack :
    ∃ middle w crashed final w',
      crashScenario oneAppend 50 = some (middle, w, crashed, final, w') ∧
        final.ReadsBack emptyMessage w' := by
  have hvalues : (crashScenario oneAppend 50).map (fun (_, w, _) =>
      (w.nextLine "node-a" [openBrace, closeBrace] 2).length) = some 51 := by
    decide +kernel
  obtain ⟨⟨middle, w, crashed, final, w'⟩, hscenario, hlength⟩ :=
    Option.map_eq_some_iff.mp hvalues
  refine ⟨middle, w, crashed, final, w', hscenario, ?_⟩
  simp only [crashScenario, bind, Option.bind_eq_some_iff] at hscenario
  obtain ⟨middle', hbefore, w₁, hwal, crashed', hcrash, final', hafter, w₂, hfinal, heq⟩ :=
    hscenario
  cases heq
  apply readsBack_of_not_torn hbefore hwal hcrash _ hafter hfinal
  rintro ⟨-, text, htext, hshort⟩
  cases htext
  simp only at hlength
  rw [hlength] at hshort
  omega

end KloudlensAggregator.Envwal
