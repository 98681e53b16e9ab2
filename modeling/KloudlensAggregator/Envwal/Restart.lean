import KloudlensAggregator.Envwal.Runs

/-!
# Sequence numbers across restarts

`Open` takes the next seq from the records it finds.  The seqs of a directory
keep increasing exactly as long as every `Open` that is followed by another
successful `Append` still finds the record of the last one.
-/

namespace KloudlensAggregator.Envwal

open KloudlensAggregator.Foundation
open KloudlensAggregator.Foundation.Json

variable {E : Type} {pj : ProtoJson E} {world next : World E} {log : List (Entry E)}
  {dir : Directory} {segs : List Segment}

def World.safeStep (pj : ProtoJson E) : World E → Event E → Option (World E) :=
  restrict World.noFailure (World.step pj)

/-- Some segment file holds the record of the last entry appended. -/
def World.retainsLast (world : World E) : Bool :=
  match world.appended.getLast? with
  | none => true
  | some e =>
      (world.dir.readDir.filter fun entry => isSegmentName entry.1).any fun entry =>
        (decodeAll unmarshalEntry entry.2.data).1.any fun d => d.seq == e.seq

/-! ## What `Open` resumes from -/

theorem Holds.record_cases (h : Holds pj dir segs log) (hdense : Dense pj log)
    {name : String} {file : File} (hfile : dir.lookup name = some file) {d : DiskEntry}
    (hd : d ∈ (decodeAll unmarshalEntry file.data).1) :
    ∃ s ∈ segs, s.startSeq ≤ s.endSeq ∧ d.seq ≤ s.endSeq := by
  by_cases hname : ∃ s ∈ segs, s.path = name
  · obtain ⟨s, hs, rfl⟩ := hname
    obtain ⟨file', hfile', hdecode⟩ := h.decodeAll_file hdense hs
    rw [hfile] at hfile'
    cases hfile'
    rw [hdecode] at hd
    obtain ⟨e, he, rfl⟩ := List.mem_map.mp hd
    obtain ⟨i, hlow, hhigh, hi⟩ := mem_slice.mp he
    have hseq : (e.disk pj).seq = i + 1 := hdense.seq hi
    exact ⟨s, hs, by omega, by omega⟩
  · have hblank := h.blank name file hfile fun s hs heq => hname ⟨s, hs, heq⟩
    have hdecode : decodeAll unmarshalEntry file.data = ([], none) :=
      hblank.decodeAll_eq (by simp) (by simp)
    rw [hdecode] at hd
    cases hd

private theorem openWal_seq_of_record {opts : Options} {now : Int} {w : Wal} {dir' : Directory}
    (hopen : openWal opts dir now = .ok (w, dir')) (h : Holds pj dir segs log)
    (hdense : Dense pj log) {name : String} {file : File}
    (hfile : dir.lookup name = some file) {d : DiskEntry}
    (hd : d ∈ (decodeAll unmarshalEntry file.data).1) : d.seq ≤ w.seq := by
  obtain ⟨hlayout, holder, -⟩ := openWal_layout hopen h hdense
  obtain ⟨s, hs, hrange, hle⟩ := h.record_cases hdense hfile hd
  have hmem : s.refresh dir ∈ w.segments := by
    apply Layout.mem_older
    rw [holder]
    exact List.mem_map_of_mem (List.mem_filter.mpr ⟨hs, decide_eq_true hrange⟩)
  have hbound := (hlayout.holds.range _ hmem).2.2
  rw [← hlayout.seq_eq, Segment.refresh_endSeq] at hbound
  omega

private theorem exists_record_of_openWal {opts : Options} {now : Int} {w : Wal} {dir' : Directory}
    (hopen : openWal opts dir now = .ok (w, dir')) (h : Holds pj dir segs log)
    (hdense : Dense pj log) (hpos : w.seq ≠ 0) :
    ∃ name file, dir.lookup name = some file ∧ isSegmentName name = true ∧
      ∃ d ∈ (decodeAll unmarshalEntry file.data).1, d.seq = w.seq := by
  obtain ⟨hlayout, holder, hseq, -⟩ := openWal_layout hopen h hdense
  obtain ⟨last, hlast, hend⟩ : ∃ last, last ∈ w.older ∧ last.endSeq = w.seq := by
    unfold resumeSeq at hseq
    cases hlast : w.older.getLast? with
    | none =>
        rw [hlast] at hseq
        exact absurd hseq hpos
    | some last =>
        rw [hlast] at hseq
        exact ⟨last, List.mem_of_getLast? hlast, hseq.symm⟩
  rw [holder] at hlast
  obtain ⟨s, hs, rfl⟩ := List.mem_map.mp hlast
  obtain ⟨hs, hrange⟩ := List.mem_filter.mp hs
  have hbounds := h.range s hs
  obtain ⟨file, hfile, hdecode⟩ := h.decodeAll_file hdense hs
  obtain ⟨first, e, -, hgetLast, -, he⟩ :=
    s.entries_ne_nil hbounds.1 (of_decide_eq_true hrange) hbounds.2.2
  refine ⟨s.path, file, hfile, ?_, e.disk pj, ?_, ?_⟩
  · rw [h.path s hs]
    exact isSegmentName_segmentName s.startSeq
  · rw [hdecode]
    exact List.mem_map_of_mem (List.mem_of_getLast? hgetLast)
  · have hseqE : (e.disk pj).seq = s.endSeq - 1 + 1 := hdense.seq he
    rw [Segment.refresh_endSeq] at hend
    omega

theorem World.retainsLast_iff {world : World E} :
    world.retainsLast = true ↔ ∀ e, world.appended.getLast? = some e →
      ∃ name file, world.dir.lookup name = some file ∧ isSegmentName name = true ∧
        ∃ d ∈ (decodeAll unmarshalEntry file.data).1, d.seq = e.seq := by
  unfold retainsLast
  cases world.appended.getLast? with
  | none => simp
  | some e =>
      simp only [List.any_eq_true, List.mem_filter, beq_iff_eq, Prod.exists,
        Directory.mem_readDir, Option.some.injEq, forall_eq', and_assoc]

/-! ## Runs that always find the last record -/

def lastSeq (appended : List (Entry E)) : Nat :=
  match appended.getLast? with
  | none => 0
  | some e => e.seq

def Increasing (appended : List (Entry E)) : Prop :=
  (appended.map Entry.seq).Pairwise (· < ·)

theorem Increasing.le_lastSeq {appended : List (Entry E)} (h : Increasing appended) :
    ∀ e ∈ appended, e.seq ≤ lastSeq appended := by
  intro e he
  rcases List.eq_nil_or_concat appended with rfl | ⟨front, last, rfl⟩
  · cases he
  · simp only [List.concat_eq_append] at h he ⊢
    simp only [lastSeq, List.getLast?_concat]
    simp only [Increasing, List.map_append, List.map_cons, List.map_nil,
      List.pairwise_append] at h
    rcases List.mem_append.mp he with he | he
    · exact Nat.le_of_lt (h.2.2 e.seq (List.mem_map_of_mem he) last.seq (by simp))
    · rw [List.mem_singleton.mp he]

theorem Increasing.concat {appended : List (Entry E)} (h : Increasing appended)
    {e : Entry E} (he : lastSeq appended < e.seq) : Increasing (appended ++ [e]) := by
  simp only [Increasing, List.map_append, List.map_cons, List.map_nil, List.pairwise_append]
  refine ⟨h, List.pairwise_singleton _ _, ?_⟩
  intro seq hseq other hother
  obtain ⟨e', he', rfl⟩ := List.mem_map.mp hseq
  rw [List.mem_singleton.mp hother]
  exact Nat.lt_of_le_of_lt (h.le_lastSeq e' he') he

theorem Increasing.of_initial {first second : List (Entry E)} (hinitial : first <+: second)
    (h : Increasing second) : Increasing first :=
  h.sublist (hinitial.sublist.map Entry.seq)

structure World.Continues (pj : ProtoJson E) (world : World E) : Prop where
  keeps : ∃ log, world.Keeps pj log ∧ log.length = lastSeq world.appended
  increasing : Increasing world.appended

theorem World.Continues.empty (now : Int) : (World.empty now : World E).Continues pj :=
  ⟨⟨[], .empty now, rfl⟩, .nil⟩

theorem World.Continues.step {ev : Event E} (h : world.Continues pj)
    (hretains : ∀ opts now, ev = .openLog opts now → world.retainsLast = true)
    (hstep : SafeStep pj world ev next) : next.Continues pj := by
  obtain ⟨log, hkeeps, hlast⟩ := h.keeps
  cases hstep with
  | @openLog opts now w dir hopen =>
      obtain ⟨segs, hholds⟩ := hkeeps.holds
      have hresume : log.length ≤ w.seq := by
        rw [hlast]
        unfold lastSeq
        cases he : world.appended.getLast? with
        | none => exact Nat.zero_le _
        | some e =>
            obtain ⟨name, file, hfile, -, d, hd, hseq⟩ :=
              World.retainsLast_iff.mp (hretains opts now rfl) e he
            have hresumed := openWal_seq_of_record hopen hholds hkeeps.dense hfile hd
            rwa [hseq] at hresumed
      have hkept := hkeeps.openLog hopen
      rw [List.take_of_length_le hresume] at hkept
      exact ⟨⟨log, hkept, hlast⟩, h.increasing⟩
  | @append w agent env text clock hwal hopen htext =>
      have hseq := (hkeeps.layout w hwal).seq_eq
      refine ⟨⟨_, hkeeps.append hwal hopen agent htext clock, ?_⟩, ?_⟩
      · simp [World.append_appended hopen agent htext clock, lastSeq, hseq]
      · rw [World.append_appended hopen agent htext clock]
        apply h.increasing.concat
        dsimp only
        omega
  | refused hwal hopen henv => exact ⟨⟨log, hkeeps.tick _, hlast⟩, h.increasing⟩
  | gc hwal => exact ⟨⟨log, hkeeps.gc hwal _, hlast⟩, h.increasing⟩
  | close hwal => exact ⟨⟨log, hkeeps.close hwal, hlast⟩, h.increasing⟩

/-! ## Runs behind a lost record -/

theorem SafeStep.appended_grows {ev : Event E} (h : SafeStep pj world ev next) :
    world.appended <+: next.appended := by
  cases h with
  | append hwal hopen htext => exact List.prefix_append _ _
  | openLog hopen => exact List.prefix_rfl
  | refused hwal hopen henv => exact List.prefix_rfl
  | gc hwal => exact List.prefix_rfl
  | close hwal => exact List.prefix_rfl

theorem safeStep_of_safeStep {ev : Event E} (h : world.safeStep pj ev = some next) :
    SafeStep pj world ev next := by
  obtain ⟨hguard, hstep⟩ := restrict_eq_some.mp h
  exact safeStep_of_step hguard hstep

theorem run_appended_grows {events : List (Event E)}
    (h : run (World.safeStep pj) world events = some next) :
    world.appended <+: next.appended := by
  induction events generalizing world with
  | nil =>
      cases h
      exact List.prefix_rfl
  | cons ev events ih =>
      obtain ⟨middle, hstep, hrest⟩ := run_cons_eq_some.mp h
      exact (safeStep_of_safeStep hstep).appended_grows.trans (ih hrest)

private theorem run_appended_eq_of_lost {events : List (Event E)} {log : List (Entry E)}
    (hkeeps : world.Keeps pj log) {lost : Entry E} (hlost : lost ∈ world.appended)
    (hshort : log.length < lost.seq)
    (hrun : run (World.safeStep pj) world events = some next)
    (hincreasing : Increasing next.appended) : next.appended = world.appended := by
  -- Where the log is shorter than a seq already given out, the next successful `Append`
  -- gives out a seq that is not new.
  induction events generalizing world log with
  | nil =>
      cases hrun
      rfl
  | cons ev events ih =>
      obtain ⟨middle, hstep, hrest⟩ := run_cons_eq_some.mp hrun
      cases safeStep_of_safeStep hstep with
      | @openLog opts now w dir hopen =>
          have hlength : (log.take w.seq).length < lost.seq := by
            rw [List.length_take]
            omega
          have hsame := ih (hkeeps.openLog hopen) hlost hlength hrest
          exact hsame
      | @append w agent env text clock hwal hopen htext =>
          have hseq := (hkeeps.layout w hwal).seq_eq
          have hinitial := run_appended_grows hrest
          rw [World.append_appended hopen agent htext clock] at hinitial
          have hnot := hincreasing.of_initial hinitial
          simp only [Increasing, List.map_append, List.map_cons, List.map_nil,
            List.pairwise_append] at hnot
          have hless := hnot.2.2 lost.seq (List.mem_map_of_mem hlost) (w.seq + 1) (by simp)
          omega
      | @refused w agent env clock hwal hopen henv =>
          have hsame := ih (hkeeps.tick clock.opened) hlost hshort hrest
          exact hsame
      | gc hwal =>
          have hsame := ih (hkeeps.gc hwal _) hlost hshort hrest
          exact hsame
      | close hwal =>
          have hsame := ih (hkeeps.close hwal) hlost hshort hrest
          exact hsame

/-! ## The condition -/

/-- The run keeps the last record up to every `Open` that matters. -/
def ReopensRetain (pj : ProtoJson E) (start : World E) (events : List (Event E))
    (final : World E) : Prop :=
  ∀ before opts now after middle, events = before ++ .openLog opts now :: after →
    run (World.safeStep pj) start before = some middle →
    middle.retainsLast = true ∨ final.appended = middle.appended

private theorem run_continues {events : List (Event E)} {start final : World E}
    (hstart : start.Continues pj)
    (hretain : ∀ before opts now after middle,
      events = before ++ .openLog opts now :: after →
      run (World.safeStep pj) start before = some middle → middle.retainsLast = true)
    (hrun : run (World.safeStep pj) start events = some final) : final.Continues pj := by
  induction events generalizing start with
  | nil =>
      cases hrun
      exact hstart
  | cons ev events ih =>
      obtain ⟨middle, hstep, hrest⟩ := run_cons_eq_some.mp hrun
      have hmiddle : middle.Continues pj := by
        apply hstart.step _ (safeStep_of_safeStep hstep)
        rintro opts now rfl
        exact hretain [] opts now events start rfl rfl
      apply ih hmiddle _ hrest
      intro before opts now after middle' hevents hbefore
      apply hretain (ev :: before) opts now after middle'
      · rw [hevents, List.cons_append]
      · exact run_cons_eq_some.mpr ⟨middle, hstep, hbefore⟩

theorem run_keeps {events : List (Event E)} {now : Int}
    (hrun : run (World.safeStep pj) (World.empty now) events = some world) :
    ∃ log, world.Keeps pj log ∧ (∀ e ∈ log, e ∈ world.appended) ∧
      ∀ e ∈ world.appended, 0 < e.seq := by
  apply run_invariant
    (fun world : World E => ∃ log, world.Keeps pj log ∧ (∀ e ∈ log, e ∈ world.appended) ∧
      ∀ e ∈ world.appended, 0 < e.seq)
    _ ⟨[], .empty now, by simp, by simp [World.empty]⟩ hrun
  rintro world ev next ⟨log, hkeeps, hsub, hpos⟩ hstep
  cases safeStep_of_safeStep hstep with
  | openLog hopen =>
      exact ⟨_, hkeeps.openLog hopen, fun e he => hsub e (List.mem_of_mem_take he), hpos⟩
  | @append w agent env text clock hwal hopen htext =>
      refine ⟨_, hkeeps.append hwal hopen agent htext clock, ?_, ?_⟩
      · rw [World.append_appended hopen agent htext clock]
        intro e he
        exact List.mem_append.mpr ((List.mem_append.mp he).imp_left (hsub e))
      · rw [World.append_appended hopen agent htext clock]
        intro e he
        rcases List.mem_append.mp he with he | he
        · exact hpos e he
        · rw [List.mem_singleton.mp he]
          exact Nat.succ_pos w.seq
  | refused hwal hopen henv => exact ⟨log, hkeeps.tick _, hsub, hpos⟩
  | gc hwal => exact ⟨log, hkeeps.gc hwal _, hsub, hpos⟩
  | close hwal => exact ⟨log, hkeeps.close hwal, hsub, hpos⟩

private theorem appended_eq_of_not_retains {before after : List (Event E)} {opts : Options}
    {start now : Int} {middle final : World E}
    (hbefore : run (World.safeStep pj) (World.empty start) before = some middle)
    (hafter : run (World.safeStep pj) middle (.openLog opts now :: after) = some final)
    (hlost : ¬ middle.retainsLast = true) (hincreasing : Increasing final.appended) :
    final.appended = middle.appended := by
  obtain ⟨log, hkeeps, hsub, hpos⟩ := run_keeps hbefore
  rw [World.retainsLast_iff] at hlost
  push Not at hlost
  obtain ⟨e, he, hrecord⟩ := hlost
  have hmem : e ∈ middle.appended := List.mem_of_getLast? he
  have hlog : log.length ≤ e.seq := by
    have hle := (hincreasing.of_initial (run_appended_grows hafter)).le_lastSeq
    simp only [lastSeq, he] at hle
    rcases List.eq_nil_or_concat log with rfl | ⟨front, last, rfl⟩
    · exact Nat.zero_le _
    · have hseq := hkeeps.dense.seq (i := front.length) (e := last) (by simp)
      have := hle last (hsub last (by simp))
      simp only [List.concat_eq_append, List.length_append, List.length_singleton]
      omega
  obtain ⟨opened, hstep, hrest⟩ := run_cons_eq_some.mp hafter
  cases safeStep_of_safeStep hstep with
  | @openLog _ _ w dir hopen =>
      obtain ⟨segs, hholds⟩ := hkeeps.holds
      have hne : w.seq ≠ e.seq := by
        intro heq
        have hposE := hpos e hmem
        obtain ⟨name, file, hfile, hname, d, hd, hseq⟩ :=
          exists_record_of_openWal hopen hholds hkeeps.dense (by omega)
        exact hrecord name file hfile hname d hd (by omega)
      have hshort : (log.take w.seq).length < e.seq := by
        have hresumed := (openWal_layout hopen hholds hkeeps.dense).1.seq_eq
        rw [List.length_take] at hresumed ⊢
        omega
      have hsame := run_appended_eq_of_lost (hkeeps.openLog hopen) hmem hshort hrest
        hincreasing
      exact hsame

/-- The seqs given out on a directory increase exactly when every `Open` still
finds the record of the last one, or no `Append` succeeds after it. -/
theorem appended_increasing_iff {start : Int} {events : List (Event E)}
    (hrun : run (World.safeStep pj) (World.empty start) events = some world) :
    Increasing world.appended ↔
      ReopensRetain pj (World.empty start) events world := by
  constructor
  · rintro hincreasing before opts now after middle rfl hbefore
    by_cases hretains : middle.retainsLast = true
    · exact .inl hretains
    · obtain ⟨middle', hbefore', hafter⟩ := run_append_eq_some.mp hrun
      rw [hbefore] at hbefore'
      cases hbefore'
      exact .inr (appended_eq_of_not_retains hbefore hafter hretains hincreasing)
  · intro hretain
    induction events using List.reverseRecOn generalizing world with
    | nil =>
        cases hrun
        exact .nil
    | append_singleton events ev ih =>
        obtain ⟨middle, hbefore, hlast⟩ := run_append_eq_some.mp hrun
        rw [run_singleton] at hlast
        have hstep := safeStep_of_safeStep hlast
        by_cases hsame : world.appended = middle.appended
        · rw [hsame]
          apply ih hbefore
          intro front opts now after earlier hevents hfront
          rw [← hsame]
          exact hretain front opts now (after ++ [ev]) earlier (by simp [hevents]) hfront
        · -- A successful append: every earlier `Open` must have found the last record.
          have hcontinues : middle.Continues pj := by
            apply run_continues (World.Continues.empty start) _ hbefore
            rintro front opts now after earlier rfl hfront
            rcases hretain front opts now (after ++ [ev]) earlier (by simp) hfront with h | h
            · exact h
            · obtain ⟨earlier', hfront', hafter⟩ := run_append_eq_some.mp hbefore
              rw [hfront] at hfront'
              cases hfront'
              have hinitial := run_appended_grows hafter
              rw [← h] at hinitial
              exact absurd (hstep.appended_grows.eq_of_length_le hinitial.length_le).symm hsame
          refine (hcontinues.step ?_ hstep).increasing
          rintro opts now rfl
          cases hstep
          exact absurd rfl hsame

/-! ## A lost record -/

def tinySegments : Options := ⟨"wal", 0, 1, 10⟩

def roomySegments : Options := ⟨"wal", 0, 1000, 10⟩

/-- The only record fills its segment, outlives its TTL and is collected; the
directory that is opened again holds one empty file. -/
def lossyRestart : List (Event Unit) :=
  [.openLog tinySegments 0, .append "node-a" (some ()) ⟨1, 1, 1⟩ .none, .gc 20, .close,
    .openLog tinySegments 21, .append "node-a" (some ()) ⟨22, 22, 22⟩ .none]

private theorem lossyRestart_seqs :
    (run (World.safeStep emptyMessage) (World.empty 0) lossyRestart).map
      (fun world => world.appended.map Entry.seq) = some [1, 1] := by
  decide +kernel

theorem lossyRestart_not_increasing :
    ∃ world, run (World.safeStep emptyMessage) (World.empty 0) lossyRestart = some world ∧
      ¬ Increasing world.appended := by
  obtain ⟨world, hrun, hseqs⟩ := Option.map_eq_some_iff.mp lossyRestart_seqs
  refine ⟨world, hrun, ?_⟩
  rw [Increasing, hseqs]
  decide

def cleanRestart : List (Event Unit) :=
  [.openLog tinySegments 0, .append "node-a" (some ()) ⟨1, 1, 1⟩ .none, .close,
    .openLog tinySegments 2, .append "node-a" (some ()) ⟨3, 3, 3⟩ .none]

theorem cleanRestart_reopensRetain :
    ∃ world, run (World.safeStep emptyMessage) (World.empty 0) cleanRestart = some world ∧
      ReopensRetain emptyMessage (World.empty 0) cleanRestart world := by
  have hseqs : (run (World.safeStep emptyMessage) (World.empty 0) cleanRestart).map
      (fun world => world.appended.map Entry.seq) = some [1, 2] := by
    decide +kernel
  obtain ⟨world, hrun, hseqs⟩ := Option.map_eq_some_iff.mp hseqs
  refine ⟨world, hrun, (appended_increasing_iff hrun).mp ?_⟩
  rw [Increasing, hseqs]
  decide

end KloudlensAggregator.Envwal
