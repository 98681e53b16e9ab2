import KloudlensAggregator.Envwal.Trimming
import KloudlensAggregator.Foundation.GoMap

/-!
# What the WAL does to its directory

Whatever fails, and wherever the process dies, the WAL only opens, extends and removes
files that bear the name of a segment, and a file disappears through `GC` alone.
Where nothing fails, `GC` also bounds what the files take up.
-/

namespace KloudlensAggregator.Envwal

open KloudlensAggregator.Foundation
open KloudlensAggregator.Foundation.Json

variable {E : Type} {pj : ProtoJson E}

/-! ## The operations of a step -/

inductive DirOp where
  | openAppend (name : String) (now : Int)
  | write (name : String) (bytes : Bytes) (now : Int)
  | remove (name : String)

namespace DirOp

def name : DirOp → String
  | .openAppend name _ => name
  | .write name _ _ => name
  | .remove name => name

def size : DirOp → Nat
  | .write _ bytes _ => bytes.length
  | _ => 0

def apply (dir : Directory) : DirOp → Directory
  | .openAppend name now => dir.openAppend name now
  | .write name bytes now => dir.write name bytes now
  | .remove name => dir.erase name

def applyAll (dir : Directory) (ops : List DirOp) : Directory := ops.foldl apply dir

end DirOp

def diskBytes (dir : Directory) : Nat := GoMap.total (fun file => file.data.length) dir

theorem DirOp.diskBytes_apply_le (dir : Directory) (op : DirOp) :
    diskBytes (op.apply dir) ≤ diskBytes dir + op.size := by
  cases op with
  | openAppend name now =>
      simp only [apply, Directory.openAppend]
      split
      · exact Nat.le_add_right _ _
      · have htotal := GoMap.total_insert (fun file => file.data.length) dir name ⟨[], now⟩
        simp only [List.length_nil] at htotal
        simp only [diskBytes, size]
        omega
  | write name bytes now =>
      simp only [apply, Directory.write]
      split
      · rename_i file hfile
        have htotal := GoMap.total_insert (fun file => file.data.length) dir name
          ⟨file.data ++ bytes, now⟩
        simp only [hfile, Option.map_some, Option.getD_some, List.length_append] at htotal
        simp only [diskBytes, size]
        omega
      · exact Nat.le_add_right _ _
  | remove name =>
      have htotal := GoMap.total_erase (fun file => file.data.length) dir name
      simp only [diskBytes, apply, size]
      omega

/-- `dir'` comes from `dir` by operations on files with names of segments, which write at
most `size` bytes and remove only files of `removed`. -/
def Touches (size : Nat) (removed : List String) (dir dir' : Directory) : Prop :=
  ∃ ops : List DirOp, dir' = DirOp.applyAll dir ops ∧
    (∀ op ∈ ops, isSegmentName op.name = true ∧ ∀ name, op = .remove name → name ∈ removed) ∧
    (ops.map DirOp.size).sum ≤ size

namespace Touches

variable {size size' : Nat} {removed : List String} {dir dir' dir'' : Directory}

theorem refl (dir : Directory) : Touches size removed dir dir :=
  ⟨[], rfl, by simp, Nat.zero_le _⟩

theorem trans (h : Touches size removed dir dir') (h' : Touches size' removed dir' dir'') :
    Touches (size + size') removed dir dir'' := by
  obtain ⟨ops, rfl, hops, hsize⟩ := h
  obtain ⟨ops', rfl, hops', hsize'⟩ := h'
  refine ⟨ops ++ ops', (List.foldl_append ..).symm, ?_, ?_⟩
  · intro op hop
    rcases List.mem_append.mp hop with hfirst | hsecond
    · exact hops op hfirst
    · exact hops' op hsecond
  · rw [List.map_append, List.sum_append]
    omega

theorem mono (h : Touches size removed dir dir') (hle : size ≤ size') :
    Touches size' removed dir dir' := by
  obtain ⟨ops, hdir, hops, hsize⟩ := h
  exact ⟨ops, hdir, hops, hsize.trans hle⟩

theorem openAppend {name : String} (hname : isSegmentName name = true) (dir : Directory)
    (now : Int) : Touches size removed dir (dir.openAppend name now) :=
  ⟨[.openAppend name now], rfl, by simp [DirOp.name, hname], Nat.zero_le _⟩

theorem write {name : String} (hname : isSegmentName name = true) (dir : Directory)
    (bytes : Bytes) (now : Int) : Touches bytes.length removed dir (dir.write name bytes now) :=
  ⟨[.write name bytes now], rfl, by simp [DirOp.name, hname], by simp [DirOp.size]⟩

theorem removeAll {names : List String} (hnames : ∀ name ∈ names, isSegmentName name = true)
    (dir : Directory) : Touches 0 names dir (dir.removeAll names) := by
  refine ⟨names.map .remove, ?_, ?_, ?_⟩
  · rw [DirOp.applyAll, List.foldl_map]
    rfl
  · intro op hop
    obtain ⟨name, hname, rfl⟩ := List.mem_map.mp hop
    refine ⟨hnames name hname, ?_⟩
    rintro name' ⟨⟩
    exact hname
  · rw [List.map_map]
    exact Nat.le_of_eq (List.sum_eq_zero (by simp [DirOp.size]))

private theorem lookup_of_other (h : Touches size removed dir dir') {name : String}
    (hname : isSegmentName name = false) : dir'.lookup name = dir.lookup name := by
  obtain ⟨ops, rfl, hops, -⟩ := h
  induction ops generalizing dir with
  | nil => rfl
  | cons op ops ih =>
      have hne : name ≠ op.name := by
        rintro rfl
        rw [(hops op List.mem_cons_self).1] at hname
        cases hname
      refine (ih fun op' hop => hops op' (List.mem_cons_of_mem _ hop)).trans ?_
      cases op with
      | openAppend name' now => exact Directory.lookup_openAppend_of_ne hne
      | write name' bytes now => exact Directory.lookup_write_of_ne hne bytes
      | remove name' => exact AList.lookup_erase_ne hne

private theorem lookup_extends (h : Touches size removed dir dir') {name : String} {file : File}
    (hname : name ∉ removed) (hfile : dir.lookup name = some file) :
    ∃ file', dir'.lookup name = some file' ∧ file.data <+: file'.data := by
  obtain ⟨ops, rfl, hops, -⟩ := h
  induction ops generalizing dir file with
  | nil => exact ⟨file, hfile, List.prefix_refl _⟩
  | cons op ops ih =>
      have hrest := fun op' hop => hops op' (List.mem_cons_of_mem op hop)
      have hfirst : ∃ file', (op.apply dir).lookup name = some file' ∧
          file.data <+: file'.data := by
        cases op with
        | openAppend name' now =>
            by_cases hne : name = name'
            · subst hne
              refine ⟨file, ?_, List.prefix_refl _⟩
              rw [DirOp.apply, Directory.lookup_openAppend_self, hfile]
              rfl
            · exact ⟨file, (Directory.lookup_openAppend_of_ne hne).trans hfile,
                List.prefix_refl _⟩
        | write name' bytes now =>
            by_cases hne : name = name'
            · subst hne
              exact ⟨_, Directory.lookup_write_self hfile bytes now, List.prefix_append _ _⟩
            · exact ⟨file, (Directory.lookup_write_of_ne hne bytes).trans hfile,
                List.prefix_refl _⟩
        | remove name' =>
            have hne : name ≠ name' := by
              rintro rfl
              exact hname ((hops _ List.mem_cons_self).2 name rfl)
            exact ⟨file, (AList.lookup_erase_ne hne).trans hfile, List.prefix_refl _⟩
      obtain ⟨middle, hmiddle, hextends⟩ := hfirst
      obtain ⟨last, hlast, hextends'⟩ := ih hmiddle hrest
      exact ⟨last, hlast, hextends.trans hextends'⟩

private theorem diskBytes_le (h : Touches size removed dir dir') :
    diskBytes dir' ≤ diskBytes dir + size := by
  obtain ⟨ops, rfl, -, hsize⟩ := h
  refine Nat.le_trans ?_ (Nat.add_le_add_left hsize _)
  clear hsize
  induction ops generalizing dir with
  | nil => exact Nat.le_refl _
  | cons op ops ih =>
      have hfirst := op.diskBytes_apply_le dir
      have hrest : diskBytes (DirOp.applyAll (op.apply dir) ops) ≤
          diskBytes (op.apply dir) + (ops.map DirOp.size).sum := ih
      refine hrest.trans ?_
      rw [List.map_cons, List.sum_cons]
      omega

end Touches

/-! ## The operations of a step -/

def World.recordSize (pj : ProtoJson E) (world : World E) : Event E → Nat
  | .append agent env clock _ =>
      match world.wal, env.bind pj.marshal with
      | some w, some text => (w.nextLine agent text clock.ts).length
      | _, _ => 0
  | .crash agent env clock _ =>
      match world.wal, pj.marshal env with
      | some w, some text => (w.nextLine agent text clock.ts).length
      | _, _ => 0
  | _ => 0

def World.removedFiles (world : World E) : Event E → List String
  | .gc now => world.wal.elim [] fun w => (w.gcRemoved now).map Segment.path
  | _ => []

def Wal.Named (w : Wal) : Prop := ∀ s ∈ w.segments, isSegmentName s.path = true

theorem Wal.Named.cur {w : Wal} (h : w.Named) : isSegmentName w.cur.path = true :=
  h w.cur (List.mem_append_right _ (List.mem_singleton_self _))

section Append

variable {w : Wal} (hnamed : w.Named) (removed : List String) (dir : Directory)

include hnamed

private theorem finishAppend_touches (size : Nat) (clock : AppendClock) (faults : AppendFaults) :
    (w.finishAppend dir size clock faults).2.1.Named ∧
      Touches 0 removed dir (w.finishAppend dir size clock faults).2.2 := by
  have hcur : ∀ s ∈ w.older ++ [{ w.cur with bytes := w.cur.bytes + size, endSeq := w.seq }],
      isSegmentName s.path = true := by
    intro s hs
    rcases List.mem_append.mp hs with hold | hnew
    · exact hnamed s (List.mem_append_left _ hold)
    · rw [List.mem_singleton.mp hnew]
      exact hnamed.cur
  unfold Wal.finishAppend
  dsimp only
  split
  · split
    · exact ⟨hcur, .refl dir⟩
    · refine ⟨?_, .openAppend (isSegmentName_segmentName _) dir clock.opened⟩
      intro s hs
      rcases List.mem_append.mp hs with hold | hnew
      · exact hcur s hold
      · rw [List.mem_singleton.mp hnew]
        exact isSegmentName_segmentName _
  · exact ⟨hcur, .refl dir⟩

private theorem writeRecord_touches (line : Bytes) (clock : AppendClock) (faults : AppendFaults) :
    (w.writeRecord dir line clock faults).2.1.Named ∧
      Touches (line.length + 1) removed dir (w.writeRecord dir line clock faults).2.2 := by
  have hline : Touches line.length removed dir (dir.write w.cur.path line clock.written) :=
    .write hnamed.cur dir line clock.written
  unfold Wal.writeRecord
  split
  · split
    · rename_i written hwrite
      refine ⟨hnamed, (Touches.write hnamed.cur dir (line.take written) clock.written).mono ?_⟩
      rw [List.length_take]
      omega
    · split
      · exact ⟨hnamed, hline.mono (Nat.le_succ _)⟩
      · have hfinish := finishAppend_touches hnamed removed
          ((dir.write w.cur.path line clock.written).write w.cur.path [newline] clock.written)
          (line.length + 1) clock faults
        exact ⟨hfinish.1,
          hline.trans ((Touches.write hnamed.cur _ [newline] clock.written).trans hfinish.2)⟩
  · exact ⟨hnamed, .refl dir⟩

variable (pj) in
private theorem append_touches (agent : String) (env : Option E) (clock : AppendClock)
    (faults : AppendFaults) :
    (w.append pj dir agent env clock faults).2.1.Named ∧
      Touches (((env.bind pj.marshal).map fun text =>
          (w.nextLine agent text clock.ts).length).getD 0) removed dir
        (w.append pj dir agent env clock faults).2.2 := by
  cases henv : env.bind pj.marshal with
  | none =>
      obtain ⟨err, hresult⟩ := append_of_refused henv w dir agent clock faults
      rw [hresult]
      exact ⟨hnamed, .refl dir⟩
  | some text =>
      obtain ⟨env, rfl, htext⟩ := Option.bind_eq_some_iff.mp henv
      have hnext : Wal.Named { w with seq := w.seq + 1 } := hnamed
      simp only [Wal.append, htext, Option.map_some, Option.getD_some, Wal.nextLine,
        List.length_append, List.length_singleton]
      split
      · exact ⟨hnext, .refl dir⟩
      · exact writeRecord_touches hnext removed dir _ clock faults

end Append

private theorem isSegmentName_of_mem_reload {dir : Directory} {s : Segment} (h : s ∈ reload dir) :
    isSegmentName s.path = true := by
  rw [reload, List.mem_insertionSort, List.mem_filterMap] at h
  obtain ⟨entry, hentry, hs⟩ := h
  have hpath : s.path = entry.1 := by
    unfold segmentOfFile at hs
    dsimp only at hs
    split at hs
    · cases hs
      rfl
    · cases hs
  rw [hpath]
  exact (List.mem_filter.mp hentry).2

namespace World

variable {world next : World E} {ev : Event E}

def Named (world : World E) : Prop := ∀ w, world.wal = some w → w.Named

theorem step_touches (h : world.Named) (hstep : world.step pj ev = some next) :
    next.Named ∧
      Touches (world.recordSize pj ev) (world.removedFiles ev) world.dir next.dir := by
  cases ev with
  | openLog opts now =>
      simp only [step, openLog, openWal] at hstep
      split at hstep
      · cases hstep
      · rename_i w dir hopen
        split at hopen
        · cases hopen
        · cases hopen
          cases hstep
          refine ⟨?_, .openAppend (isSegmentName_segmentName _) world.dir now⟩
          rintro w ⟨⟩ s hs
          rcases List.mem_append.mp hs with hold | hnew
          · exact isSegmentName_of_mem_reload hold
          · rw [List.mem_singleton.mp hnew]
            exact isSegmentName_segmentName _
  | append agent env clock faults =>
      obtain ⟨w, hwal, rfl⟩ := Option.map_eq_some_iff.mp hstep
      obtain ⟨hnamed, htouches⟩ :=
        append_touches pj (h w hwal) [] world.dir agent env clock faults
      refine ⟨?_, ?_⟩
      · rintro w' ⟨⟩
        exact hnamed
      · simp only [recordSize, hwal]
        cases henv : env.bind pj.marshal with
        | none =>
            rw [henv] at htouches
            exact htouches
        | some text =>
            rw [henv] at htouches
            exact htouches
  | gc now =>
      obtain ⟨w, hwal, rfl⟩ := Option.map_eq_some_iff.mp hstep
      have hnamed := h w hwal
      refine ⟨?_, ?_⟩
      · rintro w' ⟨⟩ s hs
        exact hnamed s (Layout.mem_segments_of_gc hs)
      · simp only [removedFiles, hwal, Option.elim_some]
        refine .removeAll ?_ world.dir
        intro name hname
        obtain ⟨s, hs, rfl⟩ := List.mem_map.mp hname
        exact hnamed s (List.mem_append_left _ (Wal.gcRemoved_subset hs))
  | close =>
      obtain ⟨w, hwal, rfl⟩ := Option.map_eq_some_iff.mp hstep
      refine ⟨?_, .refl _⟩
      rintro w' ⟨⟩
      exact h w hwal
  | crash agent env clock written =>
      obtain ⟨w, hwal, hcrash⟩ := Option.bind_eq_some_iff.mp hstep
      simp only [crash] at hcrash
      split at hcrash
      · obtain ⟨text, htext, rfl⟩ := Option.map_eq_some_iff.mp hcrash
        refine ⟨by simp [Named], ?_⟩
        simp only [recordSize, hwal, htext]
        refine (Touches.write (h w hwal).cur _ _ _).mono ?_
        rw [List.length_take]
        omega
      · cases hcrash

private theorem run_lookup_of_other {events : List (Event E)} (h : world.Named)
    (hrun : run (step pj) world events = some next) {name : String}
    (hname : isSegmentName name = false) : next.dir.lookup name = world.dir.lookup name := by
  have hstart : world.Named ∧ world.dir.lookup name = world.dir.lookup name := ⟨h, rfl⟩
  refine (run_invariant (fun t : World E => t.Named ∧ t.dir.lookup name = world.dir.lookup name)
    ?_ hstart hrun).2
  rintro s ev t ⟨hnamed, hlookup⟩ hstep
  obtain ⟨hnamed', htouches⟩ := step_touches hnamed hstep
  exact ⟨hnamed', (htouches.lookup_of_other hname).trans hlookup⟩

private theorem run_lookup_extends {events : List (Event E)} (h : world.Named)
    (hrun : run (step pj) world events = some next) {name : String} {file : File}
    (hfile : world.dir.lookup name = some file) :
    (∃ file', next.dir.lookup name = some file' ∧ file.data <+: file'.data) ∨
      ∃ before now after middle, events = before ++ .gc now :: after ∧
        run (step pj) world before = some middle ∧ name ∈ middle.removedFiles (.gc now) := by
  induction events generalizing world file with
  | nil =>
      cases hrun
      exact .inl ⟨file, hfile, List.prefix_refl _⟩
  | cons ev events ih =>
      obtain ⟨middle, hstep, hrest⟩ := run_cons_eq_some.mp hrun
      obtain ⟨hnamed, htouches⟩ := step_touches h hstep
      by_cases hremoved : name ∈ world.removedFiles ev
      · cases ev with
        | gc now => exact .inr ⟨[], now, events, world, rfl, rfl, hremoved⟩
        | _ => cases hremoved
      · obtain ⟨file', hfile', hextends⟩ := htouches.lookup_extends hremoved hfile
        rcases ih hnamed hrest hfile' with ⟨last, hlast, hextends'⟩ |
          ⟨before, now, after, chosen, rfl, hbefore, hname⟩
        · exact .inl ⟨last, hlast, hextends.trans hextends'⟩
        · exact .inr ⟨ev :: before, now, after, chosen, rfl,
            run_cons_eq_some.mpr ⟨middle, hstep, hbefore⟩, hname⟩

theorem Named.run {events : List (Event E)} (h : world.Named)
    (hrun : Foundation.run (step pj) world events = some next) : next.Named :=
  run_invariant Named (fun _ _ _ h hstep => (step_touches h hstep).1) h hrun

/-- Files of other names are left alone, and the bytes that a file has at any moment stay
where they are until a `GC` removes it, whatever fails and wherever the process dies. -/
theorem wal_touches_own_files {middle : World E} {past events : List (Event E)}
    (hclosed : world.wal = none) (hpast : run (step pj) world past = some middle)
    (hrun : run (step pj) middle events = some next) :
    (∀ name, isSegmentName name = false → next.dir.lookup name = world.dir.lookup name) ∧
      ∀ name file, middle.dir.lookup name = some file →
        (∃ file', next.dir.lookup name = some file' ∧ file.data <+: file'.data) ∨
          ∃ before now after chosen, events = before ++ .gc now :: after ∧
            run (step pj) middle before = some chosen ∧
              name ∈ chosen.removedFiles (.gc now) := by
  have hnamed : world.Named := by simp [Named, hclosed]
  have hwhole : run (step pj) world (past ++ events) = some next :=
    run_append_eq_some.mpr ⟨middle, hpast, hrun⟩
  exact ⟨fun name hname => run_lookup_of_other hnamed hwhole hname,
    fun name file hfile => run_lookup_extends (hnamed.run hpast) hrun hfile⟩

def sharedDirectory : World Unit :=
  ⟨((∅ : Directory).insert "notes.txt" ⟨[1, 2], 0⟩).insert (segmentName 1) ⟨[123], 0⟩,
    none, [], [], 0⟩

theorem wal_touches_own_files_shared : ∃ middle next,
    run (step emptyMessage) sharedDirectory [.openLog tinySegments 1,
      .append "node-a" (some ()) ⟨2, 2, 2⟩ ⟨false, none, false, false⟩] = some middle ∧
    run (step emptyMessage) middle [
      .append "node-a" (some ()) ⟨3, 3, 3⟩ ⟨false, some 3, false, false⟩,
      .crash "node-a" () ⟨4, 4, 4⟩ 5] = some next ∧
    next.dir.lookup "notes.txt" = some ⟨[1, 2], 0⟩ ∧
      ∀ name file, middle.dir.lookup name = some file →
        ∃ file', next.dir.lookup name = some file' ∧ file.data <+: file'.data := by
  have hsome : (run (step emptyMessage) sharedDirectory ([.openLog tinySegments 1,
      .append "node-a" (some ()) ⟨2, 2, 2⟩ ⟨false, none, false, false⟩] ++
      [.append "node-a" (some ()) ⟨3, 3, 3⟩ ⟨false, some 3, false, false⟩,
      .crash "node-a" () ⟨4, 4, 4⟩ 5])).isSome = true := by
    decide +kernel
  obtain ⟨next, hnext⟩ := Option.isSome_iff_exists.mp hsome
  obtain ⟨middle, hmiddle, hlater⟩ := run_append_eq_some.mp hnext
  obtain ⟨hother, hown⟩ := wal_touches_own_files rfl hmiddle hlater
  refine ⟨middle, next, hmiddle, hlater,
    (hother "notes.txt" (by decide)).trans (by decide +kernel), ?_⟩
  intro name file hfile
  rcases hown name file hfile with hextends | ⟨before, now, after, chosen, hevents, -⟩
  · exact hextends
  · have hmem : (Event.gc now : Event Unit) ∈ before ++ .gc now :: after :=
      List.mem_append_right _ List.mem_cons_self
    rw [← hevents] at hmem
    simp at hmem

end World

/-! ## How much the files take up -/

theorem diskBytes_eq {dir : Directory} {segs : List Segment}
    (hnodup : (segs.map Segment.path).Nodup)
    (hsize : ∀ s ∈ segs, ∃ file, dir.lookup s.path = some file ∧ s.bytes = file.data.length)
    (hblank : ∀ name file, dir.lookup name = some file → (∀ s ∈ segs, s.path ≠ name) →
      file.data = []) :
    (diskBytes dir : Int) = totalBytes segs := by
  induction segs generalizing dir with
  | nil =>
      have hempty : ∀ e ∈ dir.entries, e.2.data.length = 0 := by
        rintro ⟨name, file⟩ he
        rw [hblank name file (GoMap.mem_entries_iff.mp he) (by simp)]
        rfl
      have hzero : diskBytes dir = 0 := by
        refine List.sum_eq_zero fun size hsize => ?_
        obtain ⟨e, he, rfl⟩ := List.mem_map.mp hsize
        exact hempty e he
      rw [hzero]
      rfl
  | cons s segs ih =>
      rw [List.map_cons, List.nodup_cons] at hnodup
      obtain ⟨file, hfile, hbytes⟩ := hsize s List.mem_cons_self
      have hne : ∀ t ∈ segs, t.path ≠ s.path := fun t ht heq =>
        hnodup.1 (List.mem_map.mpr ⟨t, ht, heq⟩)
      have hrest : (diskBytes (dir.erase s.path) : Int) = totalBytes segs := by
        refine ih hnodup.2 ?_ ?_
        · intro t ht
          rw [AList.lookup_erase_ne (hne t ht)]
          exact hsize t (List.mem_cons_of_mem _ ht)
        · intro name file' hfile' hothers
          by_cases hname : name = s.path
          · subst hname
            rw [AList.lookup_erase] at hfile'
            cases hfile'
          · rw [AList.lookup_erase_ne hname] at hfile'
            refine hblank name file' hfile' fun t ht => ?_
            rcases List.mem_cons.mp ht with rfl | ht
            · exact Ne.symm hname
            · exact hothers t ht
      have htotal := GoMap.total_erase (fun file => file.data.length) dir s.path
      simp only [hfile, Option.map_some, Option.getD_some] at htotal
      rw [totalBytes_cons, ← hrest, hbytes]
      unfold diskBytes
      omega

private theorem nodup_paths {dir : Directory} {segs : List Segment} {log : List (Entry E)}
    (h : Holds pj dir segs log) : (segs.map Segment.path).Nodup := by
  rw [List.Nodup, List.pairwise_map]
  refine h.ordered.imp_of_mem fun ha hb hlt heq => ?_
  rw [h.path _ ha, h.path _ hb] at heq
  have hstart := segmentName_injective heq
  omega

theorem World.diskBytes_eq {world : World E} {log : List (Entry E)}
    (hretained : world.Retained pj log) (hsized : Sized world.dir world.segments) :
    (diskBytes world.dir : Int) = totalBytes world.segments :=
  Envwal.diskBytes_eq (nodup_paths hretained.holds) hsized.size hsized.blank

/-- What `GC` brings the files down to. The segment in use is never removed, so a `MaxBytes`
below the size of a segment is not kept to. -/
def Options.cap (opts : Options) : Int :=
  max opts.withDefaults.maxBytes (opts.withDefaults.segmentSize - 1)

theorem Options.segmentSize_pos (opts : Options) : 0 < opts.withDefaults.segmentSize := by
  simp only [withDefaults]
  split <;> omega

theorem Options.cap_nonneg (opts : Options) : 0 ≤ opts.cap :=
  (Int.le_sub_one_of_lt opts.segmentSize_pos).trans (le_max_right _ _)

def Event.opensWith (opts : Options) : Event E → Bool
  | .openLog opts' _ => opts' == opts
  | _ => true

def Event.isGC : Event E → Bool
  | .gc _ => true
  | _ => false

namespace World

variable {opts : Options} {world next : World E} {ev : Event E}

def Roomy (opts : Options) (world : World E) : Prop :=
  ∀ w, world.wal = some w →
    w.opts = opts.withDefaults ∧ (w.cur.bytes : Int) < opts.withDefaults.segmentSize

theorem Roomy.step (h : world.Roomy opts) (hopens : ev.opensWith opts = true)
    (hstep : SafeStep pj world ev next) : next.Roomy opts := by
  cases hstep with
  | openLog hopen =>
      have hopts := beq_iff_eq.mp hopens
      subst hopts
      unfold openWal at hopen
      split at hopen
      · cases hopen
      · cases hopen
        rintro w' ⟨⟩
        exact ⟨rfl, Options.segmentSize_pos _⟩
  | @append w agent env text clock hwal hopen htext =>
      obtain ⟨hopts, hroom⟩ := h w hwal
      rintro w' ⟨⟩
      rw [append_eq world.dir hopen agent htext clock]
      dsimp only
      split
      · exact ⟨hopts, Options.segmentSize_pos opts⟩
      · rename_i hsize
        rw [hopts] at hsize
        exact ⟨hopts, Int.not_le.mp hsize⟩
  | refused hwal hopen henv => exact h
  | @gc w now hwal =>
      obtain ⟨hopts, hroom⟩ := h w hwal
      rintro w' ⟨⟩
      exact ⟨hopts, hroom⟩
  | @close w hwal =>
      obtain ⟨hopts, hroom⟩ := h w hwal
      rintro w' ⟨⟩
      exact ⟨hopts, hroom⟩

private theorem diskBytes_gc_le {w : Wal} {log log' : List (Entry E)} {now : Int}
    (h : world.Roomy opts) (hwal : world.wal = some w) (hretained : world.Retained pj log)
    (hretained' : (world.gc w now).Retained pj log')
    (hsized' : Sized (world.gc w now).dir (world.gc w now).segments) :
    (diskBytes (world.gc w now).dir : Int) ≤ opts.cap := by
  obtain ⟨hopts, hroom⟩ := h w hwal
  rw [World.diskBytes_eq hretained' hsized']
  rcases (hretained.keeps.layout w hwal).longest_gc now with ⟨hfits, -⟩ | ⟨-, honly⟩
  · have htotal := hfits.total_le
    rw [hopts] at htotal
    exact htotal.trans (le_max_left _ _)
  · change totalBytes (w.gc world.dir now).1.segments ≤ opts.cap
    rw [honly, totalBytes_cons]
    simp only [totalBytes, List.map_nil, List.sum_nil, Int.add_zero]
    exact (Int.le_sub_one_of_lt hroom).trans (le_max_right _ _)

/-- A log without failures that is always opened with the same options. -/
structure Tidy (pj : ProtoJson E) (opts : Options) (world : World E) : Prop where
  retained : ∃ log, world.Retained pj log
  sized : Sized world.dir world.segments
  named : world.Named
  roomy : world.Roomy opts

theorem Tidy.empty (pj : ProtoJson E) (opts : Options) (start : Int) :
    (World.empty start : World E).Tidy pj opts :=
  ⟨⟨[], .empty start⟩, .nil, by simp [Named, World.empty], by simp [Roomy, World.empty]⟩

theorem Tidy.step (h : world.Tidy pj opts) (hopens : ev.opensWith opts = true)
    (hstep : world.timedStep pj ev = some next) :
    next.Tidy pj opts ∧
      (diskBytes next.dir : Int) ≤ diskBytes world.dir + world.recordSize pj ev ∧
      (ev.isGC = true → (diskBytes next.dir : Int) ≤ opts.cap) := by
  obtain ⟨hclock, hsafeStep⟩ := restrict_eq_some.mp hstep
  have hsafe := safeStep_of_safeStep hsafeStep
  obtain ⟨log, hretained⟩ := h.retained
  obtain ⟨log', hretained'⟩ := hretained.step hclock hsafe
  have hsized := h.sized.step hretained hsafe
  obtain ⟨hnamed, htouches⟩ := step_touches h.named (restrict_eq_some.mp hsafeStep).2
  refine ⟨⟨⟨log', hretained'⟩, hsized, hnamed, h.roomy.step hopens hsafe⟩, ?_, ?_⟩
  · have hgrows := htouches.diskBytes_le
    omega
  · intro hgc
    cases hsafe with
    | gc hwal => exact diskBytes_gc_le h.roomy hwal hretained hretained' hsized
    | _ => cases hgc

end World

structure Metered (E : Type) where
  world : World E
  since : Nat

namespace Metered

variable {opts : Options} {m n : Metered E}

def step (pj : ProtoJson E) (opts : Options) (m : Metered E) (ev : Event E) :
    Option (Metered E) :=
  if ev.opensWith opts then
    (m.world.timedStep pj ev).map fun next =>
      ⟨next, if ev.isGC then 0 else m.since + m.world.recordSize pj ev⟩
  else none

structure Kept (pj : ProtoJson E) (opts : Options) (m : Metered E) : Prop where
  tidy : m.world.Tidy pj opts
  bounded : (diskBytes m.world.dir : Int) ≤ opts.cap + m.since

theorem Kept.step {ev : Event E} (h : m.Kept pj opts) (hstep : m.step pj opts ev = some n) :
    n.Kept pj opts := by
  simp only [Metered.step] at hstep
  split at hstep
  · rename_i hopens
    obtain ⟨next, htimed, rfl⟩ := Option.map_eq_some_iff.mp hstep
    obtain ⟨htidy, hgrows, hcap⟩ := h.tidy.step hopens htimed
    refine ⟨htidy, ?_⟩
    cases hgc : ev.isGC with
    | true =>
        simp only [if_true, Int.natCast_zero, Int.add_zero]
        exact hcap hgc
    | false =>
        have hbounded := h.bounded
        simp only [Bool.false_eq_true, if_false]
        push_cast
        omega
  · cases hstep

theorem kept_run {start : Int} {events : List (Event E)}
    (hrun : run (Metered.step pj opts) ⟨World.empty start, 0⟩ events = some m) :
    m.Kept pj opts := by
  refine run_invariant (Kept pj opts) (fun _ _ _ h hstep => h.step hstep) ⟨.empty pj opts start, ?_⟩
    hrun
  have hnone : diskBytes (World.empty start : World E).dir = 0 := rfl
  rw [hnone]
  simpa using opts.cap_nonneg

/-- At any moment the files take up no more than `MaxBytes`, or one segment, and what was
appended since the last `GC`. -/
theorem disk_footprint_bounded {start : Int} {events : List (Event E)}
    (hrun : run (Metered.step pj opts) ⟨World.empty start, 0⟩ events = some m) :
    (diskBytes m.world.dir : Int) ≤ opts.cap + m.since :=
  (kept_run hrun).bounded

def smallCap : Options := ⟨"wal", 60, 1, 1000⟩

theorem disk_footprint_bounded_smallCap : ∃ m : Metered Unit,
    run (Metered.step emptyMessage smallCap) ⟨World.empty 0, 0⟩ [.openLog smallCap 1,
      .append "node-a" (some ()) ⟨2, 2, 2⟩ .none, .append "node-b" (some ()) ⟨3, 3, 3⟩ .none,
      .gc 4, .append "node-c" (some ()) ⟨5, 5, 5⟩ .none] = some m ∧
    m.since = 51 ∧ (diskBytes m.world.dir : Int) ≤ 60 + 51 := by
  have hvalues : (run (Metered.step emptyMessage smallCap) ⟨World.empty 0, 0⟩
      [.openLog smallCap 1, .append "node-a" (some ()) ⟨2, 2, 2⟩ .none,
        .append "node-b" (some ()) ⟨3, 3, 3⟩ .none, .gc 4,
        .append "node-c" (some ()) ⟨5, 5, 5⟩ .none]).map (fun m => m.since) = some 51 := by
    decide +kernel
  obtain ⟨m, hm, hsince⟩ := Option.map_eq_some_iff.mp hvalues
  have hbounded := disk_footprint_bounded hm
  rw [hsince] at hbounded
  exact ⟨m, hm, hsince, hbounded⟩

end Metered

end KloudlensAggregator.Envwal
