import KloudlensAggregator.Envwal.Retention

/-!
# What GC removes

The size loop of `GC` drops segments from the old end while the total is above
the limit, so what it leaves is the longest suffix within the limit.  The total
is that of the sizes the WAL keeps for its segments, and in a run without
failure each of them is the length of the file, also for the segments that a
reload found.
-/

namespace KloudlensAggregator.Envwal

open KloudlensAggregator.Foundation
open KloudlensAggregator.Foundation.Json

variable {E : Type} {pj : ProtoJson E} {world next : World E} {log : List (Entry E)}
  {dir : Directory} {segs : List Segment} {w : Wal}

/-! ## The size loop -/

theorem totalBytes_cons (s : Segment) (segs : List Segment) :
    totalBytes (s :: segs) = s.bytes + totalBytes segs := by
  simp [totalBytes]

theorem trimOverflow_longest (maxBytes : Int) (older : List Segment) (cur : Segment) :
    let kept := (trimOverflow maxBytes (totalBytes (older ++ [cur])) older).1
    (kept = [] ∨ totalBytes (kept ++ [cur]) ≤ maxBytes) ∧
      ∀ other, other <:+ older → totalBytes (other ++ [cur]) ≤ maxBytes → other <:+ kept := by
  induction older with
  | nil => exact ⟨.inl rfl, fun other hother _ => hother⟩
  | cons victim rest ih =>
      simp only [List.cons_append, totalBytes_cons, trimOverflow]
      split
      · rename_i hover
        rw [add_sub_cancel_left]
        refine ⟨ih.1, fun other hother hfits => ?_⟩
        rcases List.suffix_cons_iff.mp hother with rfl | hother
        · rw [List.cons_append, totalBytes_cons] at hfits
          omega
        · exact ih.2 other hother hfits
      · rename_i hfits
        refine ⟨.inr ?_, fun other hother _ => hother⟩
        rw [List.cons_append, totalBytes_cons]
        omega

/-! ## Sizes -/

/-- The sizes of the segments are those of their files; a segment without a record
and a file of no segment are empty. -/
structure Sized (dir : Directory) (segs : List Segment) : Prop where
  size : ∀ s ∈ segs, ∃ file, dir.lookup s.path = some file ∧ s.bytes = file.data.length
  empty : ∀ s ∈ segs, s.endSeq < s.startSeq → s.bytes = 0
  blank : ∀ name file, dir.lookup name = some file → (∀ s ∈ segs, s.path ≠ name) →
    file.data = []

namespace Sized

theorem nil : Sized ∅ [] := by
  constructor <;> simp

theorem openSegment (h : Sized dir segs) {seq : Nat}
    (hfresh : ∀ s ∈ segs, s.path ≠ segmentName (seq + 1)) (now : Int) :
    Sized (Envwal.openSegment seq dir now).2
      (segs ++ [(Envwal.openSegment seq dir now).1]) := by
  simp only [Envwal.openSegment]
  constructor
  · intro s hs
    rcases List.mem_append.mp hs with hs | hs
    · rw [Directory.lookup_openAppend_of_ne (hfresh s hs)]
      exact h.size s hs
    · rw [List.mem_singleton.mp hs]
      refine ⟨_, Directory.lookup_openAppend_self dir _ now, ?_⟩
      cases hfile : dir.lookup (segmentName (seq + 1)) with
      | none => rfl
      | some file => simp [h.blank _ file hfile hfresh]
  · intro s hs hempty
    rcases List.mem_append.mp hs with hs | hs
    · exact h.empty s hs hempty
    · rw [List.mem_singleton.mp hs]
  · intro name file hfile hnot
    have hname : name ≠ segmentName (seq + 1) := by
      rintro rfl
      exact hnot _ (List.mem_append_right segs (List.mem_singleton_self _)) rfl
    rw [Directory.lookup_openAppend_of_ne hname] at hfile
    exact h.blank name file hfile fun s hs => hnot s (List.mem_append_left _ hs)

theorem reload (h : Sized dir segs) :
    Sized dir ((segs.filter fun s => s.startSeq ≤ s.endSeq).map (Segment.refresh dir)) := by
  constructor
  · intro s hs
    obtain ⟨t, ht, rfl⟩ := List.mem_map.mp hs
    obtain ⟨file, hfile, -⟩ := h.size t (List.mem_of_mem_filter ht)
    refine ⟨file, by rw [Segment.refresh_path, hfile], ?_⟩
    simp [Segment.refresh, hfile]
  · intro s hs hempty
    obtain ⟨t, ht, rfl⟩ := List.mem_map.mp hs
    have hrange := of_decide_eq_true (List.mem_filter.mp ht).2
    rw [Segment.refresh_startSeq, Segment.refresh_endSeq] at hempty
    omega
  · intro name file hfile hnot
    by_cases hname : ∃ t ∈ segs, t.path = name
    · obtain ⟨t, ht, rfl⟩ := hname
      have hempty : t.endSeq < t.startSeq := by
        by_contra hrange
        apply hnot (t.refresh dir) _ (Segment.refresh_path dir t)
        apply List.mem_map_of_mem
        exact List.mem_filter.mpr ⟨ht, decide_eq_true (Nat.le_of_not_lt hrange)⟩
      obtain ⟨file', hfile', hsize⟩ := h.size t ht
      rw [hfile] at hfile'
      cases hfile'
      rw [h.empty t ht hempty] at hsize
      exact List.eq_nil_of_length_eq_zero hsize.symm
    · apply h.blank name file hfile
      intro t ht heq
      exact hname ⟨t, ht, heq⟩

theorem openWal (h : Sized dir segs) {dir' : Directory} {now : Int}
    (hlayout : Layout pj dir' w log)
    (holder : w.older = (segs.filter fun s => s.startSeq ≤ s.endSeq).map (Segment.refresh dir))
    (hcur : w.cur = (Envwal.openSegment w.seq dir now).1)
    (hdir : dir' = (Envwal.openSegment w.seq dir now).2) : Sized dir' w.segments := by
  have hfresh : ∀ s ∈ w.older, s.path ≠ segmentName (w.seq + 1) := by
    intro s hs
    have := hlayout.path_ne_cur hs
    rwa [hcur] at this
  have hreload := h.reload
  rw [← holder] at hreload
  rw [hdir, Wal.segments, hcur]
  exact hreload.openSegment hfresh now

theorem appendedTo (h : Sized dir w.segments) (hlayout : Layout pj dir w log) (line : Bytes)
    (now : Int) :
    Sized (w.writeLine dir line now) (w.appendedTo (line.length + 1)).segments := by
  constructor
  · intro s hs
    rcases List.mem_append.mp hs with hs | hs
    · rw [Wal.lookup_writeLine_of_ne (hlayout.path_ne_cur hs)]
      exact h.size s (Layout.mem_older hs)
    · obtain ⟨file, hfile, hsize⟩ := h.size w.cur (Layout.mem_cur w)
      rw [List.mem_singleton.mp hs]
      refine ⟨_, Wal.lookup_writeLine_self hfile line now, ?_⟩
      simp [Wal.appendedTo, hsize]
  · intro s hs hempty
    rcases List.mem_append.mp hs with hs | hs
    · exact h.empty s (Layout.mem_older hs) hempty
    · rw [List.mem_singleton.mp hs] at hempty
      have hrange := (hlayout.holds.range w.cur (Layout.mem_cur w)).2.1
      have hend := hlayout.cur_end
      have hseq := hlayout.seq_eq
      simp only [Wal.appendedTo] at hempty
      omega
  · intro name file hfile hnot
    have hname : name ≠ w.cur.path := by
      rintro rfl
      exact hnot _ (Layout.mem_cur (w.appendedTo _)) rfl
    rw [Wal.lookup_writeLine_of_ne hname] at hfile
    apply h.blank name file hfile
    intro s hs
    rcases List.mem_append.mp hs with hs | hs
    · exact hnot s (Layout.mem_older hs)
    · rw [List.mem_singleton.mp hs]
      exact hname.symm

theorem append (h : Sized dir w.segments) (hlayout : Layout pj dir w log)
    (hopen : w.curOpen = true) (agent : String) {env : E} {text : Bytes}
    (htext : pj.marshal env = some text) (clock : AppendClock) :
    Sized (w.append pj dir agent (some env) clock .none).2.2
      (w.append pj dir agent (some env) clock .none).2.1.segments := by
  have hnext := h.appendedTo hlayout (marshalEntry ⟨w.seq + 1, agent, text, clock.ts⟩)
    clock.written
  rcases hlayout.append_cases hopen agent htext clock with heq | ⟨hfresh, heq⟩
  · rw [heq]
    exact hnext
  · rw [heq]
    exact hnext.openSegment hfresh clock.opened

theorem gc (h : Sized dir w.segments) (hlayout : Layout pj dir w log) (now : Int) :
    Sized (w.gc dir now).2 (w.gc dir now).1.segments := by
  constructor
  · intro s hs
    obtain ⟨file, hfile, hsize⟩ := h.size s (Layout.mem_segments_of_gc hs)
    refine ⟨file, ?_, hsize⟩
    rw [Wal.gc, Directory.lookup_removeAll, if_neg (hlayout.path_not_mem_gcRemoved hs), hfile]
  · exact fun s hs => h.empty s (Layout.mem_segments_of_gc hs)
  · intro name file hfile hnot
    rw [Wal.gc, Directory.lookup_removeAll] at hfile
    split at hfile
    · cases hfile
    · rename_i hname
      apply h.blank name file hfile
      intro s hs heq
      rcases List.mem_append.mp hs with hs | hs
      · rcases Wal.mem_gcRemoved_or hs now with hkept | hremoved
        · exact hnot s (List.mem_append_left _ hkept) heq
        · exact hname (List.mem_map.mpr ⟨s, hremoved, heq⟩)
      · exact hnot s (List.mem_append_right _ hs) heq

theorem step {ev : Event E} (h : Sized world.dir world.segments)
    (hretained : world.Retained pj log) (hstep : SafeStep pj world ev next) :
    Sized next.dir next.segments := by
  cases hstep with
  | openLog hopen =>
      obtain ⟨hlayout, holder, -, -, hcur, hdir⟩ :=
        openWal_layout hopen hretained.holds hretained.keeps.dense
      exact h.openWal hlayout holder hcur hdir
  | append hwal hopen htext =>
      rw [World.segments_of_wal hwal] at h
      exact h.append (hretained.keeps.layout _ hwal) hopen _ htext _
  | refused hwal hopen henv => exact h
  | gc hwal =>
      rw [World.segments_of_wal hwal] at h
      exact h.gc (hretained.keeps.layout _ hwal) _
  | close hwal =>
      rw [World.segments_of_wal hwal] at h
      exact h

end Sized

theorem run_sized {events : List (Event E)} {now : Int}
    (hrun : run (World.timedStep pj) (World.empty now) events = some world) :
    (∃ log, world.Retained pj log) ∧ Sized world.dir world.segments := by
  apply run_invariant (fun world : World E =>
    (∃ log, world.Retained pj log) ∧ Sized world.dir world.segments) _
    ⟨⟨[], .empty now⟩, .nil⟩ hrun
  rintro world ev next ⟨⟨log, hretained⟩, hsized⟩ hstep
  obtain ⟨hclock, hsafe⟩ := restrict_eq_some.mp hstep
  have hstep' := safeStep_of_safeStep hsafe
  exact ⟨hretained.step hclock hstep', hsized.step hretained hstep'⟩

/-! ## The theorem -/

def Wal.candidates (w : Wal) (now : Int) : List Segment :=
  w.segments.filter fun s => !isExpired w.opts.ttl now s || s == w.cur

structure Fits (maxBytes : Int) (segs kept : List Segment) : Prop where
  nonempty : kept ≠ []
  suffix : kept <:+ segs
  total_le : totalBytes kept ≤ maxBytes

/-- What `GC` at a time does to the segments of a WAL and to their files. -/
structure Trims (w : Wal) (dir : Directory) (now : Int) (w' : Wal) (dir' : Directory) :
    Prop where
  longest : (Fits w.opts.maxBytes (w.candidates now) w'.segments ∧
      ∀ other, Fits w.opts.maxBytes (w.candidates now) other →
        other.length ≤ w'.segments.length) ∨
    ((∀ other, ¬ Fits w.opts.maxBytes (w.candidates now) other) ∧ w'.segments = [w.cur])
  suffix : w'.segments <:+ w.segments
  ends_current : w'.segments.getLast? = some w.cur
  deleted : ∀ s ∈ w.segments, s ∉ w'.segments → dir'.lookup s.path = none
  unchanged : ∀ s ∈ w'.segments, dir'.lookup s.path = dir.lookup s.path
  no_other : ∀ name, (∀ s ∈ w.segments, s ∉ w'.segments → s.path ≠ name) →
    dir'.lookup name = dir.lookup name
  overflow : w'.overflowTrims = w.overflowTrims + (w.segments.filter fun s =>
    !isExpired w.opts.ttl now s && !w'.segments.contains s).length
  bytes : ∀ s ∈ w.segments, ∃ file, dir.lookup s.path = some file ∧
    s.bytes = file.data.length

theorem Layout.candidates_eq (h : Layout pj dir w log) (now : Int) :
    w.candidates now = w.unexpired now ++ [w.cur] := by
  have holder : ∀ s ∈ w.older, (!isExpired w.opts.ttl now s || s == w.cur) =
      !isExpired w.opts.ttl now s := by
    intro s hs
    have hne : s ≠ w.cur := by
      rintro rfl
      exact h.cur_not_mem_older hs
    simp [hne]
  rw [Wal.candidates, Wal.segments, List.filter_append, List.filter_congr holder]
  simp [Wal.unexpired]

theorem Layout.mem_gcRemoved_iff (h : Layout pj dir w log) {now : Int} {s : Segment} :
    s ∈ w.gcRemoved now ↔ s ∈ w.segments ∧ s ∉ (w.gc dir now).1.segments := by
  constructor
  · intro hs
    exact ⟨Layout.mem_older (Wal.gcRemoved_subset hs), fun hkept => h.not_mem_gcRemoved hkept hs⟩
  · rintro ⟨hs, hnot⟩
    rcases List.mem_append.mp hs with hs | hs
    · rcases Wal.mem_gcRemoved_or hs now with hkept | hremoved
      · exact absurd (List.mem_append_left _ hkept) hnot
      · exact hremoved
    · exact absurd (List.mem_append_right _ hs) hnot

theorem Layout.longest_gc (h : Layout pj dir w log) (now : Int) :
    (Fits w.opts.maxBytes (w.candidates now) (w.gc dir now).1.segments ∧
      ∀ other, Fits w.opts.maxBytes (w.candidates now) other →
        other.length ≤ (w.gc dir now).1.segments.length) ∨
    ((∀ other, ¬ Fits w.opts.maxBytes (w.candidates now) other) ∧
      (w.gc dir now).1.segments = [w.cur]) := by
  obtain ⟨hkept, hlongest⟩ :=
    trimOverflow_longest w.opts.maxBytes (w.unexpired now) w.cur
  have hsegments : (w.gc dir now).1.segments = (w.trimmed now).1 ++ [w.cur] := rfl
  have hsuffix : (w.gc dir now).1.segments <:+ w.candidates now := by
    rw [h.candidates_eq, hsegments, w.unexpired_eq now, List.append_assoc]
    exact List.suffix_append _ _
  have hother : ∀ other, Fits w.opts.maxBytes (w.candidates now) other →
      ∃ front, other = front ++ [w.cur] ∧ front <:+ (w.trimmed now).1 := by
    intro other hfits
    have hends := hfits.suffix
    rw [h.candidates_eq] at hends
    rcases List.suffix_concat_iff.mp hends with hnil | ⟨front, rfl, hfront⟩
    · exact absurd hnil hfits.nonempty
    · exact ⟨front, rfl, hlongest front hfront hfits.total_le⟩
  by_cases hfits : totalBytes (w.gc dir now).1.segments ≤ w.opts.maxBytes
  · left
    refine ⟨⟨by simp [hsegments], hsuffix, hfits⟩, fun other hfits => ?_⟩
    obtain ⟨front, rfl, hfront⟩ := hother other hfits
    simpa [hsegments] using hfront.length_le
  · right
    have hnil : (w.trimmed now).1 = [] := hkept.resolve_right hfits
    refine ⟨fun other hother' => ?_, by simp [hsegments, hnil]⟩
    obtain ⟨front, rfl, hfront⟩ := hother other hother'
    rw [hnil] at hfront
    rw [List.suffix_nil.mp hfront] at hother'
    rw [hsegments, hnil] at hfits
    exact hfits hother'.total_le

theorem Layout.overflow_gc (h : Layout pj dir w log) {now : Int}
    (hsplit : w.segments = w.gcRemoved now ++ (w.gc dir now).1.segments) :
    w.segments.filter (fun s => !isExpired w.opts.ttl now s &&
      !(w.gc dir now).1.segments.contains s) = (w.trimmed now).2 := by
  have hexpired : (w.expired now).filter (fun s => !isExpired w.opts.ttl now s &&
      !(w.gc dir now).1.segments.contains s) = [] := by
    apply List.filter_eq_nil_iff.mpr
    intro s hs
    simp [(List.mem_filter.mp hs).2]
  have hvictims : (w.trimmed now).2.filter (fun s => !isExpired w.opts.ttl now s &&
      !(w.gc dir now).1.segments.contains s) = (w.trimmed now).2 := by
    apply List.filter_eq_self.mpr
    intro s hs
    have hunexpired : s ∈ w.unexpired now := by
      rw [w.unexpired_eq now]
      exact List.mem_append_left _ hs
    have hgone := (h.mem_gcRemoved_iff.mp (List.mem_append_right (w.expired now) hs)).2
    simp [(List.mem_filter.mp hunexpired).2, hgone]
  have hkept : (w.gc dir now).1.segments.filter (fun s => !isExpired w.opts.ttl now s &&
      !(w.gc dir now).1.segments.contains s) = [] := by
    apply List.filter_eq_nil_iff.mpr
    intro s hs
    simp [hs]
  rw [hsplit, Wal.gcRemoved, List.filter_append, List.filter_append, hexpired, hvictims, hkept,
    List.nil_append, List.append_nil]

/-- In every state that a run without failure reaches under a clock that does not run
backwards, whatever the limits are. -/
theorem gc_keeps_longest_suffix {events : List (Event E)} {start : Int}
    (hrun : run (World.timedStep pj) (World.empty start) events = some world)
    (hwal : world.wal = some w) (now : Int) :
    Trims w world.dir now (w.gc world.dir now).1 (w.gc world.dir now).2 := by
  obtain ⟨⟨log, hretained⟩, hsized⟩ := run_sized hrun
  have hlayout := hretained.keeps.layout w hwal
  have htimed := hretained.timed
  rw [World.segments_of_wal hwal] at htimed hsized
  have hsplit : w.segments = w.gcRemoved now ++ (w.gc world.dir now).1.segments := by
    rw [Wal.segments, ← htimed.gcRemoved_append now, List.append_assoc]
    rfl
  have hlookup : ∀ name, (w.gc world.dir now).2.lookup name =
      if name ∈ (w.gcRemoved now).map Segment.path then none else world.dir.lookup name :=
    fun name => Directory.lookup_removeAll _ _ name
  refine ⟨hlayout.longest_gc now, ⟨_, hsplit.symm⟩, List.getLast?_concat .., ?_, ?_, ?_, ?_,
    hsized.size⟩
  · intro s hs hgone
    rw [hlookup, if_pos]
    exact List.mem_map_of_mem (hlayout.mem_gcRemoved_iff.mpr ⟨hs, hgone⟩)
  · intro s hs
    rw [hlookup, if_neg (hlayout.path_not_mem_gcRemoved hs)]
  · intro name hname
    rw [hlookup, if_neg]
    intro hremoved
    obtain ⟨s, hs, heq⟩ := List.mem_map.mp hremoved
    obtain ⟨hmem, hgone⟩ := hlayout.mem_gcRemoved_iff.mp hs
    exact hname s hmem hgone heq
  · rw [hlayout.overflow_gc hsplit]
    rfl

/-! ## Two segments too many -/

def fullSegments : List (Event Unit) :=
  [.openLog ⟨"wal", 60, 1, 100⟩ 0, .append "node-a" (some ()) ⟨1, 1, 1⟩ .none,
    .append "node-a" (some ()) ⟨2, 2, 2⟩ .none, .append "node-a" (some ()) ⟨3, 3, 3⟩ .none]

theorem gc_keeps_longest_fullSegments :
    ∃ world w, run (World.timedStep emptyMessage) (World.empty 0) fullSegments = some world ∧
      world.wal = some w ∧ w.segments.length = 4 ∧
      (w.gc world.dir 4).1.segments.length = 2 ∧
      Trims w world.dir 4 (w.gc world.dir 4).1 (w.gc world.dir 4).2 := by
  have hvalues : ((run (World.timedStep emptyMessage) (World.empty 0) fullSegments).bind
      fun world => world.wal.map fun w =>
        (w.segments.length, (w.gc world.dir 4).1.segments.length)) = some (4, 2) := by
    decide +kernel
  obtain ⟨world, hrun, hvalues⟩ := Option.bind_eq_some_iff.mp hvalues
  obtain ⟨w, hwal, hlengths⟩ := Option.map_eq_some_iff.mp hvalues
  simp only [Prod.mk.injEq] at hlengths
  exact ⟨world, w, hrun, hwal, hlengths.1, hlengths.2, gc_keeps_longest_suffix hrun hwal 4⟩

end KloudlensAggregator.Envwal
