import KloudlensAggregator.Envwal.Restart

/-!
# What GC leaves behind

Under a clock that does not run backwards the segments stay in the order of
their times, whether a time is that of the creation in this process or, after a
reload, that of the last write.  `GC` then removes the oldest segments only: the
retained seqs are contiguous and every seq below them was trimmed.
-/

namespace KloudlensAggregator.Envwal

open KloudlensAggregator.Foundation
open KloudlensAggregator.Foundation.Json

variable {E : Type} {pj : ProtoJson E} {world next : World E} {log : List (Entry E)}
  {dir : Directory} {segs : List Segment} {w : Wal}

/-! ## Contiguous ranges -/

def Contiguous (segs : List Segment) : Prop :=
  segs.IsChain fun a b => b.startSeq = a.endSeq + 1

theorem Contiguous.exists_mem (h : Contiguous segs) {first last : Segment}
    (hfirst : segs.head? = some first) (hlast : segs.getLast? = some last) {n : Nat}
    (hlow : first.startSeq ≤ n) (hhigh : n ≤ last.endSeq) :
    ∃ s ∈ segs, s.startSeq ≤ n ∧ n ≤ s.endSeq := by
  induction segs generalizing first with
  | nil => cases hfirst
  | cons s rest ih =>
      cases hfirst
      by_cases hn : n ≤ s.endSeq
      · exact ⟨s, List.mem_cons_self, hlow, hn⟩
      · cases rest with
        | nil =>
            cases hlast
            exact absurd hhigh hn
        | cons t rest =>
            obtain ⟨hst, hrest⟩ := List.isChain_cons_cons.mp h
            have hlast' : (t :: rest).getLast? = some last := by
              rwa [List.getLast?_cons_cons] at hlast
            obtain ⟨found, hmem, hfound⟩ := ih hrest rfl hlast' (by omega)
            exact ⟨found, List.mem_cons_of_mem s hmem, hfound⟩

theorem Contiguous.appendedTo (h : Contiguous w.segments) (size : Nat) :
    Contiguous (w.appendedTo size).segments := by
  obtain ⟨holder, -, hcur⟩ := List.isChain_append.mp h
  apply List.isChain_append.mpr
  refine ⟨holder, List.isChain_singleton _, ?_⟩
  intro s hs t ht
  cases ht
  exact hcur s hs w.cur rfl

theorem Contiguous.rotated (h : Contiguous w.segments) {opened : Segment}
    (hopened : opened.startSeq = w.cur.endSeq + 1) :
    Contiguous (w.rotated opened).segments := by
  apply List.isChain_append.mpr
  refine ⟨h, List.isChain_singleton _, ?_⟩
  intro s hs t ht
  rw [Wal.rotated, List.getLast?_concat] at hs
  cases hs
  cases ht
  exact hopened

theorem Contiguous.append (h : Contiguous w.segments) (dir : Directory)
    (hopen : w.curOpen = true) (agent : String) {env : E} {text : Bytes}
    (htext : pj.marshal env = some text) (clock : AppendClock) :
    Contiguous (w.append pj dir agent (some env) clock .none).2.1.segments := by
  rw [append_eq dir hopen agent htext clock]
  dsimp only
  split
  · exact (h.appendedTo _).rotated rfl
  · exact h.appendedTo _

theorem Layout.filter_segments (h : Layout pj dir w log) :
    w.segments.filter (fun s => s.startSeq ≤ s.endSeq) =
      w.older ++ if w.cur.startSeq ≤ w.cur.endSeq then [w.cur] else [] := by
  have holder : w.older.filter (fun s => s.startSeq ≤ s.endSeq) = w.older := by
    apply List.filter_eq_self.mpr
    intro s hs
    exact decide_eq_true (h.older_nonempty s hs)
  rw [Wal.segments, List.filter_append, holder]
  by_cases hcur : w.cur.startSeq ≤ w.cur.endSeq <;> simp [hcur]

theorem Layout.nonempty_first (h : Layout pj dir w log) :
    w.segments.filter (fun s => s.startSeq ≤ s.endSeq) <+: w.segments := by
  rw [h.filter_segments]
  split
  · exact List.prefix_rfl
  · rw [List.append_nil]
    exact List.prefix_append _ _

def World.segments (world : World E) : List Segment :=
  match world.wal with
  | none => []
  | some w => w.segments

theorem World.segments_of_wal (hwal : world.wal = some w) : world.segments = w.segments := by
  simp [World.segments, hwal]

theorem World.nonempty_segments_first (hkeeps : world.Keeps pj log) :
    world.segments.filter (fun s => s.startSeq ≤ s.endSeq) <+: world.segments := by
  unfold World.segments
  cases hwal : world.wal with
  | none => exact List.prefix_rfl
  | some w => exact (hkeeps.layout w hwal).nonempty_first

theorem Contiguous.openWal (h : Contiguous segs)
    (hinitial : segs.filter (fun s => s.startSeq ≤ s.endSeq) <+: segs)
    (holder : w.older = (segs.filter fun s => s.startSeq ≤ s.endSeq).map (Segment.refresh dir))
    (hcur : w.cur.startSeq = resumeSeq w.older + 1) : Contiguous w.segments := by
  obtain ⟨rest, hrest⟩ := hinitial
  apply List.isChain_append.mpr
  refine ⟨?_, List.isChain_singleton _, ?_⟩
  · rw [holder]
    apply (List.isChain_map _).mpr
    have hfront : Contiguous (segs.filter fun s => s.startSeq ≤ s.endSeq) := by
      rw [Contiguous, ← hrest] at h
      exact (List.isChain_append.mp h).1
    simp only [Segment.refresh_startSeq, Segment.refresh_endSeq]
    exact hfront
  · intro s hs t ht
    cases ht
    rw [hcur, resumeSeq, Option.mem_def.mp hs]

/-! ## Times -/

/-- Segments stand in the order of their creation times, and those that a
reload would find also in the order of their modification times. -/
structure Timed (dir : Directory) (segs : List Segment) (now : Int) : Prop where
  created : segs.Pairwise fun a b => a.createdAt ≤ b.createdAt
  created_le : ∀ s ∈ segs, s.createdAt ≤ now
  modified : (segs.filter fun s => s.startSeq ≤ s.endSeq).Pairwise fun a b =>
    (a.refresh dir).createdAt ≤ (b.refresh dir).createdAt
  modified_le : ∀ name file, dir.lookup name = some file → file.mtime ≤ now

theorem Segment.refresh_congr {dir' : Directory} {s : Segment}
    (h : dir'.lookup s.path = dir.lookup s.path) : s.refresh dir' = s.refresh dir := by
  simp [refresh, h]

theorem Segment.refresh_refresh (dir : Directory) (s : Segment) :
    (s.refresh dir).refresh dir = s.refresh dir := by
  cases h : dir.lookup s.path with
  | none =>
      have hself : s.refresh dir = s := by simp [refresh, h]
      rw [hself, hself]
  | some file =>
      have hself : s.refresh dir =
          { s with bytes := file.data.length, createdAt := file.mtime } := by
        simp [refresh, h]
      rw [hself]
      simp [refresh, h]

theorem Layout.path_ne_cur (h : Layout pj dir w log) {s : Segment} (hs : s ∈ w.older) :
    s.path ≠ w.cur.path := by
  intro heq
  have := h.holds.path_injective (Layout.mem_older hs) (Layout.mem_cur w) heq
  exact h.cur_not_mem_older (this ▸ hs)

theorem Layout.append_cases (h : Layout pj dir w log) (hopen : w.curOpen = true)
    (agent : String) {env : E} {text : Bytes} (htext : pj.marshal env = some text)
    (clock : AppendClock) :
    let line := marshalEntry ⟨w.seq + 1, agent, text, clock.ts⟩
    let next := w.appendedTo (line.length + 1)
    let dir' := w.writeLine dir line clock.written
    (w.append pj dir agent (some env) clock .none).2 = (next, dir') ∨
      (∀ s ∈ next.segments, s.path ≠ segmentName (w.seq + 2)) ∧
        (w.append pj dir agent (some env) clock .none).2 =
          (next.rotated (openSegment (w.seq + 1) dir' clock.opened).1,
            (openSegment (w.seq + 1) dir' clock.opened).2) := by
  have hlayout := h.append hopen agent htext clock
  rw [append_eq dir hopen agent htext clock] at hlayout ⊢
  dsimp only at hlayout ⊢
  split at hlayout <;> rename_i hsize
  · right
    rw [if_pos hsize]
    exact ⟨fun s hs => hlayout.path_ne_cur hs, rfl⟩
  · left
    rw [if_neg hsize]

namespace Timed

variable {now later : Int}

theorem empty (now : Int) : Timed ∅ [] now := by
  constructor <;> simp

theorem mono (h : Timed dir segs now) (hlater : now ≤ later) : Timed dir segs later :=
  ⟨h.created, fun s hs => (h.created_le s hs).trans hlater, h.modified,
    fun name file hfile => (h.modified_le name file hfile).trans hlater⟩

theorem refresh_le (h : Timed dir segs now) {s : Segment} (hs : s ∈ segs) :
    (s.refresh dir).createdAt ≤ now := by
  unfold Segment.refresh
  cases hfile : dir.lookup s.path with
  | none => exact h.created_le s hs
  | some file => exact h.modified_le s.path file hfile

theorem openSegment (h : Timed dir segs now) (hlater : now ≤ later) {seq : Nat}
    (hfresh : ∀ s ∈ segs, s.path ≠ segmentName (seq + 1)) :
    Timed (Envwal.openSegment seq dir later).2
      (segs ++ [(Envwal.openSegment seq dir later).1]) later := by
  simp only [Envwal.openSegment]
  constructor
  · apply List.pairwise_append.mpr
    refine ⟨h.created, List.pairwise_singleton _ _, ?_⟩
    intro s hs t ht
    rw [List.mem_singleton.mp ht]
    exact (h.created_le s hs).trans hlater
  · intro s hs
    rcases List.mem_append.mp hs with hs | hs
    · exact (h.created_le s hs).trans hlater
    · rw [List.mem_singleton.mp hs]
  · have hempty : ¬ seq + 1 ≤ seq := by omega
    simp only [List.filter_append, List.filter_cons, hempty, decide_false, if_false,
      Bool.false_eq_true, List.filter_nil, List.append_nil]
    apply h.modified.imp_of_mem
    intro s t hs ht hst
    have hself : ∀ u ∈ segs.filter (fun s => s.startSeq ≤ s.endSeq),
        u.refresh (dir.openAppend (segmentName (seq + 1)) later) = u.refresh dir := by
      intro u hu
      apply Segment.refresh_congr
      exact Directory.lookup_openAppend_of_ne (hfresh u (List.mem_of_mem_filter hu))
    rwa [hself s hs, hself t ht]
  · intro name file hfile
    by_cases hname : name = segmentName (seq + 1)
    · subst hname
      rw [Directory.lookup_openAppend_self] at hfile
      cases hold : dir.lookup (segmentName (seq + 1)) with
      | none =>
          rw [hold] at hfile
          cases hfile
          exact le_refl later
      | some old =>
          rw [hold] at hfile
          cases hfile
          exact (h.modified_le _ _ hold).trans hlater
    · rw [Directory.lookup_openAppend_of_ne hname] at hfile
      exact (h.modified_le name file hfile).trans hlater

theorem reload (h : Timed dir segs now) :
    Timed dir ((segs.filter fun s => s.startSeq ≤ s.endSeq).map (Segment.refresh dir)) now := by
  constructor
  · exact List.pairwise_map.mpr h.modified
  · intro s hs
    obtain ⟨t, ht, rfl⟩ := List.mem_map.mp hs
    exact h.refresh_le (List.mem_of_mem_filter ht)
  · rw [List.filter_map]
    apply List.pairwise_map.mpr
    simp only [Segment.refresh_refresh]
    exact h.modified.filter _
  · exact h.modified_le

theorem openWal (h : Timed dir segs now) (hlater : now ≤ later) {dir' : Directory}
    (hlayout : Layout pj dir' w log)
    (holder : w.older = (segs.filter fun s => s.startSeq ≤ s.endSeq).map (Segment.refresh dir))
    (hcur : w.cur = (Envwal.openSegment w.seq dir later).1)
    (hdir : dir' = (Envwal.openSegment w.seq dir later).2) :
    Timed dir' w.segments later := by
  have hfresh : ∀ s ∈ w.older, s.path ≠ segmentName (w.seq + 1) := by
    intro s hs
    have := hlayout.path_ne_cur hs
    rwa [hcur] at this
  have hreload := h.reload
  rw [← holder] at hreload
  rw [hdir, Wal.segments, hcur]
  exact hreload.openSegment hlater hfresh

theorem appendedTo (h : Timed dir w.segments now) (hlater : now ≤ later)
    (hlayout : Layout pj dir w log) (line : Bytes) (size : Nat) :
    Timed (w.writeLine dir line later) (w.appendedTo size).segments later := by
  obtain ⟨file, hfile, -⟩ := hlayout.holds.file w.cur (Layout.mem_cur w)
  have hcur := Wal.lookup_writeLine_self hfile line later
  have hself : ∀ s ∈ w.older, s.refresh (w.writeLine dir line later) = s.refresh dir :=
    fun s hs => Segment.refresh_congr
      (Wal.lookup_writeLine_of_ne (hlayout.path_ne_cur hs) line later)
  obtain ⟨holder, -, hcurCreated⟩ := List.pairwise_append.mp h.created
  constructor
  · apply List.pairwise_append.mpr
    refine ⟨holder, List.pairwise_singleton _ _, ?_⟩
    intro s hs t ht
    rw [List.mem_singleton.mp ht]
    exact hcurCreated s hs w.cur (List.mem_singleton_self _)
  · intro s hs
    rcases List.mem_append.mp hs with hs | hs
    · exact (h.created_le s (Layout.mem_older hs)).trans hlater
    · rw [List.mem_singleton.mp hs]
      exact (h.created_le w.cur (Layout.mem_cur w)).trans hlater
  · apply List.Pairwise.filter
    apply List.pairwise_append.mpr
    refine ⟨?_, List.pairwise_singleton _ _, ?_⟩
    · have hmodified := h.modified
      rw [hlayout.filter_segments] at hmodified
      apply (List.pairwise_append.mp hmodified).1.imp_of_mem
      intro s t hs ht hst
      rwa [hself s hs, hself t ht]
    · intro s hs t ht
      simp only [Wal.appendedTo] at hs ht
      rw [List.mem_singleton.mp ht, hself s hs]
      simp only [Segment.refresh, hcur]
      exact (h.refresh_le (Layout.mem_older hs)).trans hlater
  · intro name found hfound
    by_cases hname : name = w.cur.path
    · subst hname
      rw [hcur] at hfound
      cases hfound
      exact le_refl later
    · rw [Wal.lookup_writeLine_of_ne hname] at hfound
      exact (h.modified_le name found hfound).trans hlater

theorem remove (h : Timed dir segs now) {kept removed : List Segment}
    (hkept : kept.Sublist segs)
    (hpaths : ∀ s ∈ kept, s.path ∉ removed.map Segment.path) :
    Timed (dir.removeAll (removed.map Segment.path)) kept now := by
  constructor
  · exact h.created.sublist hkept
  · exact fun s hs => h.created_le s (hkept.subset hs)
  · apply (h.modified.sublist (hkept.filter _)).imp_of_mem
    intro s t hs ht hst
    have hself : ∀ u ∈ kept,
        u.refresh (dir.removeAll (removed.map Segment.path)) = u.refresh dir := by
      intro u hu
      apply Segment.refresh_congr
      rw [Directory.lookup_removeAll, if_neg (hpaths u hu)]
    rwa [hself s (List.mem_of_mem_filter hs), hself t (List.mem_of_mem_filter ht)]
  · intro name file hfile
    rw [Directory.lookup_removeAll] at hfile
    split at hfile
    · cases hfile
    · exact h.modified_le name file hfile

theorem append (h : Timed dir w.segments now) (hlayout : Layout pj dir w log)
    (hopen : w.curOpen = true) (agent : String) {env : E} {text : Bytes}
    (htext : pj.marshal env = some text) {clock : AppendClock}
    (hclock : clock.nondecreasing now = true) :
    Timed (w.append pj dir agent (some env) clock .none).2.2
      (w.append pj dir agent (some env) clock .none).2.1.segments clock.opened := by
  simp only [AppendClock.nondecreasing, Bool.and_eq_true, decide_eq_true_eq] at hclock
  obtain ⟨⟨hts, hwritten⟩, hopened⟩ := hclock
  have hnext := h.appendedTo (hts.trans hwritten) hlayout
    (marshalEntry ⟨w.seq + 1, agent, text, clock.ts⟩)
    ((marshalEntry ⟨w.seq + 1, agent, text, clock.ts⟩).length + 1)
  rcases hlayout.append_cases hopen agent htext clock with heq | ⟨hfresh, heq⟩
  · rw [heq]
    exact hnext.mono hopened
  · rw [heq]
    exact hnext.openSegment hopened hfresh

end Timed

/-! ## GC removes the oldest segments -/

theorem filter_append_filter_not {α : Type} {p : α → Bool} {xs : List α}
    (h : xs.Pairwise fun a b => p b = true → p a = true) :
    xs.filter p ++ xs.filter (fun x => !p x) = xs := by
  induction xs with
  | nil => rfl
  | cons x xs ih =>
      obtain ⟨hx, hxs⟩ := List.pairwise_cons.mp h
      cases hp : p x with
      | true => simpa [hp] using ih hxs
      | false =>
          have hnone : ∀ y ∈ xs, p y = false := by
            intro y hy
            cases hpy : p y with
            | false => rfl
            | true => exact absurd (hx y hy hpy) (by simp [hp])
          have hempty : xs.filter p = [] := by
            apply List.filter_eq_nil_iff.mpr
            simpa using hnone
          have hall : xs.filter (fun y => !p y) = xs := by
            apply List.filter_eq_self.mpr
            simpa using hnone
          simp [hp, hempty, hall]

theorem Timed.gcRemoved_append {now : Int} (h : Timed dir w.segments now) (later : Int) :
    w.gcRemoved later ++ (w.trimmed later).1 = w.older := by
  have hcreated := (List.pairwise_append.mp h.created).1
  have hexpired : w.older.Pairwise fun a b =>
      isExpired w.opts.ttl later b = true → isExpired w.opts.ttl later a = true := by
    apply hcreated.imp
    intro a b hab hb
    simp only [isExpired, decide_eq_true_eq] at hb ⊢
    omega
  calc w.gcRemoved later ++ (w.trimmed later).1
      = w.expired later ++ ((w.trimmed later).2 ++ (w.trimmed later).1) :=
        List.append_assoc _ _ _
    _ = w.expired later ++ w.unexpired later := by rw [← w.unexpired_eq later]
    _ = w.older := filter_append_filter_not hexpired

theorem Holds.exists_fileRecord (h : Holds pj dir segs log) (hdense : Dense pj log)
    {s : Segment} (hs : s ∈ segs) {n : Nat} (hlow : s.startSeq ≤ n) (hhigh : n ≤ s.endSeq) :
    ∃ d ∈ fileRecords dir s, d.seq = n := by
  have hrange := h.range s hs
  obtain ⟨file, hfile, hdecode⟩ := h.decodeAll_file hdense hs
  have hget := List.getElem?_eq_getElem (show n - 1 < log.length by omega)
  refine ⟨(log[n - 1]).disk pj, ?_, ?_⟩
  · simp only [fileRecords, hfile, hdecode]
    apply List.mem_map_of_mem
    exact mem_slice.mpr ⟨n - 1, by omega, by omega, hget⟩
  · have hseq : ((log[n - 1]).disk pj).seq = n - 1 + 1 := hdense.seq hget
    omega

/-! ## What a run retains -/

def oldestOf (segs : List Segment) : Nat :=
  match segs.head? with
  | none => 1
  | some s => s.startSeq

theorem Wal.oldest_eq (w : Wal) : w.oldest = oldestOf w.segments := by
  unfold Wal.oldest oldestOf Wal.segments
  cases w.older <;> rfl

def World.latest (world : World E) (seq : Nat) : Option (Entry E) :=
  (world.appended.filter fun e => e.seq = seq).getLast?

structure World.Retained (pj : ProtoJson E) (world : World E) (log : List (Entry E)) :
    Prop where
  keeps : world.Keeps pj log
  holds : Holds pj world.dir world.segments log
  contiguous : Contiguous world.segments
  timed : Timed world.dir world.segments world.now
  trimmed : ∀ n, 1 ≤ n → n < oldestOf world.segments → ∃ d ∈ world.trimmed, d.seq = n
  latest : ∀ e ∈ log, world.latest e.seq = some e

theorem oldestOf_append (dir : Directory) (hopen : w.curOpen = true) (agent : String)
    {env : E} {text : Bytes} (htext : pj.marshal env = some text) (clock : AppendClock) :
    oldestOf (w.append pj dir agent (some env) clock .none).2.1.segments =
      oldestOf w.segments := by
  rw [append_eq dir hopen agent htext clock]
  dsimp only
  split <;> cases holder : w.older <;>
    simp [oldestOf, Wal.segments, Wal.appendedTo, Wal.rotated, holder]

theorem oldestOf_openWal (hinitial : segs.filter (fun s => s.startSeq ≤ s.endSeq) <+: segs)
    (holder : w.older = (segs.filter fun s => s.startSeq ≤ s.endSeq).map (Segment.refresh dir))
    (hcur : w.cur.startSeq = resumeSeq w.older + 1) :
    oldestOf w.segments = 1 ∨ oldestOf w.segments = oldestOf segs := by
  obtain ⟨rest, hrest⟩ := hinitial
  cases hfilter : segs.filter (fun s => s.startSeq ≤ s.endSeq) with
  | nil =>
      left
      rw [hfilter, List.map_nil] at holder
      simp [oldestOf, Wal.segments, holder, hcur, resumeSeq]
  | cons s tail =>
      right
      rw [hfilter] at holder hrest
      rw [← hrest]
      simp [oldestOf, Wal.segments, holder]

theorem World.latest_concat {e : Entry E} {world' : World E}
    (happended : world'.appended = world.appended ++ [e]) (other : Entry E)
    (hlatest : other.seq ≠ e.seq → world.latest other.seq = some other)
    (hother : other.seq = e.seq → other = e) :
    world'.latest other.seq = some other := by
  unfold World.latest at hlatest ⊢
  rw [happended, List.filter_append]
  by_cases heq : other.seq = e.seq
  · rw [hother heq]
    simp
  · have hne : ¬ e.seq = other.seq := fun h => heq h.symm
    simpa [hne] using hlatest heq

namespace World.Retained

theorem empty (now : Int) : (World.empty now : World E).Retained pj [] := by
  refine ⟨.empty now, .empty, .nil, .empty now, ?_, by simp⟩
  intro n hpos hlow
  simp only [oldestOf, World.segments, World.empty, List.head?_nil] at hlow
  omega

theorem openLog (h : world.Retained pj log) {opts : Options} {now : Int} {w : Wal}
    {dir : Directory} (hopen : openWal opts world.dir now = .ok (w, dir))
    (hnow : world.now ≤ now) :
    { world with dir := dir, wal := some w, now := now }.Retained pj (log.take w.seq) := by
  obtain ⟨hlayout, holder, hseq, -, hcur, hdir⟩ := openWal_layout hopen h.holds h.keeps.dense
  have hinitial := World.nonempty_segments_first h.keeps
  have hstart : w.cur.startSeq = resumeSeq w.older + 1 := by
    rw [hcur, ← hseq]
    rfl
  refine ⟨h.keeps.openLog hopen, hlayout.holds, h.contiguous.openWal hinitial holder hstart,
    h.timed.openWal hnow hlayout holder hcur hdir, ?_, ?_⟩
  · intro n hpos hlow
    have hlow' : n < oldestOf w.segments := hlow
    rcases oldestOf_openWal hinitial holder hstart with hone | hsame
    · omega
    · exact h.trimmed n hpos (by omega)
  · exact fun e he => h.latest e (List.mem_of_mem_take he)

theorem append (h : world.Retained pj log) {w : Wal} (hwal : world.wal = some w)
    (hopen : w.curOpen = true) (agent : String) {env : E} {text : Bytes}
    (htext : pj.marshal env = some text) {clock : AppendClock}
    (hclock : clock.nondecreasing world.now = true) :
    (world.append pj w agent (some env) clock .none).Retained pj
      (log ++ [⟨w.seq + 1, agent, env, clock.ts⟩]) := by
  have hlayout := h.keeps.layout w hwal
  have hkeeps := h.keeps.append hwal hopen agent htext clock
  have hsegs := World.segments_of_wal hwal
  have hcontiguous := h.contiguous
  have htimed := h.timed
  have htrimmed := h.trimmed
  rw [hsegs] at hcontiguous htimed htrimmed
  refine ⟨hkeeps, (hkeeps.layout _ rfl).holds, hcontiguous.append _ hopen agent htext clock,
    htimed.append hlayout hopen agent htext hclock, ?_, ?_⟩
  · intro n hpos hlow
    apply htrimmed n hpos
    have hlow' : n < oldestOf (w.append pj world.dir agent (some env) clock .none).2.1.segments :=
      hlow
    rwa [oldestOf_append world.dir hopen agent htext clock] at hlow'
  · intro e he
    apply World.latest_concat (World.append_appended hopen agent htext clock)
    · intro hne
      rcases List.mem_append.mp he with he | he
      · exact h.latest e he
      · rw [List.mem_singleton.mp he] at hne
        exact absurd rfl hne
    · intro heq
      rcases List.mem_append.mp he with he | he
      · obtain ⟨i, hi⟩ := List.mem_iff_getElem?.mp he
        have hseq := hlayout.dense.seq hi
        have hlength := (List.getElem?_eq_some_iff.mp hi).1
        have hlog := hlayout.seq_eq
        simp only at heq
        omega
      · exact List.mem_singleton.mp he

theorem tick (h : world.Retained pj log) {now : Int} (hnow : world.now ≤ now) :
    { world with now := now }.Retained pj log :=
  ⟨h.keeps.tick now, h.holds, h.contiguous, h.timed.mono hnow, h.trimmed, h.latest⟩

theorem close (h : world.Retained pj log) {w : Wal} (hwal : world.wal = some w) :
    { world with wal := some w.close }.Retained pj log := by
  have hsegs := World.segments_of_wal hwal
  have hholds := h.holds
  have hcontiguous := h.contiguous
  have htimed := h.timed
  have htrimmed := h.trimmed
  rw [hsegs] at hholds hcontiguous htimed htrimmed
  exact ⟨h.keeps.close hwal, hholds, hcontiguous, htimed, htrimmed, h.latest⟩

theorem gc (h : world.Retained pj log) {w : Wal} (hwal : world.wal = some w) {now : Int}
    (hnow : world.now ≤ now) : (world.gc w now).Retained pj log := by
  have hlayout := h.keeps.layout w hwal
  have hkeeps := h.keeps.gc hwal now
  have hsegs := World.segments_of_wal hwal
  have hcontiguous := h.contiguous
  have htimed := h.timed
  have htrimmed := h.trimmed
  rw [hsegs] at hcontiguous htimed htrimmed
  have hsplit : w.segments = w.gcRemoved now ++ ((w.trimmed now).1 ++ [w.cur]) := by
    rw [← List.append_assoc, htimed.gcRemoved_append now]
    rfl
  obtain ⟨hremoved, hkept, hjoin⟩ := List.isChain_append.mp (hsplit ▸ hcontiguous)
  refine ⟨hkeeps, (hkeeps.layout _ rfl).holds, hkept, ?_, ?_, h.latest⟩
  · apply (htimed.mono hnow).remove ((w.trimmed_sublist now).append_right [w.cur])
    exact fun s hs => hlayout.path_not_mem_gcRemoved hs
  · intro n hpos hlow
    have hlow' : n < oldestOf ((w.trimmed now).1 ++ [w.cur]) := hlow
    by_cases hold : n < oldestOf w.segments
    · obtain ⟨d, hd, hseq⟩ := htrimmed n hpos hold
      exact ⟨d, List.mem_append_left _ hd, hseq⟩
    · -- The seq lies in the range of one of the segments removed now.
      obtain ⟨first, hfirst⟩ : ∃ first, (w.gcRemoved now).head? = some first := by
        cases hnone : w.gcRemoved now with
        | nil =>
            rw [hsplit, hnone, List.nil_append] at hold
            exact absurd hlow' hold
        | cons first rest => exact ⟨first, rfl⟩
      obtain ⟨last, hlast⟩ : ∃ last, (w.gcRemoved now).getLast? = some last := by
        cases hnone : (w.gcRemoved now).getLast? with
        | none =>
            rw [List.getLast?_eq_none_iff.mp hnone] at hfirst
            cases hfirst
        | some last => exact ⟨last, rfl⟩
      have hfirstLow : first.startSeq ≤ n := by
        rw [hsplit, oldestOf, List.head?_append, hfirst] at hold
        exact Nat.le_of_not_lt hold
      have hlastHigh : n ≤ last.endSeq := by
        obtain ⟨kept, hkeptHead⟩ : ∃ kept,
            ((w.trimmed now).1 ++ [w.cur]).head? = some kept := by
          cases (w.trimmed now).1 <;> simp
        have hnext := hjoin last hlast kept hkeptHead
        rw [oldestOf, hkeptHead] at hlow'
        simp only at hlow'
        omega
      obtain ⟨s, hs, hstart, hend⟩ := Contiguous.exists_mem hremoved hfirst hlast
        hfirstLow hlastHigh
      obtain ⟨d, hd, hseq⟩ := hlayout.holds.exists_fileRecord hlayout.dense
        (Layout.mem_older (Wal.gcRemoved_subset hs)) hstart hend
      exact ⟨d, List.mem_append_right _ (List.mem_flatMap.mpr ⟨s, hs, hd⟩), hseq⟩

theorem step {ev : Event E} (h : world.Retained pj log)
    (hclock : world.clockAdvances ev = true) (hstep : SafeStep pj world ev next) :
    ∃ log', next.Retained pj log' := by
  cases hstep with
  | openLog hopen => exact ⟨_, h.openLog hopen (of_decide_eq_true hclock)⟩
  | append hwal hopen htext => exact ⟨_, h.append hwal hopen _ htext hclock⟩
  | refused hwal hopen henv =>
      simp only [World.clockAdvances, AppendClock.nondecreasing, Bool.and_eq_true,
        decide_eq_true_eq] at hclock
      exact ⟨log, h.tick (by omega)⟩
  | gc hwal => exact ⟨log, h.gc hwal (of_decide_eq_true hclock)⟩
  | close hwal => exact ⟨log, h.close hwal⟩

end World.Retained

def World.timedStep (pj : ProtoJson E) : World E → Event E → Option (World E) :=
  restrict World.clockAdvances (World.safeStep pj)

theorem run_retained {events : List (Event E)} {now : Int}
    (hrun : run (World.timedStep pj) (World.empty now) events = some world) :
    ∃ log, world.Retained pj log := by
  apply run_invariant (fun world : World E => ∃ log, world.Retained pj log) _
    ⟨[], .empty now⟩ hrun
  rintro world ev next ⟨log, h⟩ hstep
  obtain ⟨hclock, hsafe⟩ := restrict_eq_some.mp hstep
  exact h.step hclock (safeStep_of_safeStep hsafe)

/-- The log as `Append` has left it: for every seq up to the last one of the WAL, the
last entry it was returned for. -/
def World.journal (world : World E) (w : Wal) : List (Entry E) :=
  (List.range w.seq).filterMap fun i => world.latest (i + 1)

theorem World.Retained.journal_eq (h : world.Retained pj log) {w : Wal}
    (hwal : world.wal = some w) : world.journal w = log := by
  have hlayout := h.keeps.layout w hwal
  have hlatest : ∀ i ∈ List.range w.seq, world.latest (i + 1) = log[i]? := by
    intro i hi
    have hlength : i < log.length := by
      rw [← hlayout.seq_eq]
      exact List.mem_range.mp hi
    have hget := List.getElem?_eq_getElem hlength
    rw [hget, ← hlayout.dense.seq hget]
    exact h.latest _ (List.getElem_mem hlength)
  rw [World.journal, List.filterMap_congr hlatest, hlayout.seq_eq, filterMap_getElem?_range]

end KloudlensAggregator.Envwal
