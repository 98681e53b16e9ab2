import KloudlensAggregator.Envwal.Tracking

/-!
# Replay is complete or says so

The invariant of a `ReadFrom` in progress, kept by its own steps and by the
appends and collections that run beside it: as long as no file was missing, the
entries handed over are an unbroken stretch of the log, and the files left to
read go on where it ends.
-/

namespace KloudlensAggregator.Envwal

open KloudlensAggregator.Foundation
open KloudlensAggregator.Foundation.Json

variable {E : Type} {pj : ProtoJson E} {world : World E} {log : List (Entry E)} {w : Wal}

/-- The segments left to read go on behind the first `pos` entries of the log
and reach `target`; the one that was current, the last, may grow. -/
def Covers (target : Nat) : Nat → List (Segment × Bool) → Prop
  | pos, [] => target ≤ pos
  | pos, (s, grows) :: rest =>
      s.startSeq = pos + 1 ∧ pos ≤ s.endSeq ∧ (grows = true → rest = []) ∧
        Covers target s.endSeq rest

def trackView (t : Segment × Bool) : SegView := t.1.view

/-- The entries before `pos` are handed over and those behind it are to come. -/
structure Reader.Progress (pj : ProtoJson E) (log : List (Entry E)) (target low : Nat)
    (r : Reader) (tracks : List (Segment × Bool)) (delivered : List (Entry E)) (pos : Nat) :
    Prop where
  delivered_eq : delivered = slice log low pos
  pos_le : pos ≤ log.length
  low_le : low ≤ max r.fromSeq pos
  file : ∀ rest e, r.pending = some (rest, e) → ∃ high, pos ≤ high ∧ high ≤ log.length ∧
    rest = (slice log pos high).map (Entry.disk pj) ∧ Covers target high tracks
  files : r.pending = none → Covers target pos tracks
  done : r.status = .returned none → target ≤ pos

structure Reader.Follows (pj : ProtoJson E) (world : World E) (w : Wal) (log : List (Entry E))
    (target low : Nat) (r : Reader) (tracks : List (Segment × Bool))
    (delivered : List (Entry E)) : Prop where
  from_le : r.fromSeq ≤ low
  views : r.views = tracks.map trackView
  tracked : ∀ t ∈ tracks, Tracked world w r.fromSeq t.2 t.1
  bounded : ∀ t ∈ tracks, t.1.endSeq ≤ log.length
  pending : ∀ rest e, r.pending = some (rest, e) → e = none ∧ ∃ first high,
    high ≤ log.length ∧ rest = (slice log first high).map (Entry.disk pj)
  gap : r.gap = true → ∃ d ∈ world.trimmed, r.fromSeq < d.seq
  failed : ∀ err, r.status = .returned (some err) →
    err = .cursorExpired ∧ ∃ d ∈ world.trimmed, r.fromSeq < d.seq
  gap_failed : r.status = .returned none → r.gap = false
  progress : r.gap = false → (∀ err, r.status ≠ .returned (some err)) →
    ∃ pos, r.Progress pj log target low tracks delivered pos

namespace Reader.Follows

variable {target low : Nat} {r : Reader} {tracks : List (Segment × Bool)}
  {delivered : List (Entry E)}

private theorem slice_disk_cons {first high : Nat} {d : DiskEntry} {rest : List DiskEntry}
    (hhigh : high ≤ log.length)
    (h : d :: rest = (slice log first high).map (Entry.disk pj)) :
    first < high ∧ ∃ e, log[first]? = some e ∧ d = e.disk pj ∧
      rest = (slice log (first + 1) high).map (Entry.disk pj) := by
  by_cases hlt : first < high
  · have hget := List.getElem?_eq_getElem (show first < log.length by omega)
    rw [slice_eq_cons hlt hget, List.map_cons] at h
    cases h
    exact ⟨hlt, _, hget, rfl, rfl⟩
  · rw [slice_eq_nil log (by omega)] at h
    cases h

private theorem slice_disk_nil {first high : Nat} (hlow : first ≤ high)
    (hhigh : high ≤ log.length) (h : [] = (slice log first high).map (Entry.disk pj)) :
    first = high := by
  by_contra hne
  have hget := List.getElem?_eq_getElem (show first < log.length by omega)
  rw [slice_eq_cons (by omega) hget, List.map_cons] at h
  cases h

theorem endOfFile (h : r.Follows pj world w log target low tracks delivered)
    (hpending : r.pending = some ([], none)) :
    { r with pending := none }.Follows pj world w log target low tracks delivered := by
  refine ⟨h.from_le, h.views, h.tracked, h.bounded, by simp, h.gap, h.failed, h.gap_failed, ?_⟩
  intro hgap hfailed
  obtain ⟨pos, hprogress⟩ := h.progress hgap hfailed
  obtain ⟨high, hpos, hhigh, hrest, hcovers⟩ := hprogress.file [] none hpending
  have heq := slice_disk_nil hpos hhigh hrest
  subst heq
  exact ⟨pos, hprogress.delivered_eq, hprogress.pos_le, hprogress.low_le, by simp,
    fun _ => hcovers, hprogress.done⟩

theorem skip (h : r.Follows pj world w log target low tracks delivered)
    (hdense : Dense pj log) (hstatus : r.status = .reading) {d : DiskEntry}
    {rest : List DiskEntry} (hpending : r.pending = some (d :: rest, none))
    (hskip : d.seq ≤ r.fromSeq) :
    { r with pending := some (rest, none) }.Follows pj world w log target low tracks
      delivered := by
  refine ⟨h.from_le, h.views, h.tracked, h.bounded, ?_, h.gap, h.failed, h.gap_failed, ?_⟩
  · rintro rest' e ⟨⟩
    obtain ⟨-, first, high, hhigh, hrest⟩ := h.pending _ _ hpending
    obtain ⟨-, -, -, -, hrest'⟩ := slice_disk_cons hhigh hrest
    exact ⟨rfl, first + 1, high, hhigh, hrest'⟩
  · intro hgap hfailed
    obtain ⟨pos, hprogress⟩ := h.progress hgap hfailed
    obtain ⟨high, hpos, hhigh, hrest, hcovers⟩ := hprogress.file _ _ hpending
    obtain ⟨hlt, e, hget, rfl, hrest'⟩ := slice_disk_cons hhigh hrest
    have hseq : (e.disk pj).seq = pos + 1 := hdense.seq hget
    have hfrom := h.from_le
    have hempty : ∀ n, n ≤ r.fromSeq → slice log low n = [] :=
      fun n hn => slice_eq_nil log (by omega)
    refine ⟨pos + 1, ?_, by omega, ?_, ?_, by simp, ?_⟩
    · rw [hprogress.delivered_eq, hempty pos (by omega), hempty (pos + 1) (by omega)]
    · have := hprogress.low_le
      simp only
      omega
    · rintro rest' e' ⟨⟩
      exact ⟨high, by omega, hhigh, hrest', hcovers⟩
    · intro hdone
      simp only [hstatus] at hdone
      cases hdone

theorem deliver (h : r.Follows pj world w log target low tracks delivered)
    (hdense : Dense pj log) (hstatus : r.status = .reading) {d : DiskEntry}
    {rest : List DiskEntry} (hpending : r.pending = some (d :: rest, none))
    (hfresh : ¬ d.seq ≤ r.fromSeq) :
    ∃ env, pj.unmarshal d.envelope = some env ∧
      { r with pending := some (rest, none) }.Follows pj world w log target low tracks
        (delivered ++ [(⟨d.seq, d.agent, env, d.ts⟩ : Entry E)]) := by
  obtain ⟨-, first, high, hhigh, hrest⟩ := h.pending _ _ hpending
  obtain ⟨-, e, hget, rfl, hrest'⟩ := slice_disk_cons hhigh hrest
  have hmarshals := hdense.marshals e (List.mem_of_getElem? hget)
  refine ⟨e.envelope, Entry.unmarshal_disk hmarshals, h.from_le, h.views,
    h.tracked, h.bounded, ?_, h.gap, h.failed, h.gap_failed, ?_⟩
  · rintro rest'' e' ⟨⟩
    exact ⟨rfl, first + 1, high, hhigh, hrest'⟩
  · intro hgap hfailed
    obtain ⟨pos, hprogress⟩ := h.progress hgap hfailed
    obtain ⟨high', hpos, hhigh', hrestPos, hcovers⟩ := hprogress.file _ _ hpending
    obtain ⟨hlt, e', hget', hdisk, hrestPos'⟩ := slice_disk_cons hhigh' hrestPos
    have hseq : (e.disk pj).seq = first + 1 := hdense.seq hget
    have hseq' : (e'.disk pj).seq = pos + 1 := hdense.seq hget'
    have hfirst : first = pos := by
      rw [hdisk] at hseq
      omega
    subst hfirst
    have hlow : low ≤ first := by
      have := hprogress.low_le
      omega
    refine ⟨first + 1, ?_, by omega, ?_, ?_, by simp, ?_⟩
    · rw [slice_succ hlow hget, hprogress.delivered_eq]
      rfl
    · simp only
      omega
    · rintro rest'' e'' ⟨⟩
      exact ⟨high', by omega, hhigh', hrestPos', hcovers⟩
    · intro hdone
      simp only [hstatus] at hdone
      cases hdone

theorem finish (h : r.Follows pj world w log target low [] delivered)
    (hstatus : r.status = .reading) (hpending : r.pending = none) :
    { r with status := .returned (if r.gap then some .cursorExpired else none) }.Follows
      pj world w log target low [] delivered := by
  refine ⟨h.from_le, h.views, h.tracked, h.bounded, h.pending, h.gap, ?_, ?_, ?_⟩
  · intro err herr
    cases hgap : r.gap with
    | false => simp [hgap] at herr
    | true =>
        simp only [hgap, if_true, ReadStatus.returned.injEq, Option.some.injEq] at herr
        exact ⟨herr.symm, h.gap hgap⟩
  · intro hdone
    cases hgap : r.gap with
    | false => rfl
    | true => simp [hgap] at hdone
  · intro hgap hfailed
    obtain ⟨pos, hprogress⟩ := h.progress hgap (by simp [hstatus])
    exact ⟨pos, hprogress.delivered_eq, hprogress.pos_le, hprogress.low_le, hprogress.file,
      hprogress.files, fun _ => hprogress.files hpending⟩

theorem skipFile {t : Segment × Bool}
    (h : r.Follows pj world w log target low (t :: tracks) delivered)
    (hstatus : r.status = .reading) (hpending : r.pending = none)
    (hskip : t.1.endSeq ≤ r.fromSeq) :
    { r with views := tracks.map trackView }.Follows pj world w log target low
      tracks delivered := by
  refine ⟨h.from_le, rfl, fun u hu => h.tracked u (List.mem_cons_of_mem t hu),
    fun u hu => h.bounded u (List.mem_cons_of_mem t hu), h.pending, h.gap, h.failed,
    h.gap_failed, ?_⟩
  intro hgap hfailed
  obtain ⟨pos, hprogress⟩ := h.progress hgap hfailed
  obtain ⟨-, hpos, -, hcovers⟩ := hprogress.files hpending
  have hfromLow := h.from_le
  have hempty : ∀ n, n ≤ r.fromSeq → slice log low n = [] :=
    fun n hn => slice_eq_nil log (by omega)
  refine ⟨t.1.endSeq, ?_, h.bounded t List.mem_cons_self, ?_, by simp [hpending],
    fun _ => hcovers, ?_⟩
  · rw [hprogress.delivered_eq, hempty pos (by omega), hempty t.1.endSeq hskip]
  · have := hprogress.low_le
    simp only
    omega
  · intro hdone
    simp only [hstatus] at hdone
    cases hdone

theorem missFile {t : Segment × Bool}
    (h : r.Follows pj world w log target low (t :: tracks) delivered)
    (hstatus : r.status = .reading) (hlayout : Layout pj world.dir w log)
    (hread : ¬ t.1.endSeq ≤ r.fromSeq) (hmissing : world.dir.lookup t.1.path = none) :
    { r with views := tracks.map trackView, gap := true }.Follows pj world w log
      target low tracks delivered := by
  have htrimmed : ∃ d ∈ world.trimmed, r.fromSeq < d.seq := by
    rcases h.tracked t List.mem_cons_self with hpresent | htrimmed
    · obtain ⟨file, -, hfile, -⟩ := hpresent.decodeAll_file hlayout
      rw [hmissing] at hfile
      cases hfile
    · exact htrimmed.recorded (by omega)
  refine ⟨h.from_le, rfl, fun u hu => h.tracked u (List.mem_cons_of_mem t hu),
    fun u hu => h.bounded u (List.mem_cons_of_mem t hu), h.pending, fun _ => htrimmed,
    h.failed, ?_, by simp⟩
  intro hdone
  simp only [hstatus] at hdone
  cases hdone

theorem openFile {t : Segment × Bool}
    (h : r.Follows pj world w log target low (t :: tracks) delivered)
    (hstatus : r.status = .reading) (hpending : r.pending = none)
    (hlayout : Layout pj world.dir w log) {file : File}
    (hfile : world.dir.lookup t.1.path = some file) :
    { r with views := tracks.map trackView
             pending := some (decodeAll unmarshalEntry file.data) }.Follows pj world w log
      target low tracks delivered := by
  obtain ⟨high, hend, hhigh, hgrows, hdecode⟩ : ∃ high, t.1.endSeq ≤ high ∧
      high ≤ log.length ∧ (t.2 = false → high = t.1.endSeq) ∧
      decodeAll unmarshalEntry file.data =
        ((slice log (t.1.startSeq - 1) high).map (Entry.disk pj), none) := by
    rcases h.tracked t List.mem_cons_self with hpresent | htrimmed
    · obtain ⟨file', high, hfile', hrest⟩ := hpresent.decodeAll_file hlayout
      rw [hfile] at hfile'
      cases hfile'
      exact ⟨high, hrest⟩
    · rw [htrimmed.missing] at hfile
      cases hfile
  rw [hdecode]
  refine ⟨h.from_le, rfl, fun u hu => h.tracked u (List.mem_cons_of_mem t hu),
    fun u hu => h.bounded u (List.mem_cons_of_mem t hu), ?_, h.gap, h.failed, h.gap_failed,
    ?_⟩
  · rintro rest e ⟨⟩
    exact ⟨rfl, t.1.startSeq - 1, high, hhigh, rfl⟩
  · intro hgap hfailed
    obtain ⟨pos, hprogress⟩ := h.progress hgap hfailed
    obtain ⟨hstart, hpos, hlast, hcovers⟩ := hprogress.files hpending
    have hfirst : t.1.startSeq - 1 = pos := by omega
    refine ⟨pos, hprogress.delivered_eq, hprogress.pos_le, hprogress.low_le, ?_, by simp, ?_⟩
    · rintro rest e ⟨⟩
      refine ⟨high, by omega, hhigh, by rw [hfirst], ?_⟩
      cases hgrow : t.2 with
      | false => rwa [hgrows hgrow]
      | true =>
          rw [hlast hgrow] at hcovers ⊢
          exact Nat.le_trans hcovers hend
    · intro hdone
      simp only [hstatus] at hdone
      cases hdone

theorem read (h : r.Follows pj world w log target low tracks delivered)
    (hlayout : Layout pj world.dir w log) :
    ∃ tracks', (r.step pj world.dir).1.Follows pj world w log target low tracks'
      (delivered ++ (r.step pj world.dir).2.toList) := by
  unfold Reader.step
  cases hstatus : r.status with
  | returned err => exact ⟨tracks, by simpa using h⟩
  | reading =>
      cases hpending : r.pending with
      | some pending =>
          obtain ⟨rest, e⟩ := pending
          obtain ⟨rfl, -⟩ := h.pending rest e hpending
          refine ⟨tracks, ?_⟩
          cases rest with
          | nil => simpa [decodeStep] using h.endOfFile hpending
          | cons d rest =>
              by_cases hskip : d.seq ≤ r.fromSeq
              · simpa [decodeStep, hskip] using h.skip hlayout.dense hstatus hpending hskip
              · obtain ⟨env, henv, hnext⟩ := h.deliver hlayout.dense hstatus hpending hskip
                simpa [decodeStep, hskip, henv] using hnext
      | none =>
          have hviews := h.views
          cases tracks with
          | nil =>
              refine ⟨[], ?_⟩
              simpa [openStep, hviews] using h.finish hstatus hpending
          | cons t tracks =>
              refine ⟨tracks, ?_⟩
              by_cases hskip : t.1.endSeq ≤ r.fromSeq
              · simpa [openStep, hviews, trackView, Segment.view, hskip] using
                  h.skipFile hstatus hpending hskip
              · cases hfile : world.dir.lookup t.1.path with
                | none =>
                    simpa [openStep, hviews, trackView, Segment.view, hskip, hfile] using
                      h.missFile hstatus hlayout hskip hfile
                | some file =>
                    simpa [openStep, hviews, trackView, Segment.view, hskip, hfile] using
                      h.openFile hstatus hpending hlayout hfile

/-! ## Steps beside the reader -/

theorem append (h : r.Follows pj world w log target low tracks delivered)
    (hlayout : Layout pj world.dir w log) (hopen : w.curOpen = true) (agent : String)
    {env : E} {text : Bytes} (htext : pj.marshal env = some text) (clock : AppendClock) :
    r.Follows pj (world.append pj w agent (some env) clock .none)
      (w.append pj world.dir agent (some env) clock .none).2.1
      (log ++ [⟨w.seq + 1, agent, env, clock.ts⟩]) target low tracks delivered := by
  refine ⟨h.from_le, h.views,
    fun t ht => (h.tracked t ht).append hlayout hopen agent htext clock, ?_, ?_, h.gap,
    h.failed, h.gap_failed, ?_⟩
  · intro t ht
    rw [List.length_append]
    exact Nat.le_add_right_of_le (h.bounded t ht)
  · intro rest e hpending
    obtain ⟨he, first, high, hhigh, hrest⟩ := h.pending rest e hpending
    refine ⟨he, first, high, ?_, ?_⟩
    · rw [List.length_append]
      omega
    · rw [slice_append_left log _ hhigh, hrest]
  · intro hgap hfailed
    obtain ⟨pos, hprogress⟩ := h.progress hgap hfailed
    have hpos := hprogress.pos_le
    refine ⟨pos, ?_, ?_, hprogress.low_le, ?_, hprogress.files, hprogress.done⟩
    · rw [slice_append_left log _ hpos, hprogress.delivered_eq]
    · rw [List.length_append]
      omega
    · intro rest e hpending
      obtain ⟨high, hlow, hhigh, hrest, hcovers⟩ := hprogress.file rest e hpending
      refine ⟨high, hlow, ?_, ?_, hcovers⟩
      · rw [List.length_append]
        omega
      · rw [slice_append_left log _ hhigh, hrest]

theorem gc (h : r.Follows pj world w log target low tracks delivered)
    (hlayout : Layout pj world.dir w log) (now : Int) :
    r.Follows pj (world.gc w now) (w.gc world.dir now).1 log target low tracks delivered := by
  have hmore : (∃ d ∈ world.trimmed, r.fromSeq < d.seq) →
      ∃ d ∈ (world.gc w now).trimmed, r.fromSeq < d.seq := by
    rintro ⟨d, hd, hseq⟩
    exact ⟨d, List.mem_append_left _ hd, hseq⟩
  exact ⟨h.from_le, h.views, fun t ht => (h.tracked t ht).gc hlayout now, h.bounded, h.pending,
    fun hgap => hmore (h.gap hgap), fun err herr => (h.failed err herr).imp_right hmore,
    h.gap_failed, h.progress⟩

theorem tick (h : r.Follows pj world w log target low tracks delivered) (now : Int) :
    r.Follows pj { world with now := now } w log target low tracks delivered := by
  refine ⟨h.from_le, h.views, ?_, h.bounded, h.pending, h.gap, h.failed, h.gap_failed,
    h.progress⟩
  intro t ht
  exact (h.tracked t ht).imp_right fun htrimmed =>
    ⟨htrimmed.missing, htrimmed.named, htrimmed.recorded⟩

theorem progress_of_untrimmed (h : r.Follows pj world w log target low tracks delivered)
    (htrimmed : world.trimmed = []) :
    (∀ err, r.status ≠ .returned (some err)) ∧
      ∃ pos, r.Progress pj log target low tracks delivered pos := by
  have hnone : ¬ ∃ d ∈ world.trimmed, r.fromSeq < d.seq := by simp [htrimmed]
  have hstatus : ∀ err, r.status ≠ .returned (some err) :=
    fun err herr => hnone (h.failed err herr).2
  refine ⟨hstatus, h.progress ?_ hstatus⟩
  cases hgap : r.gap with
  | false => rfl
  | true => exact absurd (h.gap hgap) hnone

end Reader.Follows

/-! ## The snapshot -/

def Wal.tracks (w : Wal) : List (Segment × Bool) :=
  w.older.map (fun s => (s, false)) ++ [(w.cur, true)]

private theorem covers_tracks {older : List Segment} {cur : Segment} {target : Nat}
    (hcontiguous : Contiguous (older ++ [cur]))
    (hrange : ∀ s ∈ older ++ [cur], 1 ≤ s.startSeq ∧ s.startSeq ≤ s.endSeq + 1)
    (htarget : target ≤ cur.endSeq) :
    Covers target (oldestOf (older ++ [cur]) - 1)
      (older.map (fun s => (s, false)) ++ [(cur, true)]) := by
  induction older with
  | nil =>
      have hcur := hrange cur (by simp)
      refine ⟨?_, ?_, fun _ => rfl, htarget⟩
      · simp only [List.nil_append, oldestOf, List.head?_cons]
        omega
      · simp only [List.nil_append, oldestOf, List.head?_cons]
        omega
  | cons s older ih =>
      have hs := hrange s (by simp)
      have hnext : oldestOf (older ++ [cur]) - 1 = s.endSeq := by
        cases older with
        | nil =>
            have := (List.isChain_cons_cons.mp hcontiguous).1
            simp only [List.nil_append, oldestOf, List.head?_cons]
            omega
        | cons t older =>
            have := (List.isChain_cons_cons.mp hcontiguous).1
            simp only [List.cons_append, oldestOf, List.head?_cons]
            omega
      have hrest := ih hcontiguous.tail fun t ht => hrange t (List.mem_cons_of_mem s ht)
      rw [hnext] at hrest
      refine ⟨?_, ?_, by simp, hrest⟩
      · simp only [List.cons_append, oldestOf, List.head?_cons]
        omega
      · simp only [List.cons_append, oldestOf, List.head?_cons]
        omega

private theorem Wal.exists_oldest (w : Wal) : ∃ s ∈ w.segments, w.oldest = s.startSeq := by
  unfold Wal.oldest
  cases holder : w.older with
  | nil => exact ⟨w.cur, Layout.mem_cur w, rfl⟩
  | cons s rest => exact ⟨s, Layout.mem_older (by simp [holder]), rfl⟩

theorem Layout.one_le_oldest {dir : Directory} (h : Layout pj dir w log) : 1 ≤ w.oldest := by
  obtain ⟨s, hs, heq⟩ := w.exists_oldest
  exact heq ▸ (h.holds.range s hs).1

theorem Layout.oldest_le {dir : Directory} (h : Layout pj dir w log) :
    w.oldest ≤ log.length + 1 := by
  obtain ⟨s, hs, heq⟩ := w.exists_oldest
  have := h.holds.range s hs
  omega

theorem Layout.seq_not_expired {dir : Directory} (h : Layout pj dir w log)
    (hbound : w.seq + 1 < 2 ^ 64) : w.cursorExpired w.seq = false := by
  have holdest := h.oldest_le
  have hseq := h.seq_eq
  simp only [Wal.cursorExpired, Bool.and_eq_false_iff, decide_eq_false_iff_not]
  right
  rw [Nat.mod_eq_of_lt hbound]
  omega

theorem Layout.view_endSeq_le {dir : Directory} (h : Layout pj dir w log) {fromSeq : Nat}
    {v : SegView} (hv : v ∈ (w.snapshot fromSeq).views) : v.endSeq ≤ w.seq := by
  obtain ⟨segment, hsegment, rfl⟩ := List.mem_map.mp hv
  rw [h.seq_eq]
  exact (h.holds.range segment hsegment).2.2

def Wal.replayStart (w : Wal) (fromSeq : Nat) : Nat := max fromSeq (w.oldest - 1)

theorem Wal.follows_snapshot (hlayout : Layout pj world.dir w log)
    (hcontiguous : Contiguous w.segments) {fromSeq : Nat}
    (hexpired : w.cursorExpired fromSeq = true → ∃ d ∈ world.trimmed, fromSeq < d.seq) :
    (w.snapshot fromSeq).Follows pj world w log w.seq (w.replayStart fromSeq) w.tracks [] := by
  have hrange := hlayout.holds.range
  have hcovers := covers_tracks hcontiguous
    (fun s hs => ⟨(hrange s hs).1, (hrange s hs).2.1⟩)
    (Nat.le_of_eq (hlayout.seq_eq.trans hlayout.cur_end.symm))
  have holdest : w.oldest - 1 ≤ log.length := Nat.sub_le_of_le_add hlayout.oldest_le
  refine ⟨Nat.le_max_left _ _, ?_, ?_, ?_, by simp [snapshot], by simp [snapshot], ?_, ?_, ?_⟩
  · simp [snapshot, tracks, Wal.segments, trackView, Function.comp_def]
  · intro t ht
    left
    rcases List.mem_append.mp ht with ht | ht
    · obtain ⟨s, hs, rfl⟩ := List.mem_map.mp ht
      exact present_older hs
    · rw [List.mem_singleton.mp ht]
      exact present_cur w
  · intro t ht
    have hsegment : t.1 ∈ w.segments := by
      rcases List.mem_append.mp ht with ht | ht
      · obtain ⟨s, hs, rfl⟩ := List.mem_map.mp ht
        exact Layout.mem_older hs
      · rw [List.mem_singleton.mp ht]
        exact Layout.mem_cur w
    exact (hrange t.1 hsegment).2.2
  · intro err herr
    simp only [snapshot] at herr
    split at herr
    · rename_i hcond
      cases herr
      exact ⟨rfl, hexpired hcond⟩
    · cases herr
  · intro hdone
    rfl
  · intro hgap hfailed
    refine ⟨w.oldest - 1, ?_, holdest, Nat.le_refl _, by simp [snapshot], ?_, ?_⟩
    · rw [slice_eq_nil]
      exact Nat.le_max_right _ _
    · intro hpending
      rw [w.oldest_eq]
      exact hcovers
    · intro hdone
      simp only [snapshot] at hdone
      split at hdone <;> cases hdone

/-! ## Interleavings -/

structure Replay (E : Type) where
  world : World E
  reader : Reader
  delivered : List (Entry E)

inductive ReplayEvent (E : Type) where
  | write (ev : Event E)
  | read

def Event.runsBeside : Event E → Bool
  | .append .. => true
  | .gc _ => true
  | _ => false

def Replay.step (pj : ProtoJson E) (s : Replay E) : ReplayEvent E → Option (Replay E)
  | .write ev =>
      if ev.runsBeside then
        (World.timedStep pj s.world ev).map fun world => { s with world := world }
      else none
  | .read =>
      let next := s.reader.step pj s.world.dir
      some { s with reader := next.1, delivered := s.delivered ++ next.2.toList }

def Replay.Sound (pj : ProtoJson E) (fromSeq target low : Nat) (s : Replay E) : Prop :=
  ∃ w log tracks, s.world.wal = some w ∧ s.world.Retained pj log ∧
    s.reader.Follows pj s.world w log target low tracks s.delivered ∧
    s.reader.fromSeq = fromSeq

theorem Replay.Sound.step {fromSeq target low : Nat} {s next : Replay E}
    (h : s.Sound pj fromSeq target low) {ev : ReplayEvent E}
    (hstep : s.step pj ev = some next) : next.Sound pj fromSeq target low := by
  obtain ⟨w, log, tracks, hwal, hretained, hfollows, hfrom⟩ := h
  have hlayout := hretained.keeps.layout w hwal
  cases ev with
  | read =>
      cases hstep
      obtain ⟨tracks', hnext⟩ := hfollows.read hlayout
      refine ⟨w, log, tracks', hwal, hretained, hnext, ?_⟩
      rw [← hfrom]
      exact s.reader.step_fromSeq pj s.world.dir
  | write ev =>
      simp only [Replay.step] at hstep
      split at hstep
      · rename_i hbeside
        obtain ⟨world, hworld, rfl⟩ := Option.map_eq_some_iff.mp hstep
        obtain ⟨hclock, hsafe⟩ := restrict_eq_some.mp hworld
        cases safeStep_of_safeStep hsafe with
        | openLog hopen => cases hbeside
        | close hwal' => cases hbeside
        | @append w' agent env text clock hwal' hopen htext =>
            rw [hwal] at hwal'
            cases hwal'
            exact ⟨_, _, tracks, rfl, hretained.append hwal hopen agent htext hclock,
              hfollows.append hlayout hopen agent htext clock, hfrom⟩
        | @refused w' agent env clock hwal' hopen henv =>
            have hnow : s.world.now ≤ clock.opened := by
              simp only [World.clockAdvances, AppendClock.nondecreasing, Bool.and_eq_true,
                decide_eq_true_eq] at hclock
              omega
            exact ⟨w, log, tracks, hwal, hretained.tick hnow, hfollows.tick _, hfrom⟩
        | @gc w' now hwal' =>
            rw [hwal] at hwal'
            cases hwal'
            exact ⟨_, log, tracks, rfl, hretained.gc hwal (of_decide_eq_true hclock),
              hfollows.gc hlayout now, hfrom⟩
      · cases hstep

theorem World.Retained.trimmed_of_cursorExpired (h : world.Retained pj log)
    (hwal : world.wal = some w) {fromSeq : Nat} (hfrom : fromSeq ≤ w.lastSeq)
    (hbound : w.lastSeq + 1 < 2 ^ 64) (hexpired : w.cursorExpired fromSeq = true) :
    ∃ d ∈ world.trimmed, fromSeq < d.seq := by
  have hsegs : world.segments = w.segments := by simp [World.segments, hwal]
  simp only [Wal.cursorExpired, Bool.and_eq_true, decide_eq_true_eq] at hexpired
  rw [Nat.mod_eq_of_lt (by omega), w.oldest_eq, ← hsegs] at hexpired
  obtain ⟨d, hd, hseq⟩ := h.trimmed (fromSeq + 1) (by omega) hexpired.2
  exact ⟨d, hd, by omega⟩

theorem Dense.map_seq_slice (h : Dense pj log) {low high : Nat} (hhigh : high ≤ log.length) :
    (slice log low high).map Entry.seq = List.range' (low + 1) (high - low) := by
  induction high with
  | zero => simp [slice_eq_nil log (Nat.zero_le low)]
  | succ high ih =>
      by_cases hlow : low ≤ high
      · have hget := List.getElem?_eq_getElem (show high < log.length by omega)
        have hlength : high + 1 - low = high - low + 1 := by omega
        rw [slice_succ hlow hget, List.map_append, ih (by omega), hlength,
          List.range'_concat]
        simp only [List.map_cons, List.map_nil, h.seq hget]
        congr 2
        omega
      · rw [slice_eq_nil log (by omega)]
        have hzero : high + 1 - low = 0 := by omega
        rw [hzero]
        rfl

def Wal.firstReplayed (w : Wal) (fromSeq : Nat) : Nat :=
  if fromSeq = 0 then w.oldest else fromSeq + 1

theorem Wal.replayStart_succ {fromSeq : Nat} (holdest : 1 ≤ w.oldest)
    (hbound : fromSeq + 1 < 2 ^ 64) (hlive : ¬ w.cursorExpired fromSeq = true) :
    w.replayStart fromSeq + 1 = w.firstReplayed fromSeq := by
  simp only [Wal.cursorExpired, Bool.and_eq_true, decide_eq_true_eq,
    Nat.mod_eq_of_lt hbound] at hlive
  unfold Wal.replayStart Wal.firstReplayed
  split <;> omega

theorem Replay.run_returned {s final : Replay E} {err : Option ReadError}
    (hstatus : s.reader.status = .returned err) {steps : List (ReplayEvent E)}
    (hrun : run (Replay.step pj) s steps = some final) :
    final.reader.status = .returned err := by
  apply run_invariant (fun s : Replay E => s.reader.status = .returned err) _ hstatus hrun
  intro s ev next hs hstep
  cases ev with
  | read =>
      cases hstep
      simp [Reader.step, hs]
  | write ev =>
      simp only [Replay.step] at hstep
      split at hstep
      · obtain ⟨world, -, rfl⟩ := Option.map_eq_some_iff.mp hstep
        exact hs
      · cases hstep

/-- Beside any appends and collections, a `ReadFrom` that returns nil has delivered
every entry from its cursor to the end the WAL had at the snapshot or a later
one, and a `ReadFrom` that fails reports an expired cursor, truly. -/
theorem readFrom_complete_or_expired {events : List (Event E)} {now : Int}
    (hrun : run (World.timedStep pj) (World.empty now) events = some world)
    (hwal : world.wal = some w) {fromSeq : Nat} (hfrom : fromSeq ≤ w.lastSeq)
    (hbound : w.lastSeq + 1 < 2 ^ 64) {steps : List (ReplayEvent E)} {final : Replay E}
    (hreplay : run (Replay.step pj) ⟨world, w.snapshot fromSeq, []⟩ steps = some final) :
    (final.reader.status = .returned none →
      ∃ m, w.lastSeq ≤ m ∧
        final.delivered.map Entry.seq =
          List.range' (w.firstReplayed fromSeq) (m + 1 - w.firstReplayed fromSeq) ∧
        ∀ e ∈ final.delivered, final.world.latest e.seq = some e) ∧
    ∀ err, final.reader.status = .returned (some err) →
      err = .cursorExpired ∧ ∃ d ∈ final.world.trimmed, fromSeq < d.seq := by
  obtain ⟨log, hretained⟩ := run_retained hrun
  have hlayout := hretained.keeps.layout w hwal
  have hcontiguous := hretained.contiguous
  rw [show world.segments = w.segments by simp [World.segments, hwal]] at hcontiguous
  have hsnapshot := Wal.follows_snapshot hlayout hcontiguous
    (hretained.trimmed_of_cursorExpired hwal hfrom hbound)
  have hsound : final.Sound pj fromSeq w.seq (w.replayStart fromSeq) := by
    apply run_invariant (Replay.Sound pj fromSeq w.seq (w.replayStart fromSeq))
      (fun s ev next hs hstep => hs.step hstep) _ hreplay
    exact ⟨w, log, w.tracks, hwal, hretained, hsnapshot, rfl⟩
  obtain ⟨w', log', tracks, hwal', hretained', hfollows, hfromSeq⟩ := hsound
  constructor
  · intro hdone
    obtain ⟨pos, hprogress⟩ := hfollows.progress (hfollows.gap_failed hdone)
      (by simp [hdone])
    refine ⟨pos, hprogress.done hdone, ?_, ?_⟩
    · have hlive : ¬ w.cursorExpired fromSeq = true := by
        intro hexpired
        have hstatus : (w.snapshot fromSeq).status = .returned (some .cursorExpired) := by
          simp [Wal.snapshot, hexpired]
        have hreturned := Replay.run_returned hstatus hreplay
        rw [hdone] at hreturned
        cases hreturned
      have hstart := Wal.replayStart_succ hlayout.one_le_oldest (by omega) hlive
      have hlength : pos - w.replayStart fromSeq = pos + 1 - w.firstReplayed fromSeq := by
        omega
      rw [hprogress.delivered_eq, hretained'.keeps.dense.map_seq_slice hprogress.pos_le,
        hstart, hlength]
    · intro e he
      rw [hprogress.delivered_eq] at he
      obtain ⟨i, -, -, hi⟩ := mem_slice.mp he
      exact hretained'.latest e (List.mem_of_getElem? hi)
  · intro err herr
    rw [← hfromSeq]
    exact hfollows.failed err herr

/-- While the first segment is read, a third entry arrives in the second, which
was empty at the snapshot. -/
def replayScenario : Option (Wal × Replay Unit) := do
  let world ← run (World.timedStep emptyMessage) (World.empty 0)
    [.openLog ⟨"wal", 0, 60, 10⟩ 0, .append "node-a" (some ()) ⟨1, 1, 1⟩ .none,
      .append "node-b" (some ()) ⟨2, 2, 2⟩ .none]
  let w ← world.wal
  let final ← run (Replay.step emptyMessage) ⟨world, w.snapshot 0, []⟩
    ([.read, .read, .write (.append "node-a" (some ()) ⟨3, 3, 3⟩ .none)] ++
      List.replicate 8 .read)
  some (w, final)

theorem replayScenario_eq :
    replayScenario.map (fun s => (s.1.lastSeq, s.2.reader.status,
      s.2.delivered.map fun e => (e.seq, e.agent))) =
      some (2, .returned none, [(1, "node-a"), (2, "node-b"), (3, "node-a")]) := by
  decide +kernel

theorem readFrom_complete_replayScenario :
    ∃ w final, replayScenario = some (w, final) ∧
      ∃ m, w.lastSeq ≤ m ∧
        final.delivered.map Entry.seq =
          List.range' (w.firstReplayed 0) (m + 1 - w.firstReplayed 0) ∧
        ∀ e ∈ final.delivered, final.world.latest e.seq = some e := by
  obtain ⟨⟨w, final⟩, hscenario, hvalues⟩ := Option.map_eq_some_iff.mp replayScenario_eq
  simp only [Prod.mk.injEq] at hvalues
  refine ⟨w, final, hscenario, ?_⟩
  simp only [replayScenario, bind, Option.bind_eq_some_iff] at hscenario
  obtain ⟨world, hrun, w', hwal, final', hreplay, heq⟩ := hscenario
  cases heq
  exact (readFrom_complete_or_expired hrun hwal (Nat.zero_le _)
    (by rw [hvalues.1]; decide) hreplay).1 hvalues.2.1

end KloudlensAggregator.Envwal
