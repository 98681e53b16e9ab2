import KloudlensAggregator.Envwal.Retention

/-!
# A reader beside a writer

What a `ReadFrom` in progress can rely on while entries are appended and
segments collected: a file of its snapshot keeps its records, grows only if it
was the current one, and is missing only after `GC` trimmed it.
-/

namespace KloudlensAggregator.Envwal

open KloudlensAggregator.Foundation
open KloudlensAggregator.Foundation.Json

variable {E : Type} {pj : ProtoJson E} {world : World E} {log : List (Entry E)} {w : Wal}

/-- The segment is part of the WAL; only one that `grows` may have got longer. -/
def Present (w : Wal) (grows : Bool) (s : Segment) : Prop :=
  ∃ t ∈ w.segments, t.path = s.path ∧ t.startSeq = s.startSeq ∧ s.endSeq ≤ t.endSeq ∧
    (grows = false → t.endSeq = s.endSeq ∧ t ∈ w.older)

/-- The file is deleted, and no later segment will get its name. -/
structure Trimmed (world : World E) (w : Wal) (fromSeq : Nat) (s : Segment) : Prop where
  missing : world.dir.lookup s.path = none
  named : ∃ n ≤ w.seq, s.path = segmentName n
  recorded : fromSeq < s.endSeq → ∃ d ∈ world.trimmed, fromSeq < d.seq

def Tracked (world : World E) (w : Wal) (fromSeq : Nat) (grows : Bool) (s : Segment) : Prop :=
  Present w grows s ∨ Trimmed world w fromSeq s

theorem present_older {s : Segment} (h : s ∈ w.older) : Present w false s :=
  ⟨s, Layout.mem_older h, rfl, rfl, Nat.le_refl _, fun _ => ⟨rfl, h⟩⟩

theorem present_cur (w : Wal) : Present w true w.cur :=
  ⟨w.cur, Layout.mem_cur w, rfl, rfl, Nat.le_refl _, fun h => nomatch h⟩

theorem Present.decodeAll_file {s : Segment} {grows : Bool} (h : Present w grows s)
    (hlayout : Layout pj world.dir w log) :
    ∃ file high, world.dir.lookup s.path = some file ∧ s.endSeq ≤ high ∧
      high ≤ log.length ∧ (grows = false → high = s.endSeq) ∧
      decodeAll unmarshalEntry file.data =
        ((slice log (s.startSeq - 1) high).map (Entry.disk pj), none) := by
  obtain ⟨t, ht, hpath, hstart, hend, hgrows⟩ := h
  obtain ⟨file, hfile, hdecode⟩ := hlayout.holds.decodeAll_file hlayout.dense ht
  refine ⟨file, t.endSeq, hpath ▸ hfile, hend, (hlayout.holds.range t ht).2.2,
    fun h => (hgrows h).1, ?_⟩
  rw [hdecode, Segment.entries, hstart]

/-! ## Append -/

theorem lookup_append_of_ne {dir : Directory} (hopen : w.curOpen = true) (agent : String)
    {env : E} {text : Bytes} (htext : pj.marshal env = some text) (clock : AppendClock)
    {name : String} (hcur : name ≠ w.cur.path) (hfresh : name ≠ segmentName (w.seq + 2)) :
    (w.append pj dir agent (some env) clock .none).2.2.lookup name = dir.lookup name := by
  rw [append_eq dir hopen agent htext clock]
  dsimp only
  split
  · simp only [openSegment]
    rw [Directory.lookup_openAppend_of_ne hfresh, Wal.lookup_writeLine_of_ne hcur]
  · exact Wal.lookup_writeLine_of_ne hcur _ _

theorem append_seq {dir : Directory} (hopen : w.curOpen = true) (agent : String)
    {env : E} {text : Bytes} (htext : pj.marshal env = some text) (clock : AppendClock) :
    (w.append pj dir agent (some env) clock .none).2.1.seq = w.seq + 1 := by
  rw [append_eq dir hopen agent htext clock]
  dsimp only
  split <;> rfl

theorem Present.append {s : Segment} {grows : Bool} (h : Present w grows s)
    (hlayout : Layout pj world.dir w log) (hopen : w.curOpen = true) (agent : String)
    {env : E} {text : Bytes} (htext : pj.marshal env = some text) (clock : AppendClock) :
    Present (w.append pj world.dir agent (some env) clock .none).2.1 grows s := by
  obtain ⟨t, ht, hpath, hstart, hend, hgrows⟩ := h
  have hcurEnd : w.cur.endSeq ≤ w.seq + 1 := by
    rw [hlayout.cur_end, hlayout.seq_eq]
    exact Nat.le_succ _
  rw [append_eq world.dir hopen agent htext clock]
  dsimp only
  by_cases holder : t ∈ w.older
  · have hgrows' := fun h => (hgrows h).1
    split
    · exact ⟨t, List.mem_append_left _ (List.mem_append_left _ holder), hpath, hstart, hend,
        fun h => ⟨hgrows' h, List.mem_append_left _ holder⟩⟩
    · exact ⟨t, List.mem_append_left _ holder, hpath, hstart, hend,
        fun h => ⟨hgrows' h, holder⟩⟩
  · have hcur : t = w.cur := by
      rcases List.mem_append.mp ht with ht | ht
      · exact absurd ht holder
      · exact List.mem_singleton.mp ht
    subst hcur
    have hnot : grows ≠ false := fun h => holder (hgrows h).2
    split
    · exact ⟨_, List.mem_append_left _ (List.mem_append_right _ (List.mem_singleton_self _)),
        hpath, hstart, hend.trans hcurEnd, fun h => absurd h hnot⟩
    · exact ⟨_, List.mem_append_right _ (List.mem_singleton_self _), hpath, hstart,
        hend.trans hcurEnd, fun h => absurd h hnot⟩

theorem Trimmed.append {s : Segment} {fromSeq : Nat} (h : Trimmed world w fromSeq s)
    (hlayout : Layout pj world.dir w log) (hopen : w.curOpen = true) (agent : String)
    {env : E} {text : Bytes} (htext : pj.marshal env = some text) (clock : AppendClock) :
    Trimmed (world.append pj w agent (some env) clock .none)
      (w.append pj world.dir agent (some env) clock .none).2.1 fromSeq s := by
  obtain ⟨n, hn, hname⟩ := h.named
  have hcur : s.path ≠ w.cur.path := by
    intro heq
    obtain ⟨file, hfile, -⟩ := hlayout.holds.file w.cur (Layout.mem_cur w)
    rw [← heq, h.missing] at hfile
    cases hfile
  have hfresh : s.path ≠ segmentName (w.seq + 2) := by
    intro heq
    have := segmentName_injective (hname.symm.trans heq)
    omega
  refine ⟨?_, ⟨n, ?_, hname⟩, h.recorded⟩
  · exact (lookup_append_of_ne hopen agent htext clock hcur hfresh).trans h.missing
  · rw [append_seq hopen agent htext clock]
    omega

theorem Tracked.append {s : Segment} {fromSeq : Nat} {grows : Bool}
    (h : Tracked world w fromSeq grows s) (hlayout : Layout pj world.dir w log)
    (hopen : w.curOpen = true) (agent : String) {env : E} {text : Bytes}
    (htext : pj.marshal env = some text) (clock : AppendClock) :
    Tracked (world.append pj w agent (some env) clock .none)
      (w.append pj world.dir agent (some env) clock .none).2.1 fromSeq grows s :=
  h.imp (fun h => h.append hlayout hopen agent htext clock)
    fun h => h.append hlayout hopen agent htext clock

/-! ## GC -/

theorem Present.gc {s : Segment} {fromSeq : Nat} {grows : Bool} (h : Present w grows s)
    (hlayout : Layout pj world.dir w log) (now : Int) :
    Tracked (world.gc w now) (w.gc world.dir now).1 fromSeq grows s := by
  obtain ⟨t, ht, hpath, hstart, hend, hgrows⟩ := h
  rcases List.mem_append.mp ht with holder | hcur
  · rcases Wal.mem_gcRemoved_or holder now with hkept | hremoved
    · exact .inl ⟨t, List.mem_append_left _ hkept, hpath, hstart, hend,
        fun h => ⟨(hgrows h).1, hkept⟩⟩
    · right
      have hrange := hlayout.holds.range t ht
      have hnonempty := hlayout.older_nonempty t holder
      refine ⟨?_, ⟨t.startSeq, ?_, ?_⟩, ?_⟩
      · have hmem : s.path ∈ (w.gcRemoved now).map Segment.path :=
          hpath ▸ List.mem_map_of_mem hremoved
        exact (Directory.lookup_removeAll world.dir _ s.path).trans (if_pos hmem)
      · change t.startSeq ≤ w.seq
        rw [hlayout.seq_eq]
        omega
      · rw [← hpath, hlayout.holds.path t ht]
      · intro hfrom
        obtain ⟨d, hd, hseq⟩ := hlayout.holds.exists_fileRecord hlayout.dense ht hnonempty
          (Nat.le_refl t.endSeq)
        exact ⟨d, List.mem_append_right _ (List.mem_flatMap.mpr ⟨t, hremoved, hd⟩), by omega⟩
  · have hnot : grows ≠ false := by
      intro h
      have := (hgrows h).2
      rw [List.mem_singleton.mp hcur] at this
      exact hlayout.cur_not_mem_older this
    exact .inl ⟨t, List.mem_append_right _ hcur, hpath, hstart, hend, fun h => absurd h hnot⟩

theorem Trimmed.gc {s : Segment} {fromSeq : Nat} (h : Trimmed world w fromSeq s) (now : Int) :
    Trimmed (world.gc w now) (w.gc world.dir now).1 fromSeq s := by
  refine ⟨?_, h.named, ?_⟩
  · have hmissing : (world.dir.removeAll ((w.gcRemoved now).map Segment.path)).lookup s.path =
        none := by
      rw [Directory.lookup_removeAll, h.missing, ite_self]
    exact hmissing
  · intro hfrom
    obtain ⟨d, hd, hseq⟩ := h.recorded hfrom
    exact ⟨d, List.mem_append_left _ hd, hseq⟩

theorem Tracked.gc {s : Segment} {fromSeq : Nat} {grows : Bool}
    (h : Tracked world w fromSeq grows s) (hlayout : Layout pj world.dir w log) (now : Int) :
    Tracked (world.gc w now) (w.gc world.dir now).1 fromSeq grows s :=
  h.elim (fun h => h.gc hlayout now) fun h => .inr (h.gc now)

end KloudlensAggregator.Envwal
