import KloudlensAggregator.Envwal.World
import KloudlensAggregator.Foundation.Slice

/-!
# How the segments lie in the directory

`Holds dir segs log` says that the directory keeps the records of a dense log in
the files of `segs`, each file under the name of its first seq, and that every
other file is blank.  `Layout` adds what an open WAL knows about it.  The
lemmas say how each file operation changes the picture; the invariants of the
later modules are put together from them.
-/

namespace KloudlensAggregator.Envwal

open KloudlensAggregator.Foundation
open KloudlensAggregator.Foundation.Json

/-! ## Segment names -/

private theorem ofDigitChars_leftpad (digits : List Char) (n : Nat) :
    Nat.ofDigitChars 10 (List.leftpad n '0' digits) 0 = Nat.ofDigitChars 10 digits 0 := by
  have hzeros : ∀ k, Nat.ofDigitChars 10 (List.replicate k '0') 0 = 0 := by
    intro k
    induction k with
    | zero => rfl
    | succ k ih => simpa [Nat.ofDigitChars, List.replicate_succ] using ih
  rw [List.leftpad, Nat.ofDigitChars_append, hzeros]

theorem segmentName_injective {m n : Nat} (h : segmentName m = segmentName n) :
    m = n := by
  have hpadded : List.leftpad 20 '0' (Nat.toDigits 10 m) =
      List.leftpad 20 '0' (Nat.toDigits 10 n) := by
    simp only [segmentName, String.append_left_inj, String.append_right_inj] at h
    exact String.ofList_injective h
  calc m = Nat.ofDigitChars 10 (List.leftpad 20 '0' (Nat.toDigits 10 m)) 0 := by
        rw [ofDigitChars_leftpad, Nat.ofDigitChars_ten_toDigits]
    _ = Nat.ofDigitChars 10 (List.leftpad 20 '0' (Nat.toDigits 10 n)) 0 := by
        rw [hpadded]
    _ = n := by rw [ofDigitChars_leftpad, Nat.ofDigitChars_ten_toDigits]

theorem isSegmentName_segmentName (n : Nat) : isSegmentName (segmentName n) = true := by
  simp only [isSegmentName, segmentName, List.leftpad, String.toList_append,
    String.toList_ofList, List.length_append, Bool.and_eq_true, decide_eq_true_eq]
  constructor
  · simp
    omega
  · simp

/-! ## The log a directory holds -/

variable {E : Type} {pj : ProtoJson E} {dir : Directory} {segs : List Segment}
  {log : List (Entry E)}

/-- The seqs of the log are 1, 2, ... and every envelope in it has a text. -/
structure Dense (pj : ProtoJson E) (log : List (Entry E)) : Prop where
  seq : ∀ {i e}, log[i]? = some e → e.seq = i + 1
  marshals : ∀ e ∈ log, ∃ text, pj.marshal e.envelope = some text

def Segment.entries (log : List (Entry E)) (s : Segment) : List (Entry E) :=
  slice log (s.startSeq - 1) s.endSeq

structure Holds (pj : ProtoJson E) (dir : Directory) (segs : List Segment)
    (log : List (Entry E)) : Prop where
  range : ∀ s ∈ segs, 1 ≤ s.startSeq ∧ s.startSeq ≤ s.endSeq + 1 ∧ s.endSeq ≤ log.length
  ordered : segs.Pairwise fun a b => a.startSeq < b.startSeq ∧ a.endSeq < b.startSeq
  path : ∀ s ∈ segs, s.path = segmentName s.startSeq
  file : ∀ s ∈ segs, ∃ file, dir.lookup s.path = some file ∧
    Framed marshalEntry ((s.entries log).map (Entry.disk pj)) file.data
  blank : ∀ name file, dir.lookup name = some file → (∀ s ∈ segs, s.path ≠ name) →
    Framed marshalEntry [] file.data

/-- What an open WAL knows of the directory. -/
structure Layout (pj : ProtoJson E) (dir : Directory) (w : Wal) (log : List (Entry E)) :
    Prop where
  dense : Dense pj log
  holds : Holds pj dir w.segments log
  older_nonempty : ∀ s ∈ w.older, s.startSeq ≤ s.endSeq
  cur_end : w.cur.endSeq = log.length
  seq_eq : w.seq = log.length

theorem Dense.nil : Dense pj ([] : List (Entry E)) :=
  ⟨by simp, by simp⟩

theorem Dense.take (h : Dense pj log) (n : Nat) : Dense pj (log.take n) := by
  constructor
  · intro i e he
    rw [List.getElem?_take] at he
    split at he
    · exact h.seq he
    · cases he
  · intro e he
    exact h.marshals e (List.mem_of_mem_take he)

theorem Dense.concat (h : Dense pj log) {e : Entry E} (hseq : e.seq = log.length + 1)
    {text : Bytes} (htext : pj.marshal e.envelope = some text) :
    Dense pj (log ++ [e]) := by
  constructor
  · intro i e' he
    rcases Nat.lt_or_ge i log.length with hi | hi
    · rw [List.getElem?_append_left hi] at he
      exact h.seq he
    · rw [List.getElem?_append_right hi] at he
      obtain ⟨hlength, hi'⟩ := List.getElem?_eq_some_iff.mp he
      simp only [List.length_singleton] at hlength
      have : i = log.length := by omega
      subst this
      simp only [Nat.sub_self, List.getElem_cons_zero] at hi'
      rw [← hi', hseq]
  · intro e' he
    rcases List.mem_append.mp he with he | he
    · exact h.marshals e' he
    · rw [List.mem_singleton.mp he]
      exact ⟨text, htext⟩

theorem Entry.isObject_disk {e : Entry E} (h : ∃ text, pj.marshal e.envelope = some text) :
    IsObject (e.disk pj).envelope := by
  obtain ⟨text, htext⟩ := h
  simpa [Entry.disk, htext] using pj.marshal_isObject htext

theorem Entry.unmarshal_disk {e : Entry E} (h : ∃ text, pj.marshal e.envelope = some text) :
    pj.unmarshal (e.disk pj).envelope = some e.envelope := by
  obtain ⟨text, htext⟩ := h
  simpa [Entry.disk, htext] using pj.unmarshal_marshal htext

theorem Entry.disk_eq {env : E} {text : Bytes} (htext : pj.marshal env = some text) (seq : Nat)
    (agent : String) (ts : Int) :
    (⟨seq, agent, env, ts⟩ : Entry E).disk pj = ⟨seq, agent, text, ts⟩ := by
  simp [Entry.disk, htext]

theorem Dense.getElem?_of_mem (h : Dense pj log) {e : Entry E} (he : e ∈ log) :
    1 ≤ e.seq ∧ e.seq ≤ log.length ∧ log[e.seq - 1]? = some e := by
  obtain ⟨i, hi⟩ := List.mem_iff_getElem?.mp he
  have hseq := h.seq hi
  have hlength := (List.getElem?_eq_some_iff.mp hi).1
  rw [show e.seq - 1 = i by omega]
  exact ⟨by omega, by omega, hi⟩

theorem decodeAll_framed_append {entries : List (Entry E)}
    (h : ∀ e ∈ entries, ∃ text, pj.marshal e.envelope = some text) {data : Bytes}
    (hframed : Framed marshalEntry (entries.map (Entry.disk pj)) data) (rest : Bytes) :
    decodeAll unmarshalEntry (data ++ rest) =
      (entries.map (Entry.disk pj) ++ (decodeAll unmarshalEntry rest).1,
        (decodeAll unmarshalEntry rest).2) := by
  have hobject : ∀ d ∈ entries.map (Entry.disk pj), IsObject d.envelope := by
    intro d hd
    obtain ⟨e, he, rfl⟩ := List.mem_map.mp hd
    exact Entry.isObject_disk (h e he)
  exact hframed.decodeAll_append (fun d hd => isObject_marshalEntry (hobject d hd))
    (fun d hd => unmarshalEntry_marshalEntry (hobject d hd)) rest

theorem decodeAll_framed {entries : List (Entry E)}
    (h : ∀ e ∈ entries, ∃ text, pj.marshal e.envelope = some text) {data : Bytes}
    (hframed : Framed marshalEntry (entries.map (Entry.disk pj)) data) :
    decodeAll unmarshalEntry data = (entries.map (Entry.disk pj), none) := by
  have hnil : decodeAll unmarshalEntry [] = ([], none) := rfl
  have hdecode := decodeAll_framed_append h hframed []
  rwa [List.append_nil, hnil, List.append_nil] at hdecode

theorem Segment.mem_of_mem_entries {s : Segment} {e : Entry E}
    (h : e ∈ s.entries log) : e ∈ log := by
  obtain ⟨i, -, -, hi⟩ := mem_slice.mp h
  exact List.mem_of_getElem? hi

namespace Holds

theorem startSeq_injective (h : Holds pj dir segs log) {s t : Segment}
    (hs : s ∈ segs) (ht : t ∈ segs) (heq : s.startSeq = t.startSeq) : s = t := by
  have hnodup : (segs.map Segment.startSeq).Nodup := by
    apply List.pairwise_map.mpr
    exact h.ordered.imp fun hab => Nat.ne_of_lt hab.1
  exact List.inj_on_of_nodup_map hnodup hs ht heq

theorem path_injective (h : Holds pj dir segs log) {s t : Segment}
    (hs : s ∈ segs) (ht : t ∈ segs) (heq : s.path = t.path) : s = t := by
  rw [h.path s hs, h.path t ht] at heq
  exact h.startSeq_injective hs ht (segmentName_injective heq)

theorem empty : Holds pj ∅ [] ([] : List (Entry E)) := by
  constructor <;> simp

theorem decodeAll_file (h : Holds pj dir segs log) (hdense : Dense pj log)
    {s : Segment} (hs : s ∈ segs) :
    ∃ file, dir.lookup s.path = some file ∧
      decodeAll unmarshalEntry file.data = ((s.entries log).map (Entry.disk pj), none) := by
  obtain ⟨file, hfile, hframed⟩ := h.file s hs
  exact ⟨file, hfile,
    decodeAll_framed (fun e he => hdense.marshals e (s.mem_of_mem_entries he)) hframed⟩

theorem remove (h : Holds pj dir segs log) {kept removed : List Segment}
    (hkept : kept.Sublist segs) (hremoved : ∀ s ∈ removed, s ∈ segs)
    (hsplit : ∀ s ∈ segs, s ∈ kept ∨ s ∈ removed)
    (hdisjoint : ∀ s ∈ kept, s ∉ removed) :
    Holds pj (dir.removeAll (removed.map Segment.path)) kept log := by
  have hsub : ∀ s ∈ kept, s ∈ segs := fun s hs => hkept.subset hs
  constructor
  · intro s hs
    exact h.range s (hsub s hs)
  · exact h.ordered.sublist hkept
  · intro s hs
    exact h.path s (hsub s hs)
  · intro s hs
    obtain ⟨file, hfile, hframed⟩ := h.file s (hsub s hs)
    have hnot : s.path ∉ removed.map Segment.path := by
      intro hpath
      obtain ⟨t, ht, heq⟩ := List.mem_map.mp hpath
      have hst := h.path_injective (hremoved t ht) (hsub s hs) heq
      exact hdisjoint s hs (hst ▸ ht)
    refine ⟨file, ?_, hframed⟩
    rw [Directory.lookup_removeAll, if_neg hnot, hfile]
  · intro name file hfile hnot
    rw [Directory.lookup_removeAll] at hfile
    split at hfile
    · cases hfile
    · rename_i hname
      apply h.blank name file hfile
      intro s hs heq
      rcases hsplit s hs with hs | hs
      · exact hnot s hs heq
      · exact hname (List.mem_map.mpr ⟨s, hs, heq⟩)

theorem openSegment (h : Holds pj dir segs log)
    (hnonempty : ∀ s ∈ segs, s.startSeq ≤ s.endSeq) (now : Int) :
    Holds pj (Envwal.openSegment log.length dir now).2
      (segs ++ [(Envwal.openSegment log.length dir now).1]) log := by
  have hbefore : ∀ s ∈ segs, s.startSeq < log.length + 1 ∧ s.endSeq < log.length + 1 := by
    intro s hs
    have := h.range s hs
    have := hnonempty s hs
    omega
  have hfresh : ∀ s ∈ segs, s.path ≠ segmentName (log.length + 1) := by
    intro s hs heq
    rw [h.path s hs] at heq
    have := segmentName_injective heq
    have := hbefore s hs
    omega
  simp only [Envwal.openSegment]
  constructor
  · intro s hs
    rcases List.mem_append.mp hs with hs | hs
    · exact h.range s hs
    · rw [List.mem_singleton.mp hs]
      simp
  · apply List.pairwise_append.mpr
    refine ⟨h.ordered, List.pairwise_singleton _ _, ?_⟩
    intro s hs t ht
    rw [List.mem_singleton.mp ht]
    exact hbefore s hs
  · intro s hs
    rcases List.mem_append.mp hs with hs | hs
    · exact h.path s hs
    · rw [List.mem_singleton.mp hs]
  · intro s hs
    rcases List.mem_append.mp hs with hs | hs
    · rw [Directory.lookup_openAppend_of_ne (hfresh s hs)]
      exact h.file s hs
    · rw [List.mem_singleton.mp hs]
      refine ⟨_, Directory.lookup_openAppend_self dir _ now, ?_⟩
      have hnil : slice log (log.length + 1 - 1) log.length = [] :=
        slice_eq_nil log (by omega)
      simp only [Segment.entries, hnil, List.map_nil]
      cases hfile : dir.lookup (segmentName (log.length + 1)) with
      | none => exact Framed.empty
      | some file => exact h.blank _ file hfile hfresh
  · intro name file hfile hnot
    have hname : name ≠ segmentName (log.length + 1) := by
      rintro rfl
      exact hnot _ (List.mem_append_right segs (List.mem_singleton_self _)) rfl
    rw [Directory.lookup_openAppend_of_ne hname] at hfile
    exact h.blank name file hfile fun s hs => hnot s (List.mem_append_left _ hs)

theorem write {older : List Segment} {cur : Segment}
    (h : Holds pj dir (older ++ [cur]) log) (hend : cur.endSeq = log.length)
    {e : Entry E} {bytes : Bytes} (hbytes : Framed marshalEntry [e.disk pj] bytes)
    {dir' : Directory}
    (hself : ∀ file, dir.lookup cur.path = some file →
      ∃ mtime, dir'.lookup cur.path = some ⟨file.data ++ bytes, mtime⟩)
    (hother : ∀ name, name ≠ cur.path → dir'.lookup name = dir.lookup name)
    (size : Nat) :
    Holds pj dir' (older ++ [{ cur with bytes := size, endSeq := log.length + 1 }])
      (log ++ [e]) := by
  have hcur := List.mem_append_right older (List.mem_singleton_self cur)
  have hrange := h.range cur hcur
  have hordered := List.pairwise_append.mp h.ordered
  have hne : ∀ s ∈ older, s.path ≠ cur.path := by
    intro s hs heq
    have hlt := (hordered.2.2 s hs cur (List.mem_singleton_self cur)).1
    rw [h.path_injective (List.mem_append_left _ hs) hcur heq] at hlt
    omega
  constructor
  · intro s hs
    rcases List.mem_append.mp hs with hs | hs
    · have := h.range s (List.mem_append_left _ hs)
      simp only [List.length_append, List.length_singleton]
      omega
    · rw [List.mem_singleton.mp hs]
      simp only [List.length_append, List.length_singleton]
      omega
  · apply List.pairwise_append.mpr
    refine ⟨hordered.1, List.pairwise_singleton _ _, ?_⟩
    intro s hs t ht
    rw [List.mem_singleton.mp ht]
    exact hordered.2.2 s hs cur (List.mem_singleton_self cur)
  · intro s hs
    rcases List.mem_append.mp hs with hs | hs
    · exact h.path s (List.mem_append_left _ hs)
    · rw [List.mem_singleton.mp hs]
      exact h.path cur hcur
  · intro s hs
    rcases List.mem_append.mp hs with hs | hs
    · have hsegs := List.mem_append_left [cur] hs
      rw [hother s.path (hne s hs), Segment.entries,
        slice_append_left log [e] (h.range s hsegs).2.2]
      exact h.file s hsegs
    · obtain ⟨file, hfile, hframed⟩ := h.file cur hcur
      obtain ⟨mtime, hfile'⟩ := hself file hfile
      have hlast : (log ++ [e])[log.length]? = some e := by simp
      have hentries : slice (log ++ [e]) (cur.startSeq - 1) (log.length + 1) =
          cur.entries log ++ [e] := by
        rw [slice_succ (by omega) hlast, slice_append_left log [e] (Nat.le_refl _),
          Segment.entries, hend]
      rw [List.mem_singleton.mp hs]
      refine ⟨_, hfile', ?_⟩
      simp only [Segment.entries] at hentries ⊢
      rw [hentries, List.map_append]
      exact hframed.append hbytes
  · intro name file hfile hnot
    have hname : name ≠ cur.path := by
      rintro rfl
      exact hnot _ (List.mem_append_right older (List.mem_singleton_self _)) rfl
    rw [hother name hname] at hfile
    apply h.blank name file hfile
    intro s hs
    rcases List.mem_append.mp hs with hs | hs
    · exact hnot s (List.mem_append_left _ hs)
    · rw [List.mem_singleton.mp hs]
      exact hname.symm

theorem congr (h : Holds pj dir segs log) {dir' : Directory}
    (hdata : ∀ name, (dir'.lookup name).map File.data = (dir.lookup name).map File.data) :
    Holds pj dir' segs log := by
  refine ⟨h.range, h.ordered, h.path, ?_, ?_⟩
  · intro s hs
    obtain ⟨file, hfile, hframed⟩ := h.file s hs
    have hsame := hdata s.path
    rw [hfile] at hsame
    obtain ⟨file', hfile', heq⟩ := Option.map_eq_some_iff.mp hsame
    exact ⟨file', hfile', heq ▸ hframed⟩
  · intro name file hfile hnot
    have hsame := hdata name
    rw [hfile] at hsame
    obtain ⟨file', hfile', heq⟩ := Option.map_eq_some_iff.mp hsame.symm
    rw [← heq]
    exact h.blank name file' hfile' hnot

/-! ### Reload -/

theorem map (h : Holds pj dir segs log) {f : Segment → Segment}
    (hpath : ∀ s, (f s).path = s.path) (hstart : ∀ s, (f s).startSeq = s.startSeq)
    (hend : ∀ s, (f s).endSeq = s.endSeq) : Holds pj dir (segs.map f) log := by
  constructor
  · intro s hs
    obtain ⟨t, ht, rfl⟩ := List.mem_map.mp hs
    rw [hstart, hend]
    exact h.range t ht
  · apply List.pairwise_map.mpr
    simpa only [hstart, hend] using h.ordered
  · intro s hs
    obtain ⟨t, ht, rfl⟩ := List.mem_map.mp hs
    rw [hpath, hstart]
    exact h.path t ht
  · intro s hs
    obtain ⟨t, ht, rfl⟩ := List.mem_map.mp hs
    rw [hpath, Segment.entries, hstart, hend]
    exact h.file t ht
  · intro name file hfile hnot
    apply h.blank name file hfile
    intro s hs
    rw [← hpath]
    exact hnot (f s) (List.mem_map_of_mem hs)

theorem filter_nonempty (h : Holds pj dir segs log) :
    Holds pj dir (segs.filter fun s => s.startSeq ≤ s.endSeq) log := by
  have hsub : ∀ s ∈ segs.filter fun s => s.startSeq ≤ s.endSeq, s ∈ segs :=
    fun s hs => List.mem_of_mem_filter hs
  constructor
  · exact fun s hs => h.range s (hsub s hs)
  · exact h.ordered.filter _
  · exact fun s hs => h.path s (hsub s hs)
  · exact fun s hs => h.file s (hsub s hs)
  · intro name file hfile hnot
    by_cases hname : ∃ s ∈ segs, s.path = name
    · obtain ⟨s, hs, rfl⟩ := hname
      obtain ⟨file', hfile', hframed⟩ := h.file s hs
      have hempty : ¬ s.startSeq ≤ s.endSeq := by
        intro hrange
        exact hnot s (List.mem_filter.mpr ⟨hs, decide_eq_true hrange⟩) rfl
      rw [hfile] at hfile'
      cases hfile'
      rwa [Segment.entries, slice_eq_nil log (by omega), List.map_nil] at hframed
    · apply h.blank name file hfile
      intro s hs heq
      exact hname ⟨s, hs, heq⟩

theorem take (h : Holds pj dir segs log) {n : Nat} (hn : n ≤ log.length)
    (hend : ∀ s ∈ segs, s.endSeq ≤ n) : Holds pj dir segs (log.take n) := by
  constructor
  · intro s hs
    have := h.range s hs
    have := hend s hs
    simp only [List.length_take]
    omega
  · exact h.ordered
  · exact h.path
  · intro s hs
    rw [Segment.entries, slice_take log (hend s hs)]
    exact h.file s hs
  · exact h.blank

end Holds

/-- A segment as `reload` finds it. -/
def Segment.refresh (dir : Directory) (s : Segment) : Segment :=
  match dir.lookup s.path with
  | none => s
  | some file => { s with bytes := file.data.length, createdAt := file.mtime }

@[simp] theorem Segment.refresh_path (dir : Directory) (s : Segment) :
    (s.refresh dir).path = s.path := by
  unfold refresh
  split <;> rfl

@[simp] theorem Segment.refresh_startSeq (dir : Directory) (s : Segment) :
    (s.refresh dir).startSeq = s.startSeq := by
  unfold refresh
  split <;> rfl

@[simp] theorem Segment.refresh_endSeq (dir : Directory) (s : Segment) :
    (s.refresh dir).endSeq = s.endSeq := by
  unfold refresh
  split <;> rfl

theorem segmentOfFile_path {name : String} {file : File} {s : Segment}
    (h : segmentOfFile name file = some s) : s.path = name := by
  simp only [segmentOfFile] at h
  split at h
  · cases h
    rfl
  · cases h

theorem segmentOfFile_blank {file : File} (h : Framed marshalEntry [] file.data)
    (name : String) : segmentOfFile name file = none := by
  have hdecode : decodeAll unmarshalEntry file.data = ([], none) :=
    h.decodeAll_eq (by simp) (by simp)
  simp [segmentOfFile, hdecode]

theorem Segment.entries_ne_nil {s : Segment} (hstart : 1 ≤ s.startSeq)
    (hrange : s.startSeq ≤ s.endSeq) (hend : s.endSeq ≤ log.length) :
    ∃ first last, (s.entries log).head? = some first ∧
      (s.entries log).getLast? = some last ∧
      log[s.startSeq - 1]? = some first ∧ log[s.endSeq - 1]? = some last := by
  have hfirst := List.getElem?_eq_getElem (show s.startSeq - 1 < log.length by omega)
  have hlast := List.getElem?_eq_getElem (show s.endSeq - 1 < log.length by omega)
  have hstep : s.endSeq - 1 + 1 = s.endSeq := by omega
  refine ⟨_, _, ?_, ?_, hfirst, hlast⟩
  · rw [Segment.entries, slice_eq_cons (by omega) hfirst, List.head?_cons]
  · have hsplit := slice_succ (show s.startSeq - 1 ≤ s.endSeq - 1 by omega) hlast
    rw [hstep] at hsplit
    rw [Segment.entries, hsplit, List.getLast?_concat]

namespace Holds

theorem segmentOfFile_eq (h : Holds pj dir segs log) (hdense : Dense pj log)
    {s : Segment} (hs : s ∈ segs) (hrange : s.startSeq ≤ s.endSeq) {file : File}
    (hfile : dir.lookup s.path = some file) :
    segmentOfFile s.path file = some (s.refresh dir) := by
  obtain ⟨file', hfile', hdecode⟩ := h.decodeAll_file hdense hs
  rw [hfile] at hfile'
  cases hfile'
  have hbounds := h.range s hs
  obtain ⟨first, last, hhead, hgetLast, hfirst, hlast⟩ :=
    s.entries_ne_nil hbounds.1 hrange hbounds.2.2
  have hfirstSeq : first.seq = s.startSeq := by
    rw [hdense.seq hfirst]
    omega
  have hlastSeq : last.seq = s.endSeq := by
    rw [hdense.seq hlast]
    omega
  simp [segmentOfFile, hdecode, hhead, hgetLast, Segment.refresh, hfile, Entry.disk,
    hfirstSeq, hlastSeq]

private theorem mem_scan (h : Holds pj dir segs log) (hdense : Dense pj log)
    (found : Segment) :
    found ∈ (dir.readDir.filter fun entry => isSegmentName entry.1).filterMap
        (fun entry => segmentOfFile entry.1 entry.2) ↔
      found ∈ (segs.filter fun s => s.startSeq ≤ s.endSeq).map (Segment.refresh dir) := by
  simp only [List.mem_filterMap, List.mem_filter, List.mem_map]
  constructor
  · rintro ⟨⟨name, file⟩, ⟨hread, -⟩, hfound⟩
    have hfile := Directory.mem_readDir.mp hread
    by_cases hname : ∃ s ∈ segs, s.startSeq ≤ s.endSeq ∧ s.path = name
    · obtain ⟨s, hs, hrange, rfl⟩ := hname
      rw [h.segmentOfFile_eq hdense hs hrange hfile] at hfound
      exact ⟨s, ⟨hs, decide_eq_true hrange⟩, Option.some.inj hfound⟩
    · have hblank : Framed marshalEntry [] file.data := by
        apply h.filter_nonempty.blank name file hfile
        intro s hs heq
        obtain ⟨hs, hrange⟩ := List.mem_filter.mp hs
        exact hname ⟨s, hs, of_decide_eq_true hrange, heq⟩
      rw [segmentOfFile_blank hblank] at hfound
      cases hfound
  · rintro ⟨s, ⟨hs, hrange⟩, rfl⟩
    obtain ⟨file, hfile, -⟩ := h.file s hs
    refine ⟨(s.path, file), ⟨Directory.mem_readDir.mpr hfile, ?_⟩, ?_⟩
    · rw [h.path s hs]
      exact isSegmentName_segmentName s.startSeq
    · exact h.segmentOfFile_eq hdense hs (of_decide_eq_true hrange) hfile

private theorem nodup_scan (dir : Directory) :
    ((dir.readDir.filter fun entry => isSegmentName entry.1).filterMap
      fun entry => segmentOfFile entry.1 entry.2).Nodup := by
  have hpaths : ∀ entries : List (String × File),
      ((entries.filterMap fun entry => segmentOfFile entry.1 entry.2).map
        Segment.path).Sublist (entries.map Prod.fst) := by
    intro entries
    induction entries with
    | nil => simp
    | cons entry entries ih =>
        cases hfound : segmentOfFile entry.1 entry.2 with
        | none => simpa [List.filterMap_cons, hfound] using ih.cons _
        | some s =>
            simp only [List.filterMap_cons, hfound, List.map_cons,
              segmentOfFile_path hfound]
            exact ih.cons_cons _
  apply List.Nodup.of_map Segment.path
  apply (hpaths _).nodup
  exact dir.nodup_readDir_names.sublist (List.filter_sublist.map Prod.fst)

/-- `reload` finds the nonempty segments in order, with size and mtime of their files. -/
theorem reload_eq (h : Holds pj dir segs log) (hdense : Dense pj log) :
    reload dir = (segs.filter fun s => s.startSeq ≤ s.endSeq).map (Segment.refresh dir) := by
  have hholds : Holds pj dir ((segs.filter fun s => s.startSeq ≤ s.endSeq).map
      (Segment.refresh dir)) log :=
    h.filter_nonempty.map (Segment.refresh_path dir) (Segment.refresh_startSeq dir)
      (Segment.refresh_endSeq dir)
  have hnodup : ((segs.filter fun s => s.startSeq ≤ s.endSeq).map
      (Segment.refresh dir)).Nodup := by
    apply hholds.ordered.imp
    rintro s t hst rfl
    omega
  have hperm := (List.perm_insertionSort (fun a b : Segment => a.startSeq ≤ b.startSeq)
    _).trans ((List.perm_ext_iff_of_nodup (nodup_scan dir) hnodup).mpr
      (h.mem_scan hdense))
  apply hperm.eq_of_pairwise
  · intro s t hs ht hst hts
    exact hholds.startSeq_injective (hperm.mem_iff.mp hs) ht (Nat.le_antisymm hst hts)
  · exact List.pairwise_insertionSort _ _
  · exact hholds.ordered.imp fun hst => Nat.le_of_lt hst.1

theorem endSeq_le_resumeSeq (h : Holds pj dir segs log)
    (hnonempty : ∀ s ∈ segs, s.startSeq ≤ s.endSeq) :
    ∀ s ∈ segs, s.endSeq ≤ resumeSeq segs := by
  intro s hs
  rcases List.eq_nil_or_concat segs with rfl | ⟨front, last, rfl⟩
  · cases hs
  · simp only [List.concat_eq_append] at h hs hnonempty ⊢
    simp only [resumeSeq, List.getLast?_concat]
    rcases List.mem_append.mp hs with hs | hs
    · have hlast := List.mem_append_right front (List.mem_singleton_self last)
      have hbefore := (List.pairwise_append.mp h.ordered).2.2 s hs last
        (List.mem_singleton_self last)
      have := hnonempty last hlast
      omega
    · rw [List.mem_singleton.mp hs]

theorem resumeSeq_le (h : Holds pj dir segs log) : resumeSeq segs ≤ log.length := by
  unfold resumeSeq
  cases hlast : segs.getLast? with
  | none => exact Nat.zero_le _
  | some last => exact (h.range last (List.mem_of_getLast? hlast)).2.2

end Holds

/-! ## The operations of the WAL -/

theorem openWal_layout {opts : Options} {now : Int} {w : Wal} {dir' : Directory}
    (hopen : openWal opts dir now = .ok (w, dir')) (h : Holds pj dir segs log)
    (hdense : Dense pj log) :
    Layout pj dir' w (log.take w.seq) ∧
      w.older = (segs.filter fun s => s.startSeq ≤ s.endSeq).map (Segment.refresh dir) ∧
      w.seq = resumeSeq w.older ∧ w.curOpen = true ∧
      w.cur = (openSegment w.seq dir now).1 ∧ dir' = (openSegment w.seq dir now).2 := by
  simp only [openWal] at hopen
  split at hopen
  · cases hopen
  · cases hopen
    have hreload := h.reload_eq hdense
    have hholds : Holds pj dir (reload dir) log := by
      rw [hreload]
      exact h.filter_nonempty.map (Segment.refresh_path dir)
        (Segment.refresh_startSeq dir) (Segment.refresh_endSeq dir)
    have hnonempty : ∀ s ∈ reload dir, s.startSeq ≤ s.endSeq := by
      intro s hs
      rw [hreload] at hs
      obtain ⟨t, ht, rfl⟩ := List.mem_map.mp hs
      simpa using (List.mem_filter.mp ht).2
    have hlength : (log.take (resumeSeq (reload dir))).length = resumeSeq (reload dir) := by
      rw [List.length_take]
      exact Nat.min_eq_left hholds.resumeSeq_le
    have htake := (hholds.take hholds.resumeSeq_le
      (hholds.endSeq_le_resumeSeq hnonempty)).openSegment hnonempty now
    rw [hlength] at htake
    refine ⟨⟨hdense.take _, htake, hnonempty, ?_, hlength.symm⟩, hreload, rfl, rfl, rfl, rfl⟩
    exact hlength.symm

def Wal.appendedTo (w : Wal) (size : Nat) : Wal :=
  { w with seq := w.seq + 1
           cur := { w.cur with bytes := w.cur.bytes + size, endSeq := w.seq + 1 } }

def Wal.rotated (w : Wal) (opened : Segment) : Wal :=
  { w with older := w.older ++ [w.cur], cur := opened, curOpen := true }

def Wal.writeLine (w : Wal) (dir : Directory) (line : Bytes) (now : Int) : Directory :=
  (dir.write w.cur.path line now).write w.cur.path [newline] now

theorem Wal.lookup_writeLine_self {w : Wal} {file : File}
    (h : dir.lookup w.cur.path = some file) (line : Bytes) (now : Int) :
    (w.writeLine dir line now).lookup w.cur.path =
      some ⟨file.data ++ (line ++ [newline]), now⟩ := by
  rw [writeLine, Directory.lookup_write_self (Directory.lookup_write_self h line now),
    List.append_assoc]

theorem Wal.lookup_writeLine_of_ne {w : Wal} {name : String} (h : name ≠ w.cur.path)
    (line : Bytes) (now : Int) : (w.writeLine dir line now).lookup name = dir.lookup name := by
  rw [writeLine, Directory.lookup_write_of_ne h, Directory.lookup_write_of_ne h]

theorem append_eq {w : Wal} (dir : Directory) (hopen : w.curOpen = true) (agent : String)
    {env : E} {text : Bytes} (htext : pj.marshal env = some text) (clock : AppendClock) :
    let line := marshalEntry ⟨w.seq + 1, agent, text, clock.ts⟩
    let next := w.appendedTo (line.length + 1)
    let dir' := w.writeLine dir line clock.written
    w.append pj dir agent (some env) clock .none =
      (.ok (w.seq + 1),
        if w.opts.segmentSize ≤ next.cur.bytes then
          (next.rotated (openSegment (w.seq + 1) dir' clock.opened).1,
            (openSegment (w.seq + 1) dir' clock.opened).2)
        else (next, dir')) := by
  simp only [Wal.append, htext, AppendFaults.none, Wal.writeRecord, hopen, Wal.finishAppend,
    Wal.appendedTo, Wal.writeLine, Wal.rotated, if_true, if_false, Bool.false_eq_true]
  split <;> rfl

namespace Layout

variable {w : Wal}

theorem mem_cur (w : Wal) : w.cur ∈ w.segments :=
  List.mem_append_right w.older (List.mem_singleton_self w.cur)

theorem mem_older {s : Segment} (h : s ∈ w.older) : s ∈ w.segments :=
  List.mem_append_left [w.cur] h

theorem write (h : Layout pj dir w log) {e : Entry E} (hseq : e.seq = w.seq + 1)
    {text : Bytes} (htext : pj.marshal e.envelope = some text) {bytes : Bytes}
    (hbytes : Framed marshalEntry [e.disk pj] bytes) {dir' : Directory}
    (hself : ∀ file, dir.lookup w.cur.path = some file →
      ∃ mtime, dir'.lookup w.cur.path = some ⟨file.data ++ bytes, mtime⟩)
    (hother : ∀ name, name ≠ w.cur.path → dir'.lookup name = dir.lookup name)
    (size : Nat) : Layout pj dir' (w.appendedTo size) (log ++ [e]) := by
  have hholds := h.holds.write h.cur_end hbytes hself hother (w.cur.bytes + size)
  rw [← h.seq_eq] at hholds
  refine ⟨h.dense.concat ?_ htext, hholds, h.older_nonempty, ?_, ?_⟩
  · rw [hseq, h.seq_eq]
  · simp [Wal.appendedTo, h.seq_eq]
  · simp [Wal.appendedTo, h.seq_eq]

theorem appendedTo (h : Layout pj dir w log) (agent : String) {env : E} {text : Bytes}
    (htext : pj.marshal env = some text) (ts now : Int) (size : Nat) :
    Layout pj (w.writeLine dir (marshalEntry ⟨w.seq + 1, agent, text, ts⟩) now)
      (w.appendedTo size) (log ++ [⟨w.seq + 1, agent, env, ts⟩]) := by
  refine h.write rfl htext (Framed.line _) ?_ ?_ size
  · intro file hfile
    rw [Entry.disk_eq htext]
    exact ⟨now, Wal.lookup_writeLine_self hfile _ now⟩
  · exact fun name hname => Wal.lookup_writeLine_of_ne hname _ now

theorem rotated (h : Layout pj dir w log) (hcur : w.cur.startSeq ≤ w.cur.endSeq)
    (now : Int) :
    Layout pj (openSegment w.seq dir now).2 (w.rotated (openSegment w.seq dir now).1) log := by
  have hnonempty : ∀ s ∈ w.segments, s.startSeq ≤ s.endSeq := by
    intro s hs
    rcases List.mem_append.mp hs with hs | hs
    · exact h.older_nonempty s hs
    · rwa [List.mem_singleton.mp hs]
  have hholds := h.holds.openSegment hnonempty now
  rw [← h.seq_eq] at hholds
  exact ⟨h.dense, hholds, hnonempty, h.seq_eq, h.seq_eq⟩

theorem append (h : Layout pj dir w log) (hopen : w.curOpen = true) (agent : String)
    {env : E} {text : Bytes} (htext : pj.marshal env = some text) (clock : AppendClock) :
    Layout pj (w.append pj dir agent (some env) clock .none).2.2
      (w.append pj dir agent (some env) clock .none).2.1
      (log ++ [⟨w.seq + 1, agent, env, clock.ts⟩]) := by
  have hnext := h.appendedTo agent htext clock.ts clock.written
    ((marshalEntry ⟨w.seq + 1, agent, text, clock.ts⟩).length + 1)
  rw [append_eq dir hopen agent htext clock]
  dsimp only
  split
  · have hcur := (h.holds.range w.cur (mem_cur w)).2.1
    apply hnext.rotated
    have := h.cur_end
    have := h.seq_eq
    simp only [Wal.appendedTo]
    omega
  · exact hnext

end Layout

theorem trimOverflow_append (maxBytes total : Int) (segs : List Segment) :
    (trimOverflow maxBytes total segs).2 ++ (trimOverflow maxBytes total segs).1 = segs := by
  induction segs generalizing total with
  | nil => rfl
  | cons victim rest ih =>
      simp only [trimOverflow]
      split
      · simpa using ih (total - victim.bytes)
      · rfl

theorem Wal.unexpired_eq (w : Wal) (now : Int) :
    w.unexpired now = (w.trimmed now).2 ++ (w.trimmed now).1 :=
  (trimOverflow_append _ _ _).symm

theorem Wal.trimmed_sublist (w : Wal) (now : Int) : (w.trimmed now).1.Sublist w.older := by
  apply List.Sublist.trans _ (List.filter_sublist (p := fun s => !isExpired w.opts.ttl now s))
  change (w.trimmed now).1.Sublist (w.unexpired now)
  rw [w.unexpired_eq now]
  exact List.sublist_append_right _ _

theorem Wal.mem_gcRemoved_or {w : Wal} {s : Segment} (h : s ∈ w.older) (now : Int) :
    s ∈ (w.trimmed now).1 ∨ s ∈ w.gcRemoved now := by
  by_cases hexpired : isExpired w.opts.ttl now s = true
  · right
    exact List.mem_append_left _ (List.mem_filter.mpr ⟨h, hexpired⟩)
  · have hs : s ∈ w.unexpired now := List.mem_filter.mpr ⟨h, by simpa using hexpired⟩
    rw [w.unexpired_eq now] at hs
    rcases List.mem_append.mp hs with hs | hs
    · exact .inr (List.mem_append_right _ hs)
    · exact .inl hs

theorem Wal.gcRemoved_subset {w : Wal} {s : Segment} {now : Int}
    (h : s ∈ w.gcRemoved now) : s ∈ w.older := by
  rcases List.mem_append.mp h with hs | hs
  · exact List.mem_of_mem_filter hs
  · have hunexpired : s ∈ w.unexpired now := by
      rw [w.unexpired_eq now]
      exact List.mem_append_left _ hs
    exact List.mem_of_mem_filter hunexpired

theorem Wal.not_mem_gcRemoved {w : Wal} (hnodup : w.older.Nodup) {s : Segment} {now : Int}
    (h : s ∈ (w.trimmed now).1) : s ∉ w.gcRemoved now := by
  have hunexpired : (w.unexpired now).Nodup := hnodup.filter _
  have hs : s ∈ w.unexpired now := by
    rw [w.unexpired_eq now]
    exact List.mem_append_right _ h
  intro hremoved
  rcases List.mem_append.mp hremoved with hexpired | hvictim
  · have := (List.mem_filter.mp hexpired).2
    have := (List.mem_filter.mp hs).2
    simp_all
  · rw [w.unexpired_eq now] at hunexpired
    exact (List.nodup_append.mp hunexpired).2.2 s hvictim s h rfl

namespace Layout

variable {w : Wal}

theorem nodup_segments (h : Layout pj dir w log) : w.segments.Nodup := by
  apply h.holds.ordered.imp
  rintro s t hst rfl
  omega

theorem cur_not_mem_older (h : Layout pj dir w log) : w.cur ∉ w.older := by
  intro hcur
  exact (List.nodup_append.mp h.nodup_segments).2.2 _ hcur _ (List.mem_singleton_self _) rfl

theorem mem_segments_of_gc {s : Segment} {now : Int}
    (hs : s ∈ (w.gc dir now).1.segments) : s ∈ w.segments :=
  ((w.trimmed_sublist now).append_right [w.cur]).subset hs

theorem not_mem_gcRemoved (h : Layout pj dir w log) {s : Segment} {now : Int}
    (hs : s ∈ (w.gc dir now).1.segments) : s ∉ w.gcRemoved now := by
  intro hremoved
  rcases List.mem_append.mp hs with hs | hs
  · have hnodup := (List.nodup_append.mp h.nodup_segments).1
    exact Wal.not_mem_gcRemoved hnodup hs hremoved
  · rw [List.mem_singleton.mp hs] at hremoved
    exact h.cur_not_mem_older (Wal.gcRemoved_subset hremoved)

theorem path_not_mem_gcRemoved (h : Layout pj dir w log) {s : Segment} {now : Int}
    (hs : s ∈ (w.gc dir now).1.segments) :
    s.path ∉ (w.gcRemoved now).map Segment.path := by
  intro hpath
  obtain ⟨t, ht, heq⟩ := List.mem_map.mp hpath
  have hst := h.holds.path_injective (mem_older (Wal.gcRemoved_subset ht))
    (mem_segments_of_gc hs) heq
  exact h.not_mem_gcRemoved hs (hst ▸ ht)

theorem gc (h : Layout pj dir w log) (now : Int) :
    Layout pj (w.gc dir now).2 (w.gc dir now).1 log := by
  have hkept := w.trimmed_sublist now
  refine ⟨h.dense, ?_, ?_, h.cur_end, h.seq_eq⟩
  · apply h.holds.remove
    · exact hkept.append_right [w.cur]
    · exact fun s hs => mem_older (Wal.gcRemoved_subset hs)
    · intro s hs
      rcases List.mem_append.mp hs with hs | hs
      · exact (Wal.mem_gcRemoved_or hs now).imp_left (List.mem_append_left _)
      · exact .inl (List.mem_append_right _ hs)
    · exact fun s hs => h.not_mem_gcRemoved hs
  · exact fun s hs => h.older_nonempty s (hkept.subset hs)

end Layout

end KloudlensAggregator.Envwal
