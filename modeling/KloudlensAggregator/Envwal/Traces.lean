import KloudlensAggregator.Envwal.Faults

/-!
# Failed appends that readers see

An `Append` that fails before it writes a byte only skips a seq.  Any other
failure leaves a trace in the file: a torn record breaks the stream at the next
record, a whole one is read back although its `Append` returned an error.  The
entries a reader of a fresh WAL gets are those of the appends that succeeded
exactly as long as no append leaves such a trace.
-/

namespace KloudlensAggregator.Envwal

open KloudlensAggregator.Foundation
open KloudlensAggregator.Foundation.Json

variable {E : Type} {pj : ProtoJson E} {dir dir' : Directory} {w : Wal} {log : List (Entry E)}

/-- The faults of the call put no byte into the file, or leave the call as it is
without them. -/
def Wal.leavesNoTrace (pj : ProtoJson E) (w : Wal) (call : AppendCall E) : Bool :=
  (call.env.bind pj.marshal).all fun text =>
    !w.curOpen || call.faults.marshalEntry ||
      match call.faults.write with
      | some written => written == 0
      | none => !call.faults.newline &&
          !(w.fills (w.nextLine call.agent text call.clock.ts) && call.faults.openSegment)

def Session.ReadsAppended (pj : ProtoJson E) (s : Session E) : Prop :=
  s.wal.readFrom pj s.dir 0 = (s.appended, none) ∧ Increasing s.appended

/-! ## The entries in the files -/

def Entry.Readable (pj : ProtoJson E) (e : Entry E) : Prop :=
  0 < e.seq ∧ ∃ text, pj.marshal e.envelope = some text

structure Segment.Stores (pj : ProtoJson E) (dir : Directory) (s : Segment)
    (entries : List (Entry E)) : Prop where
  visible : entries ≠ [] → 0 < s.endSeq
  file : ∃ file, dir.lookup s.path = some file ∧
    Framed marshalEntry (entries.map (Entry.disk pj)) file.data

inductive StoredIn (pj : ProtoJson E) (dir : Directory) : List Segment → List (Entry E) → Prop
  | nil : StoredIn pj dir [] []
  | cons {s : Segment} {segs : List Segment} {entries log : List (Entry E)}
      (first : s.Stores pj dir entries) (rest : StoredIn pj dir segs log) :
      StoredIn pj dir (s :: segs) (entries ++ log)

theorem Segment.Stores.congr {s : Segment} {entries : List (Entry E)}
    (h : s.Stores pj dir entries)
    (hdata : (dir'.lookup s.path).map File.data = (dir.lookup s.path).map File.data) :
    s.Stores pj dir' entries := by
  obtain ⟨file, hfile, hframed⟩ := h.file
  rw [hfile] at hdata
  obtain ⟨file', hfile', heq⟩ := Option.map_eq_some_iff.mp hdata
  exact ⟨h.visible, file', hfile', heq ▸ hframed⟩

theorem readEntries_disk {entries : List (Entry E)} (h : ∀ e ∈ entries, e.Readable pj)
    (err : Option DecodeError) :
    readEntries pj 0 (entries.map (Entry.disk pj)) err = (entries, err.map .decode) := by
  induction entries with
  | nil => cases err <;> rfl
  | cons e entries ih =>
      have hreadable := h e List.mem_cons_self
      have hseq : ¬ (e.disk pj).seq ≤ 0 := Nat.not_le.mpr hreadable.1
      have hrest := ih fun e he => h e (List.mem_cons_of_mem _ he)
      simp only [List.map_cons, readEntries, hseq, if_false, hrest,
        Entry.unmarshal_disk hreadable.2]
      rfl

namespace StoredIn

variable {segs : List Segment}

theorem congr (h : StoredIn pj dir segs log)
    (hdata : ∀ s ∈ segs,
      (dir'.lookup s.path).map File.data = (dir.lookup s.path).map File.data) :
    StoredIn pj dir' segs log := by
  induction h with
  | nil => exact .nil
  | cons first _ ih =>
      exact .cons (first.congr (hdata _ List.mem_cons_self))
        (ih fun s hs => hdata s (List.mem_cons_of_mem _ hs))

theorem concat (h : StoredIn pj dir segs log) {s : Segment} {entries : List (Entry E)}
    (hs : s.Stores pj dir entries) : StoredIn pj dir (segs ++ [s]) (log ++ entries) := by
  induction h with
  | nil =>
      have hlast : StoredIn pj dir [s] (entries ++ []) := .cons hs .nil
      simpa using hlast
  | cons first _ ih =>
      rw [List.cons_append, List.append_assoc]
      exact .cons first ih

theorem readViews_append (h : StoredIn pj dir segs log) (hlog : ∀ e ∈ log, e.Readable pj)
    (views : List SegView) :
    readViews pj dir 0 false (segs.map Segment.view ++ views) =
      (log ++ (readViews pj dir 0 false views).1, (readViews pj dir 0 false views).2) := by
  induction h with
  | nil => rfl
  | @cons s segs entries log first _ ih =>
      have hentries : ∀ e ∈ entries, e.Readable pj :=
        fun e he => hlog e (List.mem_append_left _ he)
      have hrest := ih fun e he => hlog e (List.mem_append_right _ he)
      obtain ⟨file, hfile, hframed⟩ := first.file
      simp only [List.map_cons, List.cons_append, readViews, Segment.view]
      by_cases hskip : s.endSeq ≤ 0
      · have hnil : entries = [] := by
          by_contra hne
          exact absurd (first.visible hne) (Nat.not_lt.mpr hskip)
        rw [if_pos hskip, hnil]
        exact hrest
      · rw [if_neg hskip, hfile]
        simp only [decodeAll_framed (fun e he => (hentries e he).2) hframed,
          readEntries_disk hentries, Option.map_none]
        rw [hrest, List.append_assoc]

end StoredIn

/-! ## What a fresh WAL knows of its files -/

structure Between (pj : ProtoJson E) (low high : Nat) (entries : List (Entry E)) : Prop where
  readable : ∀ e ∈ entries, e.Readable pj
  increasing : Increasing entries
  low_lt : ∀ e ∈ entries, low < e.seq
  le_high : ∀ e ∈ entries, e.seq ≤ high

namespace Between

variable {low middle high : Nat} {first second : List (Entry E)}

theorem nil : Between pj low high ([] : List (Entry E)) :=
  ⟨by simp, List.Pairwise.nil, by simp, by simp⟩

theorem single {env : E} {text : Bytes} (htext : pj.marshal env = some text) (agent : String)
    (ts : Int) : Between pj low (low + 1) [⟨low + 1, agent, env, ts⟩] := by
  constructor
  · intro e he
    rw [List.mem_singleton.mp he]
    exact ⟨Nat.succ_pos low, text, htext⟩
  · exact List.pairwise_singleton _ _
  · intro e he
    rw [List.mem_singleton.mp he]
    exact Nat.lt_succ_self low
  · intro e he
    rw [List.mem_singleton.mp he]

theorem append (hfirst : Between pj low middle first) (hsecond : Between pj middle high second)
    (hlow : low ≤ middle) (hhigh : middle ≤ high) : Between pj low high (first ++ second) := by
  constructor
  · intro e he
    rcases List.mem_append.mp he with he | he
    · exact hfirst.readable e he
    · exact hsecond.readable e he
  · rw [Increasing, List.map_append]
    apply List.pairwise_append.mpr
    refine ⟨hfirst.increasing, hsecond.increasing, ?_⟩
    intro a ha b hb
    obtain ⟨e, he, rfl⟩ := List.mem_map.mp ha
    obtain ⟨e', he', rfl⟩ := List.mem_map.mp hb
    exact Nat.lt_of_le_of_lt (hfirst.le_high e he) (hsecond.low_lt e' he')
  · intro e he
    rcases List.mem_append.mp he with he | he
    · exact hfirst.low_lt e he
    · exact Nat.lt_of_le_of_lt hlow (hsecond.low_lt e he)
  · intro e he
    rcases List.mem_append.mp he with he | he
    · exact (hfirst.le_high e he).trans hhigh
    · exact hsecond.le_high e he

theorem mono (h : Between pj low middle first) (hhigh : middle ≤ high) :
    Between pj low high first :=
  ⟨h.readable, h.increasing, h.low_lt, fun e he => (h.le_high e he).trans hhigh⟩

end Between

/-- The files of the segments hold the entries of the log. -/
structure Stored (pj : ProtoJson E) (dir : Directory) (w : Wal) (log : List (Entry E)) :
    Prop where
  entries : Between pj 0 w.seq log
  path : ∀ s ∈ w.segments, s.path = segmentName s.startSeq
  before : ∀ s ∈ w.older, s.startSeq < w.cur.startSeq
  start_le : w.cur.startSeq ≤ w.seq + 1
  fresh : ∀ n, w.cur.startSeq < n → dir.lookup (segmentName n) = none
  stored : ∃ front last, StoredIn pj dir w.older front ∧ w.cur.Stores pj dir last ∧
    front ++ last = log

theorem readFrom_eq_readViews (pj : ProtoJson E) (w : Wal) (dir : Directory) :
    w.readFrom pj dir 0 = readViews pj dir 0 false (w.segments.map Segment.view) := by
  simp [Wal.readFrom, Wal.cursorExpired]

namespace Stored

theorem opened {opts : Options} {now : Int} (hopen : openWal opts ∅ now = .ok (w, dir)) :
    Stored pj dir w [] := by
  simp only [openWal] at hopen
  split at hopen
  · cases hopen
  · cases hopen
    have hreload : reload ∅ = [] := rfl
    refine ⟨.nil, ?_, by simp [hreload], Nat.le_refl _, ?_, ?_⟩
    · intro s hs
      rw [Wal.segments, hreload, List.nil_append] at hs
      rw [List.mem_singleton.mp hs]
      rfl
    · intro n hn
      have hne : segmentName n ≠ segmentName (resumeSeq (reload ∅) + 1) := by
        intro heq
        exact absurd (segmentName_injective heq) (Nat.ne_of_gt hn)
      simp only [openSegment]
      rw [Directory.lookup_openAppend_of_ne hne]
      exact AList.lookup_empty _
    · refine ⟨[], [], ?_, ⟨by simp, ⟨[], now⟩, ?_, Framed.empty⟩, rfl⟩
      · rw [hreload]
        exact .nil
      · exact Directory.lookup_openAppend_self ∅ _ now

theorem path_ne_cur (h : Stored pj dir w log) {s : Segment} (hs : s ∈ w.older) :
    s.path ≠ w.cur.path := by
  rw [h.path s (Layout.mem_older hs), h.path w.cur (Layout.mem_cur w)]
  intro heq
  exact absurd (segmentName_injective heq) (Nat.ne_of_lt (h.before s hs))

theorem path_ne_later (h : Stored pj dir w log) {n : Nat} (hn : w.cur.startSeq < n) {s : Segment}
    (hs : s ∈ w.segments) : s.path ≠ segmentName n := by
  rw [h.path s hs]
  intro heq
  have hseq := segmentName_injective heq
  rcases List.mem_append.mp hs with hs | hs
  · have := h.before s hs
    omega
  · rw [List.mem_singleton.mp hs] at hseq
    omega

theorem skip (h : Stored pj dir w log) {n : Nat} (hn : w.seq ≤ n)
    (hdata : ∀ name, (dir'.lookup name).map File.data = (dir.lookup name).map File.data) :
    Stored pj dir' { w with seq := n } log := by
  obtain ⟨front, last, hfront, hlast, hlog⟩ := h.stored
  refine ⟨h.entries.mono hn, h.path, h.before, h.start_le.trans (Nat.succ_le_succ hn), ?_,
    front, last, hfront.congr fun s _ => hdata s.path, hlast.congr (hdata _), hlog⟩
  intro m hm
  have hsame := hdata (segmentName m)
  rw [h.fresh m hm] at hsame
  exact Option.map_eq_none_iff.mp hsame

theorem write (h : Stored pj dir w log) {n : Nat} (hn : w.seq < n) {entries : List (Entry E)}
    (hentries : Between pj w.seq n entries) {bytes : Bytes}
    (hbytes : Framed marshalEntry (entries.map (Entry.disk pj)) bytes)
    (hself : ∀ file, dir.lookup w.cur.path = some file →
      ∃ mtime, dir'.lookup w.cur.path = some ⟨file.data ++ bytes, mtime⟩)
    (hother : ∀ name, name ≠ w.cur.path → dir'.lookup name = dir.lookup name)
    (size : Nat) (isOpen : Bool) :
    Stored pj dir' { w with seq := n, cur := { w.cur with bytes := size, endSeq := n },
                            curOpen := isOpen } (log ++ entries) := by
  obtain ⟨front, last, hfront, hlast, rfl⟩ := h.stored
  obtain ⟨file, hfile, hframed⟩ := hlast.file
  obtain ⟨mtime, hfile'⟩ := hself file hfile
  constructor
  · exact h.entries.append hentries (Nat.zero_le _) (Nat.le_of_lt hn)
  · intro s hs
    rcases List.mem_append.mp hs with hs | hs
    · exact h.path s (Layout.mem_older hs)
    · rw [List.mem_singleton.mp hs]
      exact h.path w.cur (Layout.mem_cur w)
  · exact h.before
  · exact h.start_le.trans (Nat.succ_le_succ (Nat.le_of_lt hn))
  · intro m hm
    have hne : segmentName m ≠ w.cur.path := by
      rw [h.path w.cur (Layout.mem_cur w)]
      intro heq
      exact absurd (segmentName_injective heq) (Nat.ne_of_gt hm)
    rw [hother _ hne]
    exact h.fresh m hm
  · refine ⟨front, last ++ entries, ?_, ⟨fun _ => Nat.zero_lt_of_lt hn, _, hfile', ?_⟩,
      (List.append_assoc ..).symm⟩
    · exact hfront.congr fun s hs => by rw [hother s.path (h.path_ne_cur hs)]
    · rw [List.map_append]
      exact hframed.append hbytes

theorem rotated (h : Stored pj dir w log) (hcur : w.cur.startSeq ≤ w.seq) (now : Int) :
    Stored pj (openSegment w.seq dir now).2 (w.rotated (openSegment w.seq dir now).1) log := by
  have hlater : w.cur.startSeq < w.seq + 1 := Nat.lt_succ_of_le hcur
  obtain ⟨front, last, hfront, hlast, hlog⟩ := h.stored
  constructor
  · exact h.entries
  · intro s hs
    rcases List.mem_append.mp hs with hs | hs
    · exact h.path s hs
    · rw [List.mem_singleton.mp hs]
      rfl
  · intro s hs
    rcases List.mem_append.mp hs with hs | hs
    · exact (h.before s hs).trans hlater
    · rw [List.mem_singleton.mp hs]
      exact hlater
  · exact Nat.le_refl _
  · intro n hn
    have hne : segmentName n ≠ segmentName (w.seq + 1) := by
      intro heq
      exact absurd (segmentName_injective heq) (Nat.ne_of_gt hn)
    rw [openSegment, Directory.lookup_openAppend_of_ne hne]
    exact h.fresh n (hlater.trans hn)
  · refine ⟨log, [], ?_, ⟨by simp, ⟨[], now⟩, ?_, Framed.empty⟩, List.append_nil log⟩
    · rw [← hlog]
      apply (hfront.concat hlast).congr
      intro s hs
      rw [openSegment, Directory.lookup_openAppend_of_ne (h.path_ne_later hlater hs)]
    · simp only [openSegment, Wal.rotated]
      rw [Directory.lookup_openAppend_self, h.fresh _ hlater]
      rfl

theorem append (h : Stored pj dir w log) (hopen : w.curOpen = true) {n : Nat} (hn : w.seq ≤ n)
    {left : List (Entry E)} (hleft : Between pj w.seq n left) {bytes : Bytes}
    (hbytes : Framed marshalEntry (left.map (Entry.disk pj)) bytes)
    (hself : ∀ file, dir.lookup w.cur.path = some file →
      ∃ mtime, dir'.lookup w.cur.path = some ⟨file.data ++ bytes, mtime⟩)
    (hother : ∀ name, name ≠ w.cur.path → dir'.lookup name = dir.lookup name)
    (agent : String) {env : E} {text : Bytes} (htext : pj.marshal env = some text)
    (clock : AppendClock) :
    let result := { w with seq := n }.append pj dir' agent (some env) clock .none
    Stored pj result.2.2 result.2.1 (log ++ (left ++ [⟨n + 1, agent, env, clock.ts⟩])) := by
  let line := marshalEntry ⟨n + 1, agent, text, clock.ts⟩
  let last : Entry E := ⟨n + 1, agent, env, clock.ts⟩
  have hentries : Between pj w.seq (n + 1) (left ++ [last]) :=
    hleft.append (.single htext agent clock.ts) hn (Nat.le_succ n)
  have hframed : Framed marshalEntry ((left ++ [last]).map (Entry.disk pj))
      (bytes ++ (line ++ [newline])) := by
    rw [List.map_append]
    apply hbytes.append
    rw [List.map_singleton, Entry.disk_eq htext]
    exact Framed.line _
  have hnext : Stored pj (({ w with seq := n } : Wal).writeLine dir' line clock.written)
      (({ w with seq := n } : Wal).appendedTo (line.length + 1)) (log ++ (left ++ [last])) := by
    refine h.write (Nat.lt_succ_of_le hn) hentries hframed ?_ ?_ _ _
    · intro file hfile
      obtain ⟨mtime, hfile'⟩ := hself file hfile
      have hwritten := Wal.lookup_writeLine_self (w := { w with seq := n }) hfile' line
        clock.written
      rw [List.append_assoc] at hwritten
      exact ⟨clock.written, hwritten⟩
    · intro name hname
      rw [Wal.lookup_writeLine_of_ne (w := { w with seq := n }) hname]
      exact hother name hname
  rw [append_eq (w := { w with seq := n }) dir' hopen agent htext clock]
  dsimp only
  split
  · apply hnext.rotated
    exact h.start_le.trans (Nat.succ_le_succ hn)
  · exact hnext

theorem readFrom_zero (h : Stored pj dir w log) : w.readFrom pj dir 0 = (log, none) := by
  obtain ⟨front, last, hfront, hlast, rfl⟩ := h.stored
  have hread := (hfront.concat hlast).readViews_append h.entries.readable []
  rw [List.append_nil] at hread
  rw [readFrom_eq_readViews, Wal.segments, hread]
  simp [readViews]

end Stored

/-! ## Appends without a trace -/

private theorem append_of_leavesNoTrace (dir : Directory) (hopen : w.curOpen = true)
    {call : AppendCall E} (h : w.leavesNoTrace pj call = true) :
    (∃ err n dir', w.append pj dir call.agent call.env call.clock call.faults =
        (.error err, { w with seq := n }, dir') ∧ w.seq ≤ n ∧
        ∀ name, (dir'.lookup name).map File.data = (dir.lookup name).map File.data) ∨
      ∃ env text, call.env = some env ∧ pj.marshal env = some text ∧
        w.append pj dir call.agent call.env call.clock call.faults =
          w.append pj dir call.agent (some env) call.clock .none := by
  obtain ⟨agent, env, clock, faults⟩ := call
  simp only [Wal.leavesNoTrace] at h
  cases henv : env.bind pj.marshal with
  | none =>
      obtain ⟨err, hresult⟩ := append_of_refused henv w dir agent clock faults
      exact .inl ⟨err, w.seq, dir, hresult, Nat.le_refl _, fun _ => rfl⟩
  | some text =>
      obtain ⟨env, rfl, htext⟩ := Option.bind_eq_some_iff.mp henv
      rw [henv] at h
      cases hmarshal : faults.marshalEntry with
      | true =>
          refine .inl ⟨.marshalEntry, w.seq + 1, dir, ?_, Nat.le_succ _, fun _ => rfl⟩
          simp [Wal.append, htext, hmarshal]
      | false =>
          simp only [Option.all_some, hopen, hmarshal, Bool.not_true, Bool.false_or] at h
          cases hwrite : faults.write with
          | some written =>
              simp only [hwrite, beq_iff_eq] at h
              subst h
              refine .inl ⟨.write, w.seq + 1, _, ?_, Nat.le_succ _,
                Directory.data_write_nil dir w.cur.path clock.written⟩
              simp [Wal.append, Wal.writeRecord, htext, hmarshal, hopen, hwrite]
          | none =>
              simp only [hwrite, Bool.and_eq_true, Bool.not_eq_true'] at h
              have hfaults : faults.writesLine = true := by
                simp [AppendFaults.writesLine, hmarshal, hwrite, h.1]
              refine .inr ⟨env, text, rfl, htext, ?_⟩
              rw [append_of_writesLine dir hopen agent htext clock hfaults, h.2]
              simp

structure Session.Sound (pj : ProtoJson E) (s : Session E) : Prop where
  stored : Stored pj s.dir s.wal s.appended
  isOpen : s.wal.curOpen = true

theorem Session.append_none {s : Session E} (hopen : s.wal.curOpen = true) (agent : String)
    {env : E} {text : Bytes} (htext : pj.marshal env = some text) (clock : AppendClock) :
    (s.append pj ⟨agent, some env, clock, .none⟩).appended =
      s.appended ++ [⟨s.wal.seq + 1, agent, env, clock.ts⟩] := by
  simp only [Session.append]
  rw [append_eq s.dir hopen agent htext clock]
  rfl

theorem Session.Sound.append {s : Session E} (h : s.Sound pj) {call : AppendCall E}
    (hcall : s.wal.leavesNoTrace pj call = true) : (s.append pj call).Sound pj := by
  rcases append_of_leavesNoTrace s.dir h.isOpen hcall with
    ⟨err, n, dir', hresult, hn, hdata⟩ | ⟨env, text, henv, htext, hresult⟩
  · simp only [Session.append, hresult, returnedEntry, Option.toList_none, List.append_nil]
    exact ⟨h.stored.skip hn hdata, h.isOpen⟩
  · have heq : s.append pj call = s.append pj ⟨call.agent, some env, call.clock, .none⟩ := by
      rw [henv] at hresult
      simp only [Session.append, henv, hresult]
    have happended := Session.append_none h.isOpen call.agent htext call.clock
    have hself : ∀ file, s.dir.lookup s.wal.cur.path = some file →
        ∃ mtime, s.dir.lookup s.wal.cur.path = some ⟨file.data ++ [], mtime⟩ :=
      fun file hfile => ⟨file.mtime, by simpa using hfile⟩
    have hstored := h.stored.append h.isOpen (Nat.le_refl _) Between.nil Framed.empty hself
      (fun _ _ => rfl) call.agent htext call.clock
    rw [heq]
    refine ⟨?_, append_curOpen_of_none s.dir h.isOpen call.agent htext call.clock⟩
    rw [happended]
    exact hstored

theorem Session.Sound.readsAppended {s : Session E} (h : s.Sound pj) : s.ReadsAppended pj :=
  ⟨h.stored.readFrom_zero, h.stored.entries.increasing⟩

/-! ## Appends with a trace -/

private theorem append_of_trace (dir : Directory) {call : AppendCall E}
    (h : w.leavesNoTrace pj call = false) :
    ∃ env text, call.env = some env ∧ pj.marshal env = some text ∧
      let line := marshalEntry ⟨w.seq + 1, call.agent, text, call.clock.ts⟩
      let result := w.append pj dir call.agent call.env call.clock call.faults
      (∃ err bytes, bytes ≠ [] ∧ bytes <+: line ∧ result =
        (.error err, { w with seq := w.seq + 1 },
          dir.write w.cur.path bytes call.clock.written)) ∨
      result = (.error .rotate, { w.appendedTo (line.length + 1) with curOpen := false },
        w.writeLine dir line call.clock.written) := by
  obtain ⟨agent, env, clock, faults⟩ := call
  simp only [Wal.leavesNoTrace] at h
  cases henv : env.bind pj.marshal with
  | none => simp [henv] at h
  | some text =>
      obtain ⟨env, rfl, htext⟩ := Option.bind_eq_some_iff.mp henv
      simp only [henv, Option.all_some, Bool.or_eq_false_iff, Bool.not_eq_false'] at h
      obtain ⟨⟨hopen, hmarshal⟩, htrace⟩ := h
      refine ⟨env, text, rfl, htext, ?_⟩
      have hline : marshalEntry ⟨w.seq + 1, agent, text, clock.ts⟩ ≠ [] := by
        simp [marshalEntry, objectText]
      cases hwrite : faults.write with
      | some written =>
          simp only [hwrite, beq_eq_false_iff_ne] at htrace
          refine .inl ⟨.write, _, ?_, List.take_prefix written _, ?_⟩
          · simpa [List.take_eq_nil_iff, htrace] using hline
          · simp [Wal.append, Wal.writeRecord, htext, hmarshal, hopen, hwrite]
      | none =>
          cases hnewline : faults.newline with
          | true =>
              refine .inl ⟨.newline, _, hline, List.prefix_rfl, ?_⟩
              simp [Wal.append, Wal.writeRecord, htext, hmarshal, hopen, hwrite, hnewline]
          | false =>
              simp only [hwrite, hnewline, Bool.not_false, Bool.true_and,
                Bool.not_eq_false'] at htrace
              have hfaults : faults.writesLine = true := by
                simp [AppendFaults.writesLine, hmarshal, hwrite, hnewline]
              right
              rw [append_of_writesLine dir hopen agent htext clock hfaults, htrace]
              simp [Wal.nextLine]

theorem Stored.not_readsAppended {s : Session E} (h : Stored pj s.dir s.wal log)
    (hlength : log.length ≠ s.appended.length) : ¬ s.ReadsAppended pj := by
  rintro ⟨hread, -⟩
  rw [h.readFrom_zero] at hread
  cases hread
  exact hlength rfl

theorem Stored.readViews_torn (h : Stored pj dir w log) {cur : Segment}
    (hpath : cur.path = w.cur.path) (hend : 0 < cur.endSeq) {cut : Bytes} (hcut : Torn cut)
    {next : DiskEntry} (hnext : IsObject next.envelope)
    (hself : ∀ file, dir.lookup w.cur.path = some file → ∃ mtime, dir'.lookup w.cur.path =
      some ⟨file.data ++ (cut ++ (marshalEntry next ++ [newline])), mtime⟩)
    (hother : ∀ s ∈ w.older, dir'.lookup s.path = dir.lookup s.path) (views : List SegView) :
    (readViews pj dir' 0 false (w.older.map Segment.view ++ cur.view :: views)).2 ≠ none := by
  -- Behind a part of a record in the current file the next record is not found.
  obtain ⟨front, last, hfront, hlast, hlog⟩ := h.stored
  obtain ⟨file, hfile, hframed⟩ := hlast.file
  obtain ⟨mtime, hfile'⟩ := hself file hfile
  have hfrontReadable : ∀ e ∈ front, e.Readable pj :=
    fun e he => h.entries.readable e (hlog ▸ List.mem_append_left _ he)
  have hlastReadable : ∀ e ∈ last, e.Readable pj :=
    fun e he => h.entries.readable e (hlog ▸ List.mem_append_right _ he)
  have hfront' : StoredIn pj dir' w.older front :=
    hfront.congr fun s hs => by rw [hother s hs]
  have hkeyed : ∀ text ∈ [marshalEntry next], KeyedObject text := by
    intro text htext
    rw [List.mem_singleton.mp htext]
    exact keyedObject_marshalEntry hnext
  obtain ⟨err, herr⟩ := decodeAll_torn unmarshalEntry hcut hkeyed
  have hdecode : decodeAll unmarshalEntry
      (file.data ++ (cut ++ (marshalEntry next ++ [newline]))) =
      (last.map (Entry.disk pj), some err) := by
    rw [decodeAll_framed_append (fun e he => (hlastReadable e he).2) hframed]
    simp only [lines_cons, lines_nil] at herr
    rw [herr, List.append_nil]
  have hread : ¬ cur.view.endSeq ≤ 0 := Nat.not_le.mpr hend
  have hlookup : dir'.lookup cur.view.path = _ := (congrArg dir'.lookup hpath).trans hfile'
  rw [hfront'.readViews_append hfrontReadable]
  simp only [readViews, hread, if_false, hlookup, hdecode, readEntries_disk hlastReadable,
    Option.map_some]
  simp

theorem Stored.readFrom_torn (h : Stored pj dir w log) (hopen : w.curOpen = true) {cut : Bytes}
    (hcut : Torn cut) (now : Int) (agent : String) {env : E} {text : Bytes}
    (htext : pj.marshal env = some text) (clock : AppendClock) :
    let result := { w with seq := w.seq + 1 }.append pj (dir.write w.cur.path cut now) agent
      (some env) clock .none
    (result.2.1.readFrom pj result.2.2 0).2 ≠ none := by
  let failed : Wal := { w with seq := w.seq + 1 }
  let line := marshalEntry ⟨w.seq + 2, agent, text, clock.ts⟩
  let written := failed.writeLine (dir.write w.cur.path cut now) line clock.written
  have hself : ∀ file, dir.lookup w.cur.path = some file → ∃ mtime, written.lookup w.cur.path =
      some ⟨file.data ++ (cut ++ (line ++ [newline])), mtime⟩ := by
    intro file hfile
    rw [← List.append_assoc]
    exact ⟨clock.written, Wal.lookup_writeLine_self (w := failed)
      (Directory.lookup_write_self hfile cut now) line clock.written⟩
  have hother : ∀ s ∈ w.older, written.lookup s.path = dir.lookup s.path := by
    intro s hs
    have hne := h.path_ne_cur hs
    rw [Wal.lookup_writeLine_of_ne (w := failed) hne, Directory.lookup_write_of_ne hne]
  have hobject := pj.marshal_isObject htext
  have hpath : (failed.appendedTo (line.length + 1)).cur.path = w.cur.path := rfl
  have hend : 0 < (failed.appendedTo (line.length + 1)).cur.endSeq := Nat.succ_pos _
  rw [append_eq (w := { w with seq := w.seq + 1 }) _ hopen agent htext clock]
  dsimp only
  split
  · -- The rotation creates a file of its own.
    have hlater : w.cur.startSeq < w.seq + 1 + 1 + 1 := by
      have := h.start_le
      omega
    have hkept : ∀ s ∈ w.segments, (openSegment (w.seq + 1 + 1) written clock.opened).2.lookup
        s.path = written.lookup s.path :=
      fun s hs => Directory.lookup_openAppend_of_ne (h.path_ne_later hlater hs)
    rw [readFrom_eq_readViews]
    simp only [Wal.segments, Wal.rotated, List.map_append, List.append_assoc]
    have hself' : ∀ file, dir.lookup w.cur.path = some file → ∃ mtime,
        (openSegment (w.seq + 1 + 1) written clock.opened).2.lookup w.cur.path =
          some ⟨file.data ++ (cut ++ (line ++ [newline])), mtime⟩ := by
      intro file hfile
      rw [hkept w.cur (Layout.mem_cur w)]
      exact hself file hfile
    exact h.readViews_torn hpath hend hcut hobject hself'
      (fun s hs => (hkept s (Layout.mem_older hs)).trans (hother s hs)) _
  · rw [readFrom_eq_readViews]
    simp only [Wal.segments, List.map_append]
    exact h.readViews_torn hpath hend hcut hobject hself hother []

/-! ## The theorem -/

theorem Session.Sound.not_readsAppended_of_part {s : Session E} (h : s.Sound pj) {env : E}
    {text : Bytes} (htext : pj.marshal env = some text) (agent : String) (clock : AppendClock)
    {bytes : Bytes} (hbytes : bytes ≠ [])
    (hpart : bytes <+: marshalEntry ⟨s.wal.seq + 1, agent, text, clock.ts⟩) :
    ¬ (Session.append pj ⟨s.dir.write s.wal.cur.path bytes clock.written,
        { s.wal with seq := s.wal.seq + 1 }, s.appended⟩
      ⟨agent, some env, clock, .none⟩).ReadsAppended pj := by
  obtain ⟨rest, hrest⟩ := hpart
  by_cases hwhole : rest = []
  · let failed : Entry E := ⟨s.wal.seq + 1, agent, env, clock.ts⟩
    have hframed : Framed marshalEntry ([failed].map (Entry.disk pj)) bytes := by
      rw [List.map_singleton, Entry.disk_eq htext, ← List.append_nil bytes, ← hwhole, hrest]
      exact Framed.single _
    have hstored := h.stored.append h.isOpen (Nat.le_succ _) (.single htext agent clock.ts)
      hframed (fun file hfile => ⟨_, Directory.lookup_write_self hfile bytes clock.written⟩)
      (fun name hname => Directory.lookup_write_of_ne hname _) agent htext clock
    apply Stored.not_readsAppended hstored
    rw [Session.append_none (s := ⟨_, { s.wal with seq := s.wal.seq + 1 }, _⟩) h.isOpen agent
      htext clock]
    simp
  · have hobject := isObject_marshalEntry (d := ⟨s.wal.seq + 1, agent, text, clock.ts⟩)
      (pj.marshal_isObject htext)
    have hcut : Torn bytes := torn_of_cut hobject hrest.symm hbytes hwhole
    rintro ⟨hread, -⟩
    exact h.stored.readFrom_torn h.isOpen hcut clock.written agent htext clock
      (congrArg Prod.snd hread)

theorem Session.Sound.not_readsAppended_of_line {s : Session E} (h : s.Sound pj) {env : E}
    {text : Bytes} (htext : pj.marshal env = some text) (agent : String) (clock : AppendClock)
    (size : Nat) :
    ¬ (⟨s.wal.writeLine s.dir (marshalEntry ⟨s.wal.seq + 1, agent, text, clock.ts⟩)
        clock.written, { s.wal.appendedTo size with curOpen := false }, s.appended⟩ :
      Session E).ReadsAppended pj := by
  let failed : Entry E := ⟨s.wal.seq + 1, agent, env, clock.ts⟩
  have hframed : Framed marshalEntry ([failed].map (Entry.disk pj))
      (marshalEntry ⟨s.wal.seq + 1, agent, text, clock.ts⟩ ++ [newline]) := by
    rw [List.map_singleton, Entry.disk_eq htext]
    exact Framed.line _
  have hstored := h.stored.write (Nat.lt_succ_self _) (.single htext agent clock.ts) hframed
    (fun file hfile => ⟨_, Wal.lookup_writeLine_self hfile _ clock.written⟩)
    (fun name hname => Wal.lookup_writeLine_of_ne hname _ clock.written)
    (s.wal.cur.bytes + size) false
  apply Stored.not_readsAppended hstored
  simp

theorem Session.Sound.not_readsAppended {s : Session E} (h : s.Sound pj) {call : AppendCall E}
    (hcall : s.wal.leavesNoTrace pj call = false) :
    ¬ (s.append pj call).ReadsAppended pj ∨
      ¬ ((s.append pj call).append pj { call with faults := .none }).ReadsAppended pj := by
  obtain ⟨env, text, henv, htext, htrace⟩ := append_of_trace s.dir hcall
  rcases htrace with ⟨err, bytes, hbytes, hpart, hresult⟩ | hresult
  · right
    have hfirst : s.append pj call = ⟨s.dir.write s.wal.cur.path bytes call.clock.written,
        { s.wal with seq := s.wal.seq + 1 }, s.appended⟩ := by
      simp only [Session.append, hresult, returnedEntry, Option.toList_none, List.append_nil]
    have hretry : { call with faults := .none } =
        (⟨call.agent, some env, call.clock, .none⟩ : AppendCall E) := by
      rw [← henv]
    rw [hfirst, hretry]
    exact h.not_readsAppended_of_part htext call.agent call.clock hbytes hpart
  · left
    have hfirst := h.not_readsAppended_of_line htext call.agent call.clock
    simp only [Session.append, hresult, returnedEntry, Option.toList_none, List.append_nil]
    exact hfirst _

private theorem leavesNoTrace_of_none (w : Wal) {call : AppendCall E} (h : call.faults = .none) :
    w.leavesNoTrace pj call = true := by
  cases hopen : w.curOpen <;>
    simp [Wal.leavesNoTrace, h, AppendFaults.none, hopen]

/-- Readers of a WAL opened on an empty directory get exactly the entries of the
successful appends, after each call of a run and after any further appends without a
fault, if and only if no call of the run leaves a trace. -/
theorem failed_appends_invisible_iff {opts : Options} {now : Int} {w : Wal} {dir : Directory}
    (hopen : openWal opts ∅ now = .ok (w, dir)) (calls : List (AppendCall E)) :
    (∀ before, before <+: calls → ∀ more : List (AppendCall E),
      (∀ call ∈ more, call.faults = .none) →
        ((before ++ more).foldl (Session.append pj) ⟨dir, w, []⟩).ReadsAppended pj) ↔
      Along (Session.append pj) (fun s call => s.wal.leavesNoTrace pj call = true)
        ⟨dir, w, []⟩ calls := by
  have hstart : (⟨dir, w, []⟩ : Session E).Sound pj := ⟨.opened hopen, openWal_curOpen hopen⟩
  constructor
  · intro h
    by_contra hnot
    obtain ⟨before, call, hbefore, halong, htrace⟩ := exists_of_not_along hnot
    have hsound := along_invariant (Session.Sound pj) (fun s call hs hcall => hs.append hcall)
      hstart halong
    have hat : ∀ more : List (AppendCall E), (∀ call ∈ more, call.faults = .none) →
        (more.foldl (Session.append pj) ((before.foldl (Session.append pj)
          ⟨dir, w, []⟩).append pj call)).ReadsAppended pj := by
      intro more hmore
      have hreads := h _ hbefore more hmore
      simpa only [List.foldl_append, List.foldl_cons, List.foldl_nil] using hreads
    rcases hsound.not_readsAppended (by simpa using htrace) with hnow | hlater
    · exact hnow (hat [] (by simp))
    · exact hlater (hat [{ call with faults := .none }] (by simp))
  · rintro halong before ⟨after, rfl⟩ more hmore
    have hbefore := (along_append.mp halong).1
    have hmore' : Along (Session.append pj)
        (fun s call => s.wal.leavesNoTrace pj call = true)
        (before.foldl (Session.append pj) ⟨dir, w, []⟩) more :=
      along_of_forall fun s call hc => leavesNoTrace_of_none s.wal (hmore call hc)
    have hsound := along_invariant (Session.Sound pj) (fun s call hs hcall => hs.append hcall)
      hstart (along_append.mpr ⟨hbefore, hmore'⟩)
    exact hsound.readsAppended

/-! ## Three traces -/

def faultyAppend (faults : AppendFaults) : List (AppendCall Unit) :=
  [⟨"node-a", some (), ⟨1, 1, 1⟩, .none⟩, ⟨"node-b", some (), ⟨2, 2, 2⟩, faults⟩,
    ⟨"node-c", some (), ⟨3, 3, 3⟩, .none⟩]

def readBack (opts : Options) (calls : List (AppendCall Unit)) :
    Option (List (Entry Unit) × List (Entry Unit) × Option ReadError) :=
  (openedEmpty opts).map fun s =>
    let final := calls.foldl (Session.append emptyMessage) s
    (final.appended, final.wal.readFrom emptyMessage final.dir 0)

theorem not_readsAppended_of_readBack {opts : Options} {calls : List (AppendCall Unit)}
    {appended : List (Entry Unit)} {result : List (Entry Unit) × Option ReadError}
    (h : readBack opts calls = some (appended, result)) (hne : result ≠ (appended, none)) :
    ∃ w dir, openWal opts ∅ 0 = .ok (w, dir) ∧
      ¬ (calls.foldl (Session.append emptyMessage) ⟨dir, w, []⟩).ReadsAppended
        emptyMessage := by
  obtain ⟨s, hs, heq⟩ := Option.map_eq_some_iff.mp h
  obtain ⟨hopen, hstart⟩ := openWal_of_openedEmpty hs
  simp only [Prod.mk.injEq] at heq
  rw [hstart] at heq
  refine ⟨s.wal, s.dir, hopen, ?_⟩
  rintro ⟨hread, -⟩
  rw [heq.1, heq.2] at hread
  exact hne hread

/-- A torn record makes `ReadFrom` fail, a record without its newline and the record of a
failed rotation are delivered although their appends returned errors. -/
theorem failed_appends_visible :
    (∃ w dir, openWal roomySegments ∅ 0 = .ok (w, dir) ∧
      ¬ ((faultyAppend ⟨false, some 5, false, false⟩).foldl (Session.append emptyMessage)
        ⟨dir, w, []⟩).ReadsAppended emptyMessage) ∧
    (∃ w dir, openWal roomySegments ∅ 0 = .ok (w, dir) ∧
      ¬ ((faultyAppend ⟨false, none, true, false⟩).foldl (Session.append emptyMessage)
        ⟨dir, w, []⟩).ReadsAppended emptyMessage) ∧
    ∃ w dir, openWal tinySegments ∅ 0 = .ok (w, dir) ∧
      ¬ ((faultyAppend ⟨false, none, false, true⟩).foldl (Session.append emptyMessage)
        ⟨dir, w, []⟩).ReadsAppended emptyMessage := by
  have htorn : readBack roomySegments (faultyAppend ⟨false, some 5, false, false⟩) =
      some ([⟨1, "node-a", (), 1⟩, ⟨3, "node-c", (), 3⟩],
        [⟨1, "node-a", (), 1⟩], some (.decode .syntaxError)) := by
    decide +kernel
  have hnewline : readBack roomySegments (faultyAppend ⟨false, none, true, false⟩) =
      some ([⟨1, "node-a", (), 1⟩, ⟨3, "node-c", (), 3⟩],
        [⟨1, "node-a", (), 1⟩, ⟨2, "node-b", (), 2⟩, ⟨3, "node-c", (), 3⟩], none) := by
    decide +kernel
  have hrotate : readBack tinySegments (faultyAppend ⟨false, none, false, true⟩) =
      some ([⟨1, "node-a", (), 1⟩],
        [⟨1, "node-a", (), 1⟩, ⟨2, "node-b", (), 2⟩], none) := by
    decide +kernel
  exact ⟨not_readsAppended_of_readBack htorn (by simp),
    not_readsAppended_of_readBack hnewline (by simp),
    not_readsAppended_of_readBack hrotate (by simp)⟩

theorem failed_appends_invisible_nothingWritten :
    ∃ w dir, openWal roomySegments ∅ 0 = .ok (w, dir) ∧
      ((faultyAppend ⟨false, some 0, false, false⟩).foldl (Session.append emptyMessage)
        ⟨dir, w, []⟩).ReadsAppended emptyMessage := by
  have hvalues : (openedEmpty roomySegments).map (fun s =>
      decide (Along (Session.append emptyMessage)
        (fun s call => s.wal.leavesNoTrace emptyMessage call = true) s
        (faultyAppend ⟨false, some 0, false, false⟩))) = some true := by
    decide +kernel
  obtain ⟨s, hs, halong⟩ := Option.map_eq_some_iff.mp hvalues
  obtain ⟨hopen, hstart⟩ := openWal_of_openedEmpty hs
  rw [hstart] at halong
  have hreads := (failed_appends_invisible_iff hopen _).mpr (of_decide_eq_true halong) _
    List.prefix_rfl [] (by simp)
  rw [List.append_nil] at hreads
  exact ⟨s.wal, s.dir, hopen, hreads⟩

end KloudlensAggregator.Envwal
