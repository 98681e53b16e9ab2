import KloudlensAggregator.Envwal.Restart

/-!
# What a failed file operation leaves behind

Calls on an open WAL in which file operations may fail.  A failed write or
newline leaves the file of the current segment open.  Only `rotate` closes it,
and it does so before the next segment is there: when that cannot be opened,
the WAL has no file to write to any more.
-/

namespace KloudlensAggregator.Envwal

open KloudlensAggregator.Foundation
open KloudlensAggregator.Foundation.Json

variable {E : Type} {pj : ProtoJson E} {dir : Directory} {w : Wal}

structure AppendCall (E : Type) where
  agent : String
  env : Option E
  clock : AppendClock
  faults : AppendFaults

/-- A call with what fails during it; `GC` ignores the files it could not remove. -/
inductive Call (E : Type) where
  | append (call : AppendCall E)
  | gc (now : Int) (left : List String)

structure Session (E : Type) where
  dir : Directory
  wal : Wal
  appended : List (Entry E)

namespace Session

def append (pj : ProtoJson E) (s : Session E) (call : AppendCall E) : Session E :=
  let result := s.wal.append pj s.dir call.agent call.env call.clock call.faults
  { dir := result.2.2
    wal := result.2.1
    appended := s.appended ++ (returnedEntry call.agent call.env call.clock.ts result.1).toList }

def gc (s : Session E) (now : Int) (left : List String) : Session E :=
  { s with
    dir := s.dir.removeAll (((s.wal.gcRemoved now).map Segment.path).filter fun name =>
      !left.contains name)
    wal := (s.wal.gc s.dir now).1 }

def call (pj : ProtoJson E) (s : Session E) : Call E → Session E
  | .append call => s.append pj call
  | .gc now left => s.gc now left

end Session

def AppendFaults.writesLine (faults : AppendFaults) : Bool :=
  !faults.marshalEntry && faults.write.isNone && !faults.newline

def Wal.fills (w : Wal) (line : Bytes) : Bool :=
  w.opts.segmentSize ≤ (w.cur.bytes + line.length : Nat)

/-- The line fills its segment and the next one cannot be opened. -/
def Wal.losesSegment (pj : ProtoJson E) (w : Wal) (call : AppendCall E) : Bool :=
  (call.env.bind pj.marshal).any fun text =>
    w.curOpen && call.faults.writesLine &&
      (w.fills (w.nextLine call.agent text call.clock.ts) && call.faults.openSegment)

def Session.losesSegment (pj : ProtoJson E) (s : Session E) : Call E → Bool
  | .append call => s.wal.losesSegment pj call
  | .gc .. => false

/-! ## The file of the current segment -/

theorem openWal_curOpen {opts : Options} {now : Int} {dir' : Directory}
    (hopen : openWal opts dir now = .ok (w, dir')) : w.curOpen = true := by
  simp only [openWal] at hopen
  split at hopen
  · cases hopen
  · cases hopen
    rfl

theorem append_of_writesLine (dir : Directory) (hopen : w.curOpen = true) (agent : String)
    {env : E} {text : Bytes} (htext : pj.marshal env = some text) (clock : AppendClock)
    {faults : AppendFaults} (hfaults : faults.writesLine = true) :
    w.append pj dir agent (some env) clock faults =
      if w.fills (w.nextLine agent text clock.ts) && faults.openSegment then
        (.error .rotate,
          { w.appendedTo (w.nextLine agent text clock.ts).length with curOpen := false },
          w.writeLine dir (marshalEntry ⟨w.seq + 1, agent, text, clock.ts⟩) clock.written)
      else w.append pj dir agent (some env) clock .none := by
  obtain ⟨marshalEntry, write, newline, openSegment⟩ := faults
  simp only [AppendFaults.writesLine, Bool.and_eq_true, Bool.not_eq_true',
    Option.isNone_iff_eq_none] at hfaults
  obtain ⟨⟨rfl, rfl⟩, rfl⟩ := hfaults
  cases openSegment with
  | false => simp [AppendFaults.none]
  | true =>
      simp only [Wal.append, htext, AppendFaults.none, Wal.writeRecord, hopen, Wal.finishAppend,
        Wal.fills, Wal.nextLine, Wal.appendedTo, Wal.writeLine, List.length_append,
        List.length_singleton, Bool.and_true, if_true, if_false, Bool.false_eq_true,
        decide_eq_true_eq]
      split <;> rfl

theorem append_curOpen_of_none (dir : Directory) (hopen : w.curOpen = true) (agent : String)
    {env : E} {text : Bytes} (htext : pj.marshal env = some text) (clock : AppendClock) :
    (w.append pj dir agent (some env) clock .none).2.1.curOpen = true := by
  rw [append_eq dir hopen agent htext clock]
  dsimp only
  split
  · rfl
  · exact hopen

private theorem append_curOpen_of_fault (w : Wal) (dir : Directory) (agent : String)
    (env : Option E)
    (clock : AppendClock) {faults : AppendFaults} (hfaults : faults.writesLine = false) :
    (w.append pj dir agent env clock faults).2.1.curOpen = w.curOpen := by
  obtain ⟨marshalEntry, write, newline, openSegment⟩ := faults
  cases henv : env.bind pj.marshal with
  | none =>
      obtain ⟨err, hresult⟩ := append_of_refused henv w dir agent clock _
      rw [hresult]
  | some text =>
      obtain ⟨env, rfl, htext⟩ := Option.bind_eq_some_iff.mp henv
      cases hopen : w.curOpen <;> cases marshalEntry <;> cases write <;> cases newline <;>
        simp_all [AppendFaults.writesLine, Wal.append, Wal.writeRecord]

theorem append_of_closed (dir : Directory) (hclosed : w.curOpen = false) (agent : String)
    {env : E} {text : Bytes} (htext : pj.marshal env = some text) (clock : AppendClock)
    {faults : AppendFaults} (hfaults : faults.marshalEntry = false) :
    w.append pj dir agent (some env) clock faults =
      (.error .write, { w with seq := w.seq + 1 }, dir) := by
  simp [Wal.append, Wal.writeRecord, htext, hclosed, hfaults]

private theorem append_curOpen (w : Wal) (dir : Directory) (call : AppendCall E) :
    (w.append pj dir call.agent call.env call.clock call.faults).2.1.curOpen =
      (w.curOpen && !w.losesSegment pj call) := by
  obtain ⟨agent, env, clock, faults⟩ := call
  simp only [Wal.losesSegment]
  cases hfaults : faults.writesLine with
  | false => simp [append_curOpen_of_fault w dir agent env clock hfaults]
  | true =>
      cases henv : env.bind pj.marshal with
      | none =>
          obtain ⟨err, hresult⟩ := append_of_refused henv w dir agent clock faults
          simp [hresult]
      | some text =>
          obtain ⟨env, rfl, htext⟩ := Option.bind_eq_some_iff.mp henv
          cases hopen : w.curOpen with
          | false =>
              have hmarshal : faults.marshalEntry = false := by
                simp_all [AppendFaults.writesLine]
              simp [append_of_closed dir hopen agent htext clock hmarshal, hopen]
          | true =>
              rw [append_of_writesLine dir hopen agent htext clock hfaults]
              cases hloses : w.fills (w.nextLine agent text clock.ts) && faults.openSegment with
              | true => simp [hloses]
              | false =>
                  simp [hloses, append_curOpen_of_none dir hopen agent htext clock]

theorem Session.call_curOpen (s : Session E) (call : Call E) :
    (s.call pj call).wal.curOpen = (s.wal.curOpen && !s.losesSegment pj call) := by
  cases call with
  | append call => exact append_curOpen s.wal s.dir call
  | gc now left => simp [Session.call, Session.gc, Session.losesSegment, Wal.gc]

theorem Session.curOpen_calls_iff (s : Session E) (calls : List (Call E)) :
    (calls.foldl (Session.call pj) s).wal.curOpen = true ↔
      s.wal.curOpen = true ∧
        Along (Session.call pj) (fun s call => s.losesSegment pj call = false) s calls := by
  induction calls generalizing s with
  | nil => simp [Along]
  | cons call calls ih =>
      simp only [List.foldl_cons, ih, s.call_curOpen call, Along, Bool.and_eq_true,
        Bool.not_eq_true', and_assoc]

/-! ## Appends after a failure -/

def Session.Accepts (pj : ProtoJson E) (s : Session E) : Prop :=
  ∀ agent env text clock, pj.marshal env = some text →
    ∃ seq, (s.wal.append pj s.dir agent (some env) clock .none).1 = .ok seq

theorem Session.accepts_iff {env : E} {text : Bytes} (htext : pj.marshal env = some text)
    (s : Session E) : s.Accepts pj ↔ s.wal.curOpen = true := by
  constructor
  · intro h
    obtain ⟨seq, hseq⟩ := h "" env text ⟨0, 0, 0⟩ htext
    by_contra hclosed
    rw [append_of_closed s.dir (by simpa using hclosed) "" htext _ rfl] at hseq
    cases hseq
  · intro hopen agent env text clock htext
    exact ⟨s.wal.seq + 1, by rw [append_eq s.dir hopen agent htext clock]⟩

/-- After any calls on a WAL opened on any directory, appends succeed again if and only
if no `Append` filled its segment and then failed to open the next one. -/
theorem appends_succeed_iff {opts : Options} {now : Int} {w : Wal} {dir dir' : Directory}
    (hopen : openWal opts dir now = .ok (w, dir')) (calls : List (Call E)) :
    (calls.foldl (Session.call pj) ⟨dir', w, []⟩).Accepts pj ↔
      Along (Session.call pj) (fun s call => s.losesSegment pj call = false)
        ⟨dir', w, []⟩ calls := by
  by_cases hany : ∃ env text, pj.marshal env = some text
  · obtain ⟨env, text, htext⟩ := hany
    rw [Session.accepts_iff htext, Session.curOpen_calls_iff]
    exact and_iff_right (openWal_curOpen hopen)
  · -- Without a marshalable envelope nothing is ever written.
    have hnone : ∀ env, pj.marshal env = none := by
      intro env
      cases htext : pj.marshal env with
      | none => rfl
      | some text => exact absurd ⟨env, text, htext⟩ hany
    apply iff_of_true
    · intro agent env text clock htext
      exact absurd ⟨env, text, htext⟩ hany
    · apply along_of_forall
      intro s call _
      cases call with
      | gc now left => rfl
      | append call =>
          cases henv : call.env <;>
            simp [Session.losesSegment, Wal.losesSegment, henv, hnone]

/-! ## A rotation that fails once -/

def openedEmpty (opts : Options) : Option (Session Unit) :=
  match openWal opts ∅ 0 with
  | .error _ => none
  | .ok (w, dir) => some ⟨dir, w, []⟩

theorem openWal_of_openedEmpty {opts : Options} {s : Session Unit}
    (h : openedEmpty opts = some s) :
    openWal opts ∅ 0 = .ok (s.wal, s.dir) ∧ s = ⟨s.dir, s.wal, []⟩ := by
  unfold openedEmpty at h
  split at h
  · cases h
  · rename_i w dir hopen
    cases h
    exact ⟨hopen, rfl⟩

def unopenedSegment : List (Call Unit) :=
  [.append ⟨"node-a", some (), ⟨1, 1, 1⟩, ⟨false, none, false, true⟩⟩]

theorem appends_fail_after_rotation :
    ∃ w dir, openWal tinySegments ∅ 0 = .ok (w, dir) ∧
      ¬ (unopenedSegment.foldl (Session.call emptyMessage) ⟨dir, w, []⟩).Accepts
        emptyMessage := by
  have hvalues : (openedEmpty tinySegments).map (fun s =>
      (unopenedSegment.foldl (Session.call emptyMessage) s).wal.curOpen) = some false := by
    decide +kernel
  obtain ⟨s, hs, hclosed⟩ := Option.map_eq_some_iff.mp hvalues
  obtain ⟨hopen, heq⟩ := openWal_of_openedEmpty hs
  refine ⟨s.wal, s.dir, hopen, ?_⟩
  rw [heq] at hclosed
  rw [Session.accepts_iff (show emptyMessage.marshal () = some _ from rfl), hclosed]
  simp

def otherFaults : List (Call Unit) :=
  [.append ⟨"node-a", some (), ⟨1, 1, 1⟩, ⟨false, some 5, false, true⟩⟩,
    .append ⟨"node-a", some (), ⟨2, 2, 2⟩, ⟨false, none, true, true⟩⟩,
    .append ⟨"node-a", some (), ⟨3, 3, 3⟩, .none⟩,
    .gc 99 [segmentName 1]]

theorem appends_succeed_after_otherFaults :
    ∃ w dir, openWal tinySegments ∅ 0 = .ok (w, dir) ∧
      (otherFaults.foldl (Session.call emptyMessage) ⟨dir, w, []⟩).Accepts emptyMessage := by
  have hvalues : (openedEmpty tinySegments).map (fun s =>
      decide (Along (Session.call emptyMessage)
        (fun s call => s.losesSegment emptyMessage call = false) s otherFaults)) =
      some true := by
    decide +kernel
  obtain ⟨s, hs, halong⟩ := Option.map_eq_some_iff.mp hvalues
  obtain ⟨hopen, heq⟩ := openWal_of_openedEmpty hs
  rw [heq] at halong
  exact ⟨s.wal, s.dir, hopen, (appends_succeed_iff hopen otherFaults).mpr
    (of_decide_eq_true halong)⟩

end KloudlensAggregator.Envwal
