import KloudlensAggregator.Envwal.Directory
import KloudlensAggregator.Envwal.Record

/-!
# The write-ahead log

The state of an open WAL and its operations on one directory.  The current
segment is always the last one the WAL lists, so `segments` is `older ++ [cur]`
and the pointer test `s == w.cur` of the source is a position.  Sequence
numbers are natural numbers: the counter of the source would wrap only after
2^64 appends.
-/

namespace KloudlensAggregator.Envwal

open KloudlensAggregator.Foundation
open KloudlensAggregator.Foundation.Json

structure Options where
  dir : String
  maxBytes : Int
  segmentSize : Int
  ttl : Int
  deriving DecidableEq, Repr

def Options.withDefaults (opts : Options) : Options :=
  { dir := opts.dir
    maxBytes := if opts.maxBytes ≤ 0 then 2 * 2 ^ 30 else opts.maxBytes
    segmentSize := if opts.segmentSize ≤ 0 then 32 * 2 ^ 20 else opts.segmentSize
    ttl := if opts.ttl ≤ 0 then 2 * 3600 * 10 ^ 9 else opts.ttl }

/-! ## Segments -/

def segmentName (n : Nat) : String :=
  "aggwal-" ++ String.ofList (List.leftpad 20 '0' (Nat.toDigits 10 n)) ++ ".jsonl"

def isSegmentName (name : String) : Bool :=
  8 ≤ name.toList.length && name.toList.take 7 == "aggwal-".toList

structure Segment where
  path : String
  startSeq : Nat
  endSeq : Nat
  bytes : Nat
  createdAt : Int
  deriving DecidableEq, Repr

structure Wal where
  opts : Options
  seq : Nat
  older : List Segment
  cur : Segment
  /-- `w.cur.f` is not nil. -/
  curOpen : Bool
  overflowTrims : Nat
  deriving DecidableEq, Repr

def Wal.segments (w : Wal) : List Segment := w.older ++ [w.cur]

def Wal.lastSeq (w : Wal) : Nat := w.seq

def openSegment (seq : Nat) (dir : Directory) (now : Int) : Segment × Directory :=
  let path := segmentName (seq + 1)
  ({ path := path, startSeq := seq + 1, endSeq := seq, bytes := 0, createdAt := now },
    dir.openAppend path now)

/-- One directory entry as `reload` sees it; a file without a record is skipped. -/
def segmentOfFile (name : String) (file : File) : Option Segment :=
  let decoded := (decodeAll unmarshalEntry file.data).1
  match decoded.head?, decoded.getLast? with
  | some first, some last =>
      some { path := name, startSeq := first.seq, endSeq := last.seq,
             bytes := file.data.length, createdAt := file.mtime }
  | _, _ => none

def reload (dir : Directory) : List Segment :=
  ((dir.readDir.filter fun entry => isSegmentName entry.1).filterMap
    fun entry => segmentOfFile entry.1 entry.2).insertionSort
      fun a b => a.startSeq ≤ b.startSeq

def resumeSeq (segments : List Segment) : Nat :=
  match segments.getLast? with
  | some last => last.endSeq
  | none => 0

inductive OpenError where
  | emptyDir
  deriving DecidableEq, Repr

def openWal (opts : Options) (dir : Directory) (now : Int) :
    Except OpenError (Wal × Directory) :=
  if opts.dir = "" then .error .emptyDir
  else
    let segments := reload dir
    let seq := resumeSeq segments
    let opened := openSegment seq dir now
    .ok ({ opts := opts.withDefaults, seq := seq, older := segments,
           cur := opened.1, curOpen := true, overflowTrims := 0 }, opened.2)

/-! ## Append -/

/-- The clock readings of one `Append`: the record's timestamp, the modification
time its writes leave, and the creation time of a segment it rotates to. -/
structure AppendClock where
  ts : Int
  written : Int
  opened : Int
  deriving DecidableEq, Repr

/-- What fails during one `Append`; `write` counts the bytes written before it. -/
structure AppendFaults where
  marshalEntry : Bool
  write : Option Nat
  newline : Bool
  openSegment : Bool
  deriving DecidableEq, Repr

def AppendFaults.none : AppendFaults := ⟨false, .none, false, false⟩

inductive AppendError where
  | nilEnvelope
  | marshalEnvelope
  | marshalEntry
  | write
  | newline
  | rotate
  deriving DecidableEq, Repr

variable {E : Type}

def Wal.finishAppend (w : Wal) (dir : Directory) (size : Nat) (clock : AppendClock)
    (faults : AppendFaults) : Except AppendError Nat × Wal × Directory :=
  let w := { w with cur := { w.cur with bytes := w.cur.bytes + size, endSeq := w.seq } }
  if w.opts.segmentSize ≤ w.cur.bytes then
    if faults.openSegment then
      (.error .rotate, { w with curOpen := false }, dir)
    else
      let opened := openSegment w.seq dir clock.opened
      (.ok w.seq, { w with older := w.older ++ [w.cur], cur := opened.1, curOpen := true },
        opened.2)
  else (.ok w.seq, w, dir)

def Wal.writeRecord (w : Wal) (dir : Directory) (line : Bytes) (clock : AppendClock)
    (faults : AppendFaults) : Except AppendError Nat × Wal × Directory :=
  if w.curOpen then
    match faults.write with
    | some written =>
        (.error .write, w, dir.write w.cur.path (line.take written) clock.written)
    | none =>
        let dir := dir.write w.cur.path line clock.written
        if faults.newline then (.error .newline, w, dir)
        else
          let dir := dir.write w.cur.path [Json.newline] clock.written
          w.finishAppend dir (line.length + 1) clock faults
  else (.error .write, w, dir)

def Wal.append (pj : ProtoJson E) (w : Wal) (dir : Directory) (agent : String)
    (env : Option E) (clock : AppendClock) (faults : AppendFaults) :
    Except AppendError Nat × Wal × Directory :=
  match env with
  | none => (.error .nilEnvelope, w, dir)
  | some env =>
      match pj.marshal env with
      | none => (.error .marshalEnvelope, w, dir)
      | some envBytes =>
          let w := { w with seq := w.seq + 1 }
          if faults.marshalEntry then (.error .marshalEntry, w, dir)
          else
            w.writeRecord dir (Envwal.marshalEntry ⟨w.seq, agent, envBytes, clock.ts⟩)
              clock faults

/-! ## GC and Close -/

def isExpired (ttl now : Int) (s : Segment) : Bool := ttl < now - s.createdAt

def totalBytes (segments : List Segment) : Int :=
  (segments.map fun s => (s.bytes : Int)).sum

def trimOverflow (maxBytes : Int) : Int → List Segment → List Segment × List Segment
  | _, [] => ([], [])
  | total, victim :: rest =>
      if maxBytes < total then
        let trimmed := trimOverflow maxBytes (total - victim.bytes) rest
        (trimmed.1, victim :: trimmed.2)
      else (victim :: rest, [])

def Wal.unexpired (w : Wal) (now : Int) : List Segment :=
  w.older.filter fun s => !isExpired w.opts.ttl now s

def Wal.expired (w : Wal) (now : Int) : List Segment :=
  w.older.filter fun s => isExpired w.opts.ttl now s

def Wal.trimmed (w : Wal) (now : Int) : List Segment × List Segment :=
  trimOverflow w.opts.maxBytes (totalBytes (w.unexpired now ++ [w.cur])) (w.unexpired now)

def Wal.gcRemoved (w : Wal) (now : Int) : List Segment :=
  w.expired now ++ (w.trimmed now).2

def Wal.gc (w : Wal) (dir : Directory) (now : Int) : Wal × Directory :=
  ({ w with older := (w.trimmed now).1
            overflowTrims := w.overflowTrims + (w.trimmed now).2.length },
    dir.removeAll ((w.gcRemoved now).map Segment.path))

def Wal.close (w : Wal) : Wal := { w with curOpen := false }

end KloudlensAggregator.Envwal
