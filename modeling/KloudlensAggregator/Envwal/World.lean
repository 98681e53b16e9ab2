import KloudlensAggregator.Envwal.ReadFrom
import KloudlensAggregator.Foundation.Run

/-!
# Runs of a WAL on one directory

The directory outlives the processes that open it.  A `World` is the directory
with the WAL of the running process, and keeps what the runs are about: the
entries whose `Append` returned a seq, the records `GC` deleted, and the last
reading of the clock.
-/

namespace KloudlensAggregator.Envwal

open KloudlensAggregator.Foundation
open KloudlensAggregator.Foundation.Json

variable {E : Type}

def Entry.disk (pj : ProtoJson E) (e : Entry E) : DiskEntry :=
  ⟨e.seq, e.agent, (pj.marshal e.envelope).getD [], e.ts⟩

structure World (E : Type) where
  dir : Directory
  wal : Option Wal
  appended : List (Entry E)
  trimmed : List DiskEntry
  now : Int

def World.empty (now : Int) : World E := ⟨∅, none, [], [], now⟩

inductive Event (E : Type) where
  | openLog (opts : Options) (now : Int)
  | append (agent : String) (env : Option E) (clock : AppendClock) (faults : AppendFaults)
  | gc (now : Int)
  | close
  /-- The process dies in an `Append` that has written some bytes of its line. -/
  | crash (agent : String) (env : E) (clock : AppendClock) (written : Nat)

def fileRecords (dir : Directory) (s : Segment) : List DiskEntry :=
  match dir.lookup s.path with
  | none => []
  | some file => (decodeAll unmarshalEntry file.data).1

def returnedEntry (agent : String) (env : Option E) (ts : Int) :
    Except AppendError Nat → Option (Entry E)
  | .ok seq => env.map fun env => ⟨seq, agent, env, ts⟩
  | .error _ => none

/-- The record line of the next `Append`, with its newline. -/
def Wal.nextLine (w : Wal) (agent : String) (text : Bytes) (ts : Int) : Bytes :=
  marshalEntry ⟨w.seq + 1, agent, text, ts⟩ ++ [newline]

def AppendClock.nondecreasing (clock : AppendClock) (now : Int) : Bool :=
  now ≤ clock.ts && clock.ts ≤ clock.written && clock.written ≤ clock.opened

namespace World

def openLog (world : World E) (opts : Options) (now : Int) : Option (World E) :=
  match openWal opts world.dir now with
  | .error _ => none
  | .ok (w, dir) => some { world with dir := dir, wal := some w, now := now }

def append (pj : ProtoJson E) (world : World E) (w : Wal) (agent : String)
    (env : Option E) (clock : AppendClock) (faults : AppendFaults) : World E :=
  let result := w.append pj world.dir agent env clock faults
  { world with
    dir := result.2.2
    wal := some result.2.1
    appended := world.appended ++ (returnedEntry agent env clock.ts result.1).toList
    now := clock.opened }

def gc (world : World E) (w : Wal) (now : Int) : World E :=
  { world with
    dir := (w.gc world.dir now).2
    wal := some (w.gc world.dir now).1
    trimmed := world.trimmed ++ (w.gcRemoved now).flatMap (fileRecords world.dir)
    now := now }

def crash (pj : ProtoJson E) (world : World E) (w : Wal) (agent : String) (env : E)
    (clock : AppendClock) (written : Nat) : Option (World E) :=
  if w.curOpen then
    (pj.marshal env).map fun text =>
      { world with
        dir := world.dir.write w.cur.path
          ((w.nextLine agent text clock.ts).take written) clock.written
        wal := none
        now := clock.opened }
  else none

def step (pj : ProtoJson E) (world : World E) : Event E → Option (World E)
  | .openLog opts now => world.openLog opts now
  | .append agent env clock faults =>
      world.wal.map fun w => world.append pj w agent env clock faults
  | .gc now => world.wal.map fun w => world.gc w now
  | .close => world.wal.map fun w => { world with wal := some w.close }
  | .crash agent env clock written =>
      world.wal.bind fun w => world.crash pj w agent env clock written

def isOpen (world : World E) : Bool := world.wal.any Wal.curOpen

def noFailure (world : World E) : Event E → Bool
  | .append _ _ _ faults => faults == .none && world.isOpen
  | .crash .. => false
  | _ => true

def clockAdvances (world : World E) : Event E → Bool
  | .openLog _ now => world.now ≤ now
  | .append _ _ clock _ => clock.nondecreasing world.now
  | .gc now => world.now ≤ now
  | .close => true
  | .crash _ _ clock _ => clock.nondecreasing world.now

end World

end KloudlensAggregator.Envwal
