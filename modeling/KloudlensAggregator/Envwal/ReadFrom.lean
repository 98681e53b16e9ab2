import KloudlensAggregator.Envwal.Wal

/-!
# Reading the log back

`Wal.readFrom` is `ReadFrom` with nothing running beside it.  A `Reader` is the
same call as a machine: the snapshot is taken under the lock, and between the
steps of the machine (one file opened and read, one entry handed to the
callback) other goroutines may append and collect garbage.
-/

namespace KloudlensAggregator.Envwal

open KloudlensAggregator.Foundation
open KloudlensAggregator.Foundation.Json

inductive ReadError where
  | cursorExpired
  | decode (e : DecodeError)
  | unmarshal (seq : Nat)
  deriving DecidableEq, Repr

structure SegView where
  path : String
  endSeq : Nat
  deriving DecidableEq, Repr

def Segment.view (s : Segment) : SegView := ⟨s.path, s.endSeq⟩

def Wal.oldest (w : Wal) : Nat :=
  match w.older with
  | [] => w.cur.startSeq
  | s :: _ => s.startSeq

/-- `fromSeq > 0 && fromSeq+1 < oldest`, where the cursor comes from a client
and the sum is a 64 bit one. -/
def Wal.cursorExpired (w : Wal) (fromSeq : Nat) : Bool :=
  0 < fromSeq && (fromSeq + 1) % 2 ^ 64 < w.oldest

variable {E : Type}

def readEntries (pj : ProtoJson E) (fromSeq : Nat) :
    List DiskEntry → Option DecodeError → List (Entry E) × Option ReadError
  | [], none => ([], none)
  | [], some e => ([], some (.decode e))
  | d :: rest, e =>
      if d.seq ≤ fromSeq then readEntries pj fromSeq rest e
      else
        match pj.unmarshal d.envelope with
        | none => ([], some (.unmarshal d.seq))
        | some env =>
            let later := readEntries pj fromSeq rest e
            (⟨d.seq, d.agent, env, d.ts⟩ :: later.1, later.2)

def readViews (pj : ProtoJson E) (dir : Directory) (fromSeq : Nat) :
    Bool → List SegView → List (Entry E) × Option ReadError
  | gap, [] => ([], if gap then some .cursorExpired else none)
  | gap, v :: views =>
      if v.endSeq ≤ fromSeq then readViews pj dir fromSeq gap views
      else
        match dir.lookup v.path with
        | none => readViews pj dir fromSeq true views
        | some file =>
            let decoded := decodeAll unmarshalEntry file.data
            match readEntries pj fromSeq decoded.1 decoded.2 with
            | (entries, some e) => (entries, some e)
            | (entries, none) =>
                let later := readViews pj dir fromSeq gap views
                (entries ++ later.1, later.2)

def Wal.readFrom (pj : ProtoJson E) (w : Wal) (dir : Directory) (fromSeq : Nat) :
    List (Entry E) × Option ReadError :=
  if w.cursorExpired fromSeq then ([], some .cursorExpired)
  else readViews pj dir fromSeq false (w.segments.map Segment.view)

/-! ## The machine -/

inductive ReadStatus where
  | reading
  | returned (err : Option ReadError)
  deriving DecidableEq, Repr

structure Reader where
  fromSeq : Nat
  views : List SegView
  gap : Bool
  /-- What is left of the open segment file. -/
  pending : Option (List DiskEntry × Option DecodeError)
  status : ReadStatus
  deriving DecidableEq, Repr

def Wal.snapshot (w : Wal) (fromSeq : Nat) : Reader :=
  { fromSeq := fromSeq
    views := w.segments.map Segment.view
    gap := false
    pending := none
    status := if w.cursorExpired fromSeq then .returned (some .cursorExpired) else .reading }

def Reader.decodeStep (pj : ProtoJson E) (r : Reader) :
    List DiskEntry → Option DecodeError → Reader × Option (Entry E)
  | [], none => ({ r with pending := none }, none)
  | [], some e => ({ r with status := .returned (some (.decode e)) }, none)
  | d :: rest, e =>
      if d.seq ≤ r.fromSeq then ({ r with pending := some (rest, e) }, none)
      else
        match pj.unmarshal d.envelope with
        | none => ({ r with status := .returned (some (.unmarshal d.seq)) }, none)
        | some env =>
            ({ r with pending := some (rest, e) }, some ⟨d.seq, d.agent, env, d.ts⟩)

def Reader.openStep (r : Reader) (dir : Directory) : Reader :=
  match r.views with
  | [] =>
      { r with status := .returned (if r.gap then some .cursorExpired else none) }
  | v :: views =>
      if v.endSeq ≤ r.fromSeq then { r with views := views }
      else
        match dir.lookup v.path with
        | none => { r with views := views, gap := true }
        | some file =>
            { r with views := views, pending := some (decodeAll unmarshalEntry file.data) }

/-- One step, with the entry it hands to the callback. -/
def Reader.step (pj : ProtoJson E) (r : Reader) (dir : Directory) :
    Reader × Option (Entry E) :=
  match r.status with
  | .returned _ => (r, none)
  | .reading =>
      match r.pending with
      | some (rest, e) => r.decodeStep pj rest e
      | none => (r.openStep dir, none)

theorem Reader.step_fromSeq (pj : ProtoJson E) (r : Reader) (dir : Directory) :
    (r.step pj dir).1.fromSeq = r.fromSeq := by
  unfold Reader.step
  cases r.status with
  | returned err => rfl
  | reading =>
      cases r.pending with
      | none =>
          simp only [Reader.openStep]
          split
          · rfl
          · split
            · rfl
            · split <;> rfl
      | some pending =>
          obtain ⟨rest, e⟩ := pending
          cases rest with
          | nil => cases e <;> rfl
          | cons d rest =>
              simp only [Reader.decodeStep]
              split
              · rfl
              · split <;> rfl

theorem Reader.fromSeq_lt_of_step {pj : ProtoJson E} {r : Reader} {dir : Directory}
    {e : Entry E} (h : (r.step pj dir).2 = some e) : r.fromSeq < e.seq := by
  unfold Reader.step at h
  cases hstatus : r.status with
  | returned err => simp [hstatus] at h
  | reading =>
      cases hpending : r.pending with
      | none => simp [hstatus, hpending] at h
      | some pending =>
          obtain ⟨rest, err⟩ := pending
          simp only [hstatus, hpending] at h
          cases rest with
          | nil => cases err <;> cases h
          | cons d rest =>
              simp only [Reader.decodeStep] at h
              split at h
              · cases h
              · rename_i hfresh
                split at h
                · cases h
                · cases h
                  exact Nat.lt_of_not_le hfresh

/-! ## The machine alone computes `readFrom` -/

def Reader.remaining (pj : ProtoJson E) (r : Reader) (dir : Directory) :
    List (Entry E) × Option ReadError :=
  match r.status with
  | .returned err => ([], err)
  | .reading =>
      match r.pending with
      | none => readViews pj dir r.fromSeq r.gap r.views
      | some (rest, e) =>
          match readEntries pj r.fromSeq rest e with
          | (entries, some e) => (entries, some e)
          | (entries, none) =>
              let later := readViews pj dir r.fromSeq r.gap r.views
              (entries ++ later.1, later.2)

theorem Wal.remaining_snapshot (pj : ProtoJson E) (w : Wal) (dir : Directory)
    (fromSeq : Nat) :
    (w.snapshot fromSeq).remaining pj dir = w.readFrom pj dir fromSeq := by
  unfold Wal.readFrom Reader.remaining Wal.snapshot
  by_cases h : w.cursorExpired fromSeq = true <;> simp [h]

theorem Reader.remaining_decodeStep (pj : ProtoJson E) {r : Reader} (dir : Directory)
    {rest : List DiskEntry} {e : Option DecodeError} (hstatus : r.status = .reading)
    (hpending : r.pending = some (rest, e)) :
    r.remaining pj dir =
      ((r.decodeStep pj rest e).2.toList ++ ((r.decodeStep pj rest e).1.remaining pj dir).1,
        ((r.decodeStep pj rest e).1.remaining pj dir).2) := by
  cases rest with
  | nil =>
      cases e with
      | none => simp [remaining, decodeStep, hstatus, hpending, readEntries]
      | some e => simp [remaining, decodeStep, hstatus, hpending, readEntries]
  | cons d rest =>
      simp only [remaining, decodeStep, hstatus, hpending, readEntries]
      by_cases hskip : d.seq ≤ r.fromSeq
      · simp [hskip]
      · simp only [hskip, if_false]
        cases pj.unmarshal d.envelope with
        | none => simp
        | some env =>
            cases hlater : readEntries pj r.fromSeq rest e with
            | mk entries err => cases err <;> simp [hlater]

theorem Reader.remaining_openStep (pj : ProtoJson E) {r : Reader} (dir : Directory)
    (hstatus : r.status = .reading) (hpending : r.pending = none) :
    r.remaining pj dir = (r.openStep dir).remaining pj dir := by
  simp only [remaining, openStep, hstatus, hpending]
  cases hviews : r.views with
  | nil => simp [readViews]
  | cons v views =>
      simp only [readViews]
      by_cases hskip : v.endSeq ≤ r.fromSeq
      · simp [hskip]
      · simp only [hskip, if_false]
        cases dir.lookup v.path with
        | none => simp
        | some file => simp

theorem Reader.remaining_step (pj : ProtoJson E) (r : Reader) (dir : Directory) :
    r.remaining pj dir =
      ((r.step pj dir).2.toList ++ ((r.step pj dir).1.remaining pj dir).1,
        ((r.step pj dir).1.remaining pj dir).2) := by
  unfold step
  cases hstatus : r.status with
  | returned err => simp
  | reading =>
      cases hpending : r.pending with
      | none => simpa using remaining_openStep pj dir hstatus hpending
      | some pending =>
          obtain ⟨rest, e⟩ := pending
          exact remaining_decodeStep pj dir hstatus hpending

def Reader.steps (pj : ProtoJson E) (dir : Directory) : Nat → Reader → List (Entry E) × Reader
  | 0, r => ([], r)
  | n + 1, r =>
      let next := r.step pj dir
      let later := Reader.steps pj dir n next.1
      (next.2.toList ++ later.1, later.2)

theorem Reader.remaining_steps (pj : ProtoJson E) (dir : Directory) (n : Nat) (r : Reader) :
    r.remaining pj dir =
      ((r.steps pj dir n).1 ++ ((r.steps pj dir n).2.remaining pj dir).1,
        ((r.steps pj dir n).2.remaining pj dir).2) := by
  induction n generalizing r with
  | zero => rfl
  | succ n ih =>
      rw [r.remaining_step pj dir, ih (r.step pj dir).1]
      simp [steps]

def SegView.cost (dir : Directory) (v : SegView) : Nat :=
  match dir.lookup v.path with
  | none => 1
  | some file => (decodeAll unmarshalEntry file.data).1.length + 2

def Reader.cost (dir : Directory) (r : Reader) : Nat :=
  match r.status with
  | .returned _ => 0
  | .reading =>
      (r.views.map (SegView.cost dir)).sum +
        (match r.pending with
          | none => 1
          | some (rest, _) => rest.length + 2)

theorem SegView.cost_pos (dir : Directory) (v : SegView) : 0 < v.cost dir := by
  unfold cost
  split <;> omega

theorem Reader.cost_step (pj : ProtoJson E) {r : Reader} (dir : Directory)
    (hstatus : r.status = .reading) : (r.step pj dir).1.cost dir < r.cost dir := by
  simp only [step, hstatus]
  cases hpending : r.pending with
  | none =>
      simp only [openStep]
      cases hviews : r.views with
      | nil => simp [cost, hstatus, hpending]
      | cons v views =>
          have hpos := v.cost_pos dir
          by_cases hskip : v.endSeq ≤ r.fromSeq
          · simp [cost, hstatus, hpending, hviews, hskip, hpos]
          · cases hfile : dir.lookup v.path <;>
              simp only [cost, hstatus, hpending, hviews, hskip, SegView.cost, hfile,
                List.map_cons, List.sum_cons, if_false] <;>
              omega
  | some pending =>
      obtain ⟨rest, e⟩ := pending
      cases rest with
      | nil => cases e <;> simp [decodeStep, cost, hstatus, hpending]
      | cons d rest =>
          simp only [decodeStep]
          split
          · simp [cost, hstatus, hpending]
          · cases pj.unmarshal d.envelope <;> simp [cost, hstatus, hpending]

theorem Reader.steps_returns (pj : ProtoJson E) (dir : Directory) (r : Reader) :
    ∃ n err, (r.steps pj dir n).2.status = .returned err := by
  induction hcost : r.cost dir using Nat.strong_induction_on generalizing r with
  | _ cost ih =>
      cases hstatus : r.status with
      | returned err => exact ⟨0, err, hstatus⟩
      | reading =>
          have hless := r.cost_step pj dir hstatus
          rw [hcost] at hless
          obtain ⟨n, err, hreturned⟩ := ih _ hless (r.step pj dir).1 rfl
          exact ⟨n + 1, err, hreturned⟩

/-- Alone, the machine of a snapshot returns, and what it has handed over and
returned is `ReadFrom`. -/
theorem Wal.steps_snapshot (pj : ProtoJson E) (w : Wal) (dir : Directory)
    (fromSeq : Nat) :
    ∃ n, ((w.snapshot fromSeq).steps pj dir n).1 = (w.readFrom pj dir fromSeq).1 ∧
      ((w.snapshot fromSeq).steps pj dir n).2.status =
        .returned (w.readFrom pj dir fromSeq).2 := by
  obtain ⟨n, err, hreturned⟩ := (w.snapshot fromSeq).steps_returns pj dir
  refine ⟨n, ?_⟩
  rw [← w.remaining_snapshot pj dir fromSeq,
    (w.snapshot fromSeq).remaining_steps pj dir n]
  simp [Reader.remaining, hreturned]

end KloudlensAggregator.Envwal
