import KloudlensAggregator.Envwal.World

/-!
# The sequence of the re-export stream

`emitEnvelope` tags every envelope with the seq its WAL append returned and,
when the append fails, with the next value of an in-memory counter.  The two
counters are kept in step only by successful appends.  This module says exactly
when the broadcast seqs still come out in order.
-/

namespace KloudlensAggregator.Aggregator

open KloudlensAggregator.Foundation
open KloudlensAggregator.Envwal

variable {E : Type} {pj : ProtoJson E}

structure EmitCall (E : Type) where
  agent : String
  envelope : Option E
  clock : AppendClock
  faults : AppendFaults

/-- The fields of the aggregator that `emitEnvelope` uses to assign a seq.  The
world holds the configured WAL, if there is one. -/
structure Writer (E : Type) where
  world : World E
  liveSeq : Nat
  walAppends : Nat
  walErrors : Nat

def Writer.new (world : World E) : Writer E := ⟨world, 0, 0, 0⟩

structure Emission where
  result : Option (Except AppendError Nat)
  seq : Nat

/-- The head of `emitEnvelope`. -/
def Writer.assignSeq (pj : ProtoJson E) (a : Writer E) (call : EmitCall E) :
    Emission × Writer E :=
  match a.world.wal with
  | none => (⟨none, a.liveSeq + 1⟩, { a with liveSeq := a.liveSeq + 1 })
  | some w =>
      let world := a.world.append pj w call.agent call.envelope call.clock call.faults
      match (w.append pj a.world.dir call.agent call.envelope call.clock call.faults).1 with
      | .error err =>
          (⟨some (.error err), a.liveSeq + 1⟩,
            { a with world := world, liveSeq := a.liveSeq + 1, walErrors := a.walErrors + 1 })
      | .ok seq =>
          (⟨some (.ok seq), seq⟩,
            { a with world := world, liveSeq := seq, walAppends := a.walAppends + 1 })

def Writer.emitAll (pj : ProtoJson E) : Writer E → List (EmitCall E) → List Emission
  | _, [] => []
  | a, call :: calls =>
      let out := a.assignSeq pj call
      out.1 :: Writer.emitAll pj out.2 calls

def Emission.succeeded (out : Emission) : Bool :=
  match out.result with
  | some (.ok _) => true
  | _ => false

def Emission.failedEarly (out : Emission) : Bool :=
  match out.result with
  | some (.error .nilEnvelope) => true
  | some (.error .marshalEnvelope) => true
  | _ => false

/-! ## One call -/

theorem append_seq_cases (pj : ProtoJson E) (w : Wal) (dir : Directory) (agent : String)
    (env : Option E) (clock : AppendClock) (faults : AppendFaults) :
    ((w.append pj dir agent env clock faults).1 = .ok (w.seq + 1) ∧
      (w.append pj dir agent env clock faults).2.1.seq = w.seq + 1) ∨
    ∃ err, (w.append pj dir agent env clock faults).1 = .error err ∧
      (w.append pj dir agent env clock faults).2.1.seq =
        if err = .nilEnvelope ∨ err = .marshalEnvelope then w.seq else w.seq + 1 := by
  cases env with
  | none => exact .inr ⟨.nilEnvelope, rfl, by simp [Wal.append]⟩
  | some env =>
      cases htext : pj.marshal env with
      | none =>
          exact .inr ⟨.marshalEnvelope, by simp [Wal.append, htext],
            by simp [Wal.append, htext]⟩
      | some text =>
          simp only [Wal.append, htext, Wal.writeRecord, Wal.finishAppend]
          repeat' split
          all_goals first
            | exact .inl ⟨rfl, rfl⟩
            | exact .inr ⟨_, rfl, rfl⟩

theorem Writer.assignSeq_cases (pj : ProtoJson E) (a : Writer E) {w : Wal}
    (hwal : a.world.wal = some w) (call : EmitCall E) :
    ∃ w', (a.assignSeq pj call).2.world.wal = some w' ∧
      (a.assignSeq pj call).2.liveSeq = (a.assignSeq pj call).1.seq ∧
      (((a.assignSeq pj call).1.succeeded = true ∧
          (a.assignSeq pj call).1.failedEarly = false ∧
          (a.assignSeq pj call).1.seq = w.seq + 1 ∧ w'.seq = w.seq + 1) ∨
        ((a.assignSeq pj call).1.succeeded = false ∧
          (a.assignSeq pj call).1.failedEarly = false ∧
          (a.assignSeq pj call).1.seq = a.liveSeq + 1 ∧ w'.seq = w.seq + 1) ∨
        ((a.assignSeq pj call).1.succeeded = false ∧
          (a.assignSeq pj call).1.failedEarly = true ∧
          (a.assignSeq pj call).1.seq = a.liveSeq + 1 ∧ w'.seq = w.seq)) := by
  unfold Writer.assignSeq
  simp only [hwal]
  refine ⟨(w.append pj a.world.dir call.agent call.envelope call.clock call.faults).2.1, ?_⟩
  rcases append_seq_cases pj w a.world.dir call.agent call.envelope call.clock call.faults with
    ⟨hresult, hseq⟩ | ⟨err, hresult, hseq⟩
  · simp [hresult, hseq, World.append, Emission.succeeded, Emission.failedEarly]
  · cases err <;>
      simp [hresult, hseq, World.append, Emission.succeeded, Emission.failedEarly]

/-! ## Sequences of calls -/

/-- No append succeeds after one that failed before it took a seq. -/
def NoSuccessAfterEarlyFailure (outs : List Emission) : Prop :=
  outs.Pairwise fun earlier later => earlier.failedEarly = true → later.succeeded = false

private theorem pairwise_succ_cons {n : Nat} {seqs : List Nat} :
    (n :: (n + 1) :: seqs).Pairwise (· < ·) ↔ ((n + 1) :: seqs).Pairwise (· < ·) := by
  simp only [List.pairwise_cons, List.mem_cons, forall_eq_or_imp]
  constructor
  · exact fun h => h.2
  · intro h
    exact ⟨⟨Nat.lt_succ_self n, fun m hm => Nat.lt_of_succ_lt (h.1 m hm)⟩, h⟩

theorem Writer.emitAll_increasing_iff (pj : ProtoJson E) (a : Writer E) {w : Wal}
    (hwal : a.world.wal = some w) (hahead : w.seq ≤ a.liveSeq) (calls : List (EmitCall E)) :
    (a.liveSeq :: (a.emitAll pj calls).map Emission.seq).Pairwise (· < ·) ↔
      (a.liveSeq = w.seq ∨ ∀ out ∈ a.emitAll pj calls, out.succeeded = false) ∧
        NoSuccessAfterEarlyFailure (a.emitAll pj calls) := by
  -- From a live counter that is not behind the WAL, the seqs keep increasing as long as the
  -- two agree or no append succeeds any more.
  induction calls generalizing a w with
  | nil => simp [Writer.emitAll, NoSuccessAfterEarlyFailure]
  | cons call calls ih =>
      obtain ⟨w', hwal', hlive, hcases⟩ := a.assignSeq_cases pj hwal call
      simp only [Writer.emitAll, List.map_cons, NoSuccessAfterEarlyFailure,
        List.pairwise_cons (a := (a.assignSeq pj call).1), List.forall_mem_cons]
      rcases hcases with ⟨hok, hearly, hseq, hnext⟩ | ⟨hok, hearly, hseq, hnext⟩ |
        ⟨hok, hearly, hseq, hnext⟩
      · -- A success moves both counters to the seq of the WAL.
        have hrest := ih (a.assignSeq pj call).2 hwal' (by omega)
        rw [hlive, hseq] at hrest
        simp only [hnext, true_or, true_and] at hrest
        simp only [hok, hearly, hseq, Bool.true_eq_false, Bool.false_eq_true, false_and,
          or_false, false_implies, implies_true, true_and]
        constructor
        · intro h
          have hlt : a.liveSeq < w.seq + 1 := (List.pairwise_cons.mp h).1 _ List.mem_cons_self
          exact ⟨by omega, hrest.mp (List.pairwise_cons.mp h).2⟩
        · rintro ⟨hsame, hnone⟩
          rw [hsame]
          exact pairwise_succ_cons.mpr (hrest.mpr hnone)
      · -- A failure behind the counter of the WAL moves both by one.
        have hrest := ih (a.assignSeq pj call).2 hwal' (by omega)
        rw [hlive, hseq, hnext, Nat.add_right_cancel_iff] at hrest
        simp only [hok, hearly, hseq, Bool.false_eq_true, true_and, false_implies, implies_true]
        rw [pairwise_succ_cons]
        exact hrest
      · -- An early failure moves the live counter alone.
        have hrest := ih (a.assignSeq pj call).2 hwal' (by omega)
        have hapart : ¬ a.liveSeq + 1 = w.seq := by omega
        rw [hlive, hseq, hnext] at hrest
        simp only [hapart, false_or] at hrest
        simp only [hok, hearly, hseq, true_and, forall_const]
        rw [pairwise_succ_cons]
        constructor
        · intro h
          exact ⟨.inr (hrest.mp h).1, hrest.mp h⟩
        · exact fun h => hrest.mpr h.2

/-- The seqs a new aggregator broadcasts over a WAL increase from the last seq of
the WAL on exactly when the WAL starts empty or the first append succeeds, and
no append succeeds after one that failed before it took a seq. -/
theorem broadcast_seqs_increasing_iff {world : World E} {w : Wal} (hwal : world.wal = some w)
    (calls : List (EmitCall E)) :
    (((Writer.new world).emitAll pj calls).map Emission.seq).Pairwise (· < ·) ∧
        (∀ seq ∈ ((Writer.new world).emitAll pj calls).map Emission.seq, w.lastSeq < seq) ↔
      (w.lastSeq = 0 ∨
        ∀ out ∈ ((Writer.new world).emitAll pj calls).head?, out.succeeded = true) ∧
      NoSuccessAfterEarlyFailure ((Writer.new world).emitAll pj calls) := by
  rw [and_comm, ← List.pairwise_cons]
  unfold Wal.lastSeq
  by_cases hempty : w.seq = 0
  · have hstart := (Writer.new world).emitAll_increasing_iff pj hwal (by omega) calls
    simp only [Writer.new] at hstart
    simp only [hempty, Writer.new, true_or, true_and] at hstart ⊢
    exact hstart
  · cases calls with
    | nil => simp [Writer.emitAll, NoSuccessAfterEarlyFailure]
    | cons call calls =>
        obtain ⟨w', hwal', hlive, hcases⟩ :=
          (Writer.new world).assignSeq_cases pj hwal call
        simp only [Writer.emitAll, List.map_cons, List.head?_cons, Option.mem_some_iff,
          forall_eq', hempty, false_or, NoSuccessAfterEarlyFailure,
          List.pairwise_cons (a := ((Writer.new world).assignSeq pj call).1)]
        rcases hcases with ⟨hok, hearly, hseq, hnext⟩ | ⟨hok, -, hseq, -⟩ |
          ⟨hok, -, hseq, -⟩
        · have hrest := ((Writer.new world).assignSeq pj call).2.emitAll_increasing_iff pj
            hwal' (by omega) calls
          rw [hlive, hseq] at hrest
          simp only [hnext, true_or, true_and] at hrest
          simp only [hok, hearly, hseq, Bool.false_eq_true, false_implies, implies_true,
            true_and]
          rw [pairwise_succ_cons]
          exact hrest
        all_goals
          simp only [hok, hseq, Bool.false_eq_true, false_and, iff_false]
          intro h
          have hlt : w.seq < 0 + 1 := (List.pairwise_cons.mp h).1 _ List.mem_cons_self
          omega

/-! ## Without a failed append -/

def Emission.failed (out : Emission) : Bool :=
  match out.result with
  | some (.error _) => true
  | _ => false

def Writer.nextSeq (a : Writer E) : Nat :=
  (match a.world.wal with
    | none => a.liveSeq
    | some w => w.seq) + 1

theorem Writer.assignSeq_next (pj : ProtoJson E) (a : Writer E) (call : EmitCall E)
    (hok : (a.assignSeq pj call).1.failed = false) :
    (a.assignSeq pj call).1.seq = a.nextSeq ∧
      (a.assignSeq pj call).2.nextSeq = a.nextSeq + 1 := by
  cases hwal : a.world.wal with
  | none => simp [Writer.assignSeq, Writer.nextSeq, hwal]
  | some w =>
      unfold Writer.assignSeq at hok ⊢
      simp only [hwal] at hok ⊢
      rcases append_seq_cases pj w a.world.dir call.agent call.envelope call.clock call.faults with
        ⟨hresult, hseq⟩ | ⟨err, hresult, -⟩
      · simp [hresult, hseq, Writer.nextSeq, World.append, hwal]
      · simp [hresult, Emission.failed] at hok

theorem Writer.emitAll_consecutive (pj : ProtoJson E) (a : Writer E) (calls : List (EmitCall E))
    (hok : ∀ out ∈ a.emitAll pj calls, out.failed = false) :
    (a.emitAll pj calls).map Emission.seq = List.range' a.nextSeq calls.length := by
  induction calls generalizing a with
  | nil => rfl
  | cons call calls ih =>
      simp only [Writer.emitAll, List.forall_mem_cons] at hok
      obtain ⟨hseq, hnext⟩ := a.assignSeq_next pj call hok.1
      have hrest := ih (a.assignSeq pj call).2 hok.2
      simp only [Writer.emitAll, List.map_cons, List.length_cons, List.range'_succ]
      rw [hrest, hseq, hnext]

/-! ## Two runs out of order -/

def oneEntry : List (Event Bool) :=
  [.openLog ⟨"wal", 0, 1000, 10⟩ 0, .append "node-a" (some true) ⟨1, 1, 1⟩ .none, .close,
    .openLog ⟨"wal", 0, 1000, 10⟩ 2]

def earlyFailureThenSuccess : List (EmitCall Bool) :=
  [⟨"node-a", some false, ⟨3, 3, 3⟩, .none⟩, ⟨"node-a", some true, ⟨4, 4, 4⟩, .none⟩]

def failedWrite : List (EmitCall Bool) :=
  [⟨"node-a", some true, ⟨3, 3, 3⟩, ⟨false, some 0, false, false⟩⟩]

def broadcastSeqs (events : List (Event Bool)) (calls : List (EmitCall Bool)) :
    Option (Nat × List Nat) := do
  let world ← run (World.step partialMessage) (World.empty 0) events
  let w ← world.wal
  some (w.lastSeq, ((Writer.new world).emitAll partialMessage calls).map Emission.seq)

theorem broadcastSeqs_out_of_order :
    (∃ last seqs, broadcastSeqs (oneEntry.take 1) earlyFailureThenSuccess = some (last, seqs) ∧
      ¬ seqs.Pairwise (· < ·)) ∧
    ∃ last seqs, broadcastSeqs oneEntry failedWrite = some (last, seqs) ∧
      ¬ ∀ seq ∈ seqs, last < seq := by
  have hrepeated : broadcastSeqs (oneEntry.take 1) earlyFailureThenSuccess =
      some (0, [1, 1]) := by
    decide +kernel
  have hbehind : broadcastSeqs oneEntry failedWrite = some (1, [1]) := by
    decide +kernel
  exact ⟨⟨0, [1, 1], hrepeated, by decide⟩, 1, [1], hbehind, by decide⟩

def twoSuccesses : List (EmitCall Bool) :=
  [⟨"node-a", some true, ⟨3, 3, 3⟩, .none⟩, ⟨"node-b", some true, ⟨4, 4, 4⟩, .none⟩]

theorem broadcast_seqs_twoSuccesses :
    ∃ world w, run (World.step partialMessage) (World.empty 0) oneEntry = some world ∧
      world.wal = some w ∧
      NoSuccessAfterEarlyFailure ((Writer.new world).emitAll partialMessage twoSuccesses) := by
  have hvalues : broadcastSeqs oneEntry twoSuccesses = some (1, [2, 3]) := by
    decide +kernel
  simp only [broadcastSeqs, bind, Option.bind_eq_some_iff, Option.some.injEq,
    Prod.mk.injEq] at hvalues
  obtain ⟨world, hrun, w, hwal, hlast, hseqs⟩ := hvalues
  refine ⟨world, w, hrun, hwal, ((broadcast_seqs_increasing_iff hwal twoSuccesses).mp ?_).2⟩
  rw [hseqs, hlast]
  decide

end KloudlensAggregator.Aggregator
