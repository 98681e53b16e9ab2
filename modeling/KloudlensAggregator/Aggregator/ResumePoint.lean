import KloudlensAggregator.Aggregator.CursorStore
import KloudlensAggregator.Foundation.HighWater

/-!
# Resume points

`Save` compares a cursor with the one that is stored, and nothing else of the
past is left.  For each agent and stream the store is a register that advances
within a node; what `Load` answers is the high-water mark of the cursors saved
for that pair, however the calls for other pairs come in between.
-/

namespace KloudlensAggregator.Aggregator.CursorStore

open KloudlensAggregator.Foundation

variable {agent stream : String}

/-- The cursors of the calls for one pair, without the nil ones. -/
def savesOf (calls : List SaveCall) (agent stream : String) : List Cursor :=
  calls.filterMap fun call =>
    if call.agent = agent ∧ call.stream = stream then call.cursor else none

theorem savesOf_append (calls more : List SaveCall) (agent stream : String) :
    savesOf (calls ++ more) agent stream =
      savesOf calls agent stream ++ savesOf more agent stream :=
  List.filterMap_append

private theorem load_save_step (s : CursorStore) (call : SaveCall)
    (hcall : '\x00' ∉ call.agent.toList)
    (hagent : '\x00' ∉ agent.toList) :
    (s.save call.agent call.stream call.cursor).load agent stream =
      (savesOf [call] agent stream).foldl (advance Cursor.nodeId Cursor.seq)
        (s.load agent stream) := by
  obtain ⟨callAgent, callStream, cursor⟩ := call
  cases cursor with
  | none => simp [savesOf, save]
  | some c =>
      rw [load_save s callStream stream c hcall hagent]
      by_cases hpair : agent = callAgent ∧ stream = callStream
      · obtain ⟨rfl, rfl⟩ := hpair
        simp only [savesOf, and_self, if_true, List.filterMap_cons, List.filterMap_nil,
          List.foldl_cons, List.foldl_nil]
        cases s.load agent stream with
        | none => rfl
        | some prev =>
            simp only [advance]
            split <;> rfl
      · have hother : ¬ (callAgent = agent ∧ callStream = stream) := by
          rintro ⟨rfl, rfl⟩
          exact hpair ⟨rfl, rfl⟩
        simp [savesOf, hpair, hother]

theorem load_saveAll (s : CursorStore) {calls : List SaveCall}
    (hcalls : ∀ call ∈ calls, '\x00' ∉ call.agent.toList) (hagent : '\x00' ∉ agent.toList) :
    (s.saveAll calls).load agent stream =
      (savesOf calls agent stream).foldl (advance Cursor.nodeId Cursor.seq)
        (s.load agent stream) := by
  induction calls generalizing s with
  | nil => rfl
  | cons call calls ih =>
      rw [List.forall_mem_cons] at hcalls
      rw [← List.singleton_append, savesOf_append, List.foldl_append,
        ← load_save_step s call hcalls.1 hagent]
      exact ih (s.save call.agent call.stream call.cursor) hcalls.2

theorem load_newFile_none : (newFile none).load agent stream = none := rfl

theorem load_is_highWater (calls : List SaveCall)
    (hcalls : ∀ call ∈ calls, '\x00' ∉ call.agent.toList) (agent stream : String)
    (hagent : '\x00' ∉ agent.toList) :
    (((newFile none).saveAll calls).load agent stream = none ↔
        savesOf calls agent stream = []) ∧
      (∀ c, ((newFile none).saveAll calls).load agent stream = some c ↔
        IsHighWater Cursor.nodeId Cursor.seq (savesOf calls agent stream) c) ∧
      ∀ c more, ((newFile none).saveAll calls).load agent stream = some c →
        (∀ call ∈ more, '\x00' ∉ call.agent.toList) →
        (∀ d ∈ savesOf more agent stream, d.nodeId = c.nodeId) →
        ∃ d, ((newFile none).saveAll (calls ++ more)).load agent stream = some d ∧
          d.nodeId = c.nodeId ∧ c.seq ≤ d.seq := by
  rw [load_saveAll _ hcalls hagent, load_newFile_none]
  refine ⟨foldl_advance_eq_none_iff, fun c => foldl_advance_eq_some_iff, ?_⟩
  intro c more hload hmore hnode
  have hboth : ∀ call ∈ calls ++ more, '\x00' ∉ call.agent.toList :=
    List.forall_mem_append.mpr ⟨hcalls, hmore⟩
  rw [load_saveAll _ hboth hagent, load_newFile_none, savesOf_append, List.foldl_append, hload]
  exact exists_foldl_advance_le Cursor.seq hnode

def mixedSaves : List SaveCall :=
  [⟨"agent-a", "intent", some ⟨"node-a", "intent", 9⟩⟩,
    ⟨"agent-a", "intent", some ⟨"node-b", "intent", 4⟩⟩,
    ⟨"agent-b", "intent", some ⟨"node-b", "intent", 7⟩⟩,
    ⟨"agent-a", "intent", none⟩,
    ⟨"agent-a", "intent", some ⟨"node-b", "audit", 4⟩⟩,
    ⟨"agent-a", "intent", some ⟨"node-b", "intent", 3⟩⟩]

theorem load_mixedSaves :
    IsHighWater Cursor.nodeId Cursor.seq (savesOf mixedSaves "agent-a" "intent")
        ⟨"node-b", "audit", 4⟩ ∧
      ∃ d, ((newFile none).saveAll (mixedSaves ++ mixedSaves.drop 2)).load "agent-a" "intent" =
          some d ∧ d.nodeId = "node-b" ∧ 4 ≤ d.seq := by
  have hcalls : ∀ call ∈ mixedSaves, '\x00' ∉ call.agent.toList := by decide +kernel
  have hload : ((newFile none).saveAll mixedSaves).load "agent-a" "intent" =
      some ⟨"node-b", "audit", 4⟩ := by
    decide +kernel
  obtain ⟨-, hmark, hforwards⟩ :=
    load_is_highWater mixedSaves hcalls "agent-a" "intent" (by decide +kernel)
  refine ⟨(hmark _).mp hload, hforwards _ _ hload ?_ ?_⟩
  · exact fun call hcall => hcalls call (List.mem_of_mem_drop hcall)
  · decide +kernel

end KloudlensAggregator.Aggregator.CursorStore
