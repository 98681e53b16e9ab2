import Mathlib.Data.List.Find
import Mathlib.Data.List.Induction
import Mathlib.Data.List.TakeWhile
import KloudlensAggregator.Aggregator.Envelope
import KloudlensAggregator.Foundation.GoMap

/-!
# The cursor file

The store of resume points per agent and stream: an in-memory map that `Save`
advances, and the file that a flush replaces as a whole.  A flush ranges over the
map, so that the order of the entries in the file is any order.
-/

namespace KloudlensAggregator.Aggregator

open KloudlensAggregator.Foundation

structure PersistedCursor where
  nodeId : String
  stream : String
  seq : Nat
  deriving DecidableEq, Repr

structure DiskEntry where
  agent : String
  cursor : PersistedCursor
  deriving DecidableEq, Repr

abbrev CursorFile := Option (List DiskEntry)

structure CursorStore where
  data : GoMap String PersistedCursor
  dirty : Bool

def keyOf (agent stream : String) : String := agent ++ "\x00" ++ stream

/-- A key up to the first NUL. -/
def agentOf (key : String) : String := String.ofList (key.toList.takeWhile (· ≠ '\x00'))

namespace CursorStore

def loadFromDisk (entries : List DiskEntry) : GoMap String PersistedCursor :=
  entries.foldl (fun data e => data.insert (keyOf e.agent e.cursor.stream) e.cursor) ∅

def newFile (file : CursorFile) : CursorStore := ⟨loadFromDisk (file.getD []), false⟩

def load (s : CursorStore) (agent stream : String) : Option Cursor :=
  (s.data.lookup (keyOf agent stream)).map fun c => ⟨c.nodeId, c.stream, c.seq⟩

def rewinds (prev : PersistedCursor) (c : Cursor) : Bool :=
  c.seq < prev.seq && c.nodeId == prev.nodeId

def save (s : CursorStore) (agent stream : String) (cursor : Option Cursor) : CursorStore :=
  match cursor with
  | none => s
  | some c =>
      if (s.data.lookup (keyOf agent stream)).any fun prev => rewinds prev c then s
      else ⟨s.data.insert (keyOf agent stream) ⟨c.nodeId, c.stream, c.seq⟩, true⟩

/-- `Save` changes the map and goes on to wake the flusher. -/
def accepts (s : CursorStore) (agent stream : String) (cursor : Option Cursor) : Bool :=
  cursor.any fun c => !(s.data.lookup (keyOf agent stream)).any fun prev => rewinds prev c

def payload (order : List (Sigma fun _ : String => PersistedCursor)) : List DiskEntry :=
  order.map fun e => ⟨agentOf e.1, e.2⟩

/-- `flushLockedBare` without an I/O failure; with one it changes nothing. -/
def flush (s : CursorStore) (file : CursorFile)
    (order : List (Sigma fun _ : String => PersistedCursor)) : CursorStore × CursorFile :=
  if s.dirty then ({ s with dirty := false }, some (payload order)) else (s, file)

end CursorStore

/-! ## Keys -/

theorem agentOf_keyOf {agent : String} (stream : String) (h : '\x00' ∉ agent.toList) :
    agentOf (keyOf agent stream) = agent := by
  have hagent : ∀ c ∈ agent.toList, decide (c ≠ '\x00') = true := by
    intro c hmem
    have hne : c ≠ '\x00' := fun heq => h (heq ▸ hmem)
    simpa using hne
  simp only [agentOf, keyOf, String.toList_append, List.append_assoc]
  rw [List.takeWhile_append_of_pos hagent]
  simp

theorem keyOf_inj {agent stream agent' stream' : String} (h : '\x00' ∉ agent.toList)
    (h' : '\x00' ∉ agent'.toList) (hkey : keyOf agent stream = keyOf agent' stream') :
    agent = agent' ∧ stream = stream' := by
  have hagent : agent = agent' := by
    rw [← agentOf_keyOf stream h, hkey, agentOf_keyOf stream' h']
  subst hagent
  have hlists := congrArg String.toList hkey
  simp only [keyOf, String.toList_append, List.append_cancel_left_eq] at hlists
  exact ⟨rfl, String.toList_inj.mp hlists⟩

namespace CursorStore

theorem load_save (s : CursorStore) {agent agent' : String} (stream stream' : String) (c : Cursor)
    (h : '\x00' ∉ agent.toList) (h' : '\x00' ∉ agent'.toList) :
    (s.save agent stream (some c)).load agent' stream' =
      if agent' = agent ∧ stream' = stream then
        some (match s.load agent stream with
          | some prev => if c.seq < prev.seq ∧ c.nodeId = prev.nodeId then prev else c
          | none => c)
      else s.load agent' stream' := by
  by_cases hpair : agent' = agent ∧ stream' = stream
  · obtain ⟨rfl, rfl⟩ := hpair
    simp only [save, load, and_self, if_true]
    cases hprev : s.data.lookup (keyOf agent' stream') with
    | none => simp
    | some prev =>
        by_cases hrewinds : c.seq < prev.seq ∧ c.nodeId = prev.nodeId
        · simp [rewinds, hrewinds, hprev]
        · have hfalse : rewinds prev c = false := by
            simpa [rewinds] using hrewinds
          simp [hfalse, hrewinds]
  · have hkey : keyOf agent' stream' ≠ keyOf agent stream := by
      intro heq
      exact hpair (keyOf_inj h' h heq)
    simp only [save, load, hpair, if_false]
    split
    · rfl
    · rw [AList.lookup_insert_ne hkey]

/-! ## Reopening the file -/

def WellKeyed (data : GoMap String PersistedCursor) : Prop :=
  ∀ key c, data.lookup key = some c →
    ∃ agent stream, '\x00' ∉ agent.toList ∧ key = keyOf agent stream

/-- Every cursor of the map carries the stream that it is stored for. -/
def CarriesStream (s : CursorStore) : Prop :=
  ∀ agent stream c, '\x00' ∉ agent.toList → s.load agent stream = some c → c.stream = stream

theorem lookup_loadFromDisk (entries : List DiskEntry) (key : String) :
    (loadFromDisk entries).lookup key =
      (entries.reverse.find? fun e => keyOf e.agent e.cursor.stream = key).map
        DiskEntry.cursor := by
  rw [loadFromDisk, GoMap.lookup_foldl_insert (fun e : DiskEntry => keyOf e.agent e.cursor.stream)]
  simp

theorem of_lookup_loadFromDisk {entries : List DiskEntry} {key : String} {c : PersistedCursor}
    (h : (loadFromDisk entries).lookup key = some c) :
    ∃ e ∈ entries, keyOf e.agent c.stream = key ∧ e.cursor = c := by
  rw [lookup_loadFromDisk, Option.map_eq_some_iff] at h
  obtain ⟨e, hfound, rfl⟩ := h
  have hkey := List.find?_some hfound
  rw [decide_eq_true_eq] at hkey
  exact ⟨e, List.mem_reverse.mp (List.mem_of_find?_eq_some hfound), hkey, rfl⟩

theorem carriesStream_newFile {file : CursorFile}
    (hfile : ∀ e ∈ file.getD [], '\x00' ∉ e.agent.toList) : (newFile file).CarriesStream := by
  intro agent stream c hagent hload
  obtain ⟨p, hlookup, rfl⟩ := Option.map_eq_some_iff.mp hload
  obtain ⟨e, hmem, hkey, rfl⟩ := of_lookup_loadFromDisk hlookup
  exact (keyOf_inj (hfile e hmem) hagent hkey).2

private theorem not_mem_agentOf (key : String) : '\x00' ∉ (agentOf key).toList := by
  intro hmem
  rw [agentOf, String.toList_ofList] at hmem
  have hne := List.mem_takeWhile_imp hmem
  simp at hne

private theorem lookup_loadFromDisk_payload {s : CursorStore} (hkeyed : WellKeyed s.data)
    (hcarries : s.CarriesStream) {order : List (Sigma fun _ : String => PersistedCursor)}
    (horder : order.Perm s.data.entries) (key : String) :
    (loadFromDisk (payload order)).lookup key = s.data.lookup key := by
  have hsame : ∀ e ∈ order, keyOf (agentOf e.1) e.2.stream = e.1 := by
    intro e hmem
    have hlookup := GoMap.mem_entries_iff.mp (horder.mem_iff.mp hmem)
    obtain ⟨agent, stream, hagent, hkey⟩ := hkeyed e.1 e.2 hlookup
    have hstream : e.2.stream = stream := by
      rw [hkey] at hlookup
      exact hcarries agent stream _ hagent (by rw [load, hlookup]; rfl)
    rw [hkey, agentOf_keyOf stream hagent, hstream]
  rw [lookup_loadFromDisk, ← GoMap.find?_reverse_of_perm horder, payload, ← List.map_reverse,
    List.find?_map, Option.map_map]
  congr 1
  apply List.find?_congr
  intro e hmem
  simp only [Function.comp_apply, hsame e (List.mem_reverse.mp hmem)]

structure SaveCall where
  agent : String
  stream : String
  cursor : Option Cursor

def saveAll (s : CursorStore) (calls : List SaveCall) : CursorStore :=
  calls.foldl (fun s call => s.save call.agent call.stream call.cursor) s

theorem save_cases (s : CursorStore) (agent stream : String) (cursor : Option Cursor) :
    s.save agent stream cursor = s ∨ ∃ c, s.save agent stream cursor =
      ⟨s.data.insert (keyOf agent stream) c, true⟩ := by
  unfold save
  split
  · exact Or.inl rfl
  · split
    · exact Or.inl rfl
    · exact Or.inr ⟨_, rfl⟩

private theorem wellKeyed_newFile {file : CursorFile}
    (hfile : ∀ e ∈ file.getD [], '\x00' ∉ e.agent.toList) : WellKeyed (newFile file).data := by
  intro key c hlookup
  obtain ⟨e, hmem, hkey, -⟩ := of_lookup_loadFromDisk hlookup
  exact ⟨e.agent, c.stream, hfile e hmem, hkey.symm⟩

private theorem wellKeyed_save {s : CursorStore} {agent : String} (h : WellKeyed s.data)
    (hagent : '\x00' ∉ agent.toList) (stream : String) (cursor : Option Cursor) :
    WellKeyed (s.save agent stream cursor).data := by
  rcases s.save_cases agent stream cursor with hsame | ⟨c, hinsert⟩
  · rw [hsame]
    exact h
  · rw [hinsert]
    intro key c' hlookup
    by_cases hkey : key = keyOf agent stream
    · exact ⟨agent, stream, hagent, hkey⟩
    · rw [AList.lookup_insert_ne hkey] at hlookup
      exact h key c' hlookup

private theorem wellKeyed_saveAll {s : CursorStore} {calls : List SaveCall} (h : WellKeyed s.data)
    (hcalls : ∀ call ∈ calls, '\x00' ∉ call.agent.toList) : WellKeyed (s.saveAll calls).data := by
  induction calls generalizing s with
  | nil => exact h
  | cons call calls ih =>
      rw [List.forall_mem_cons] at hcalls
      exact ih (wellKeyed_save h hcalls.1 _ _) hcalls.2

private theorem carriesStream_save {s : CursorStore} {agent stream : String}
    {cursor : Option Cursor}
    (h : s.CarriesStream) (hagent : '\x00' ∉ agent.toList)
    (hstream : ∀ c ∈ cursor, c.stream = stream) : (s.save agent stream cursor).CarriesStream := by
  cases cursor with
  | none => exact h
  | some c =>
      intro agent' stream' c' hagent' hload
      rw [load_save s stream stream' c hagent hagent'] at hload
      split at hload
      · rename_i hpair
        rw [hpair.2]
        cases hprev : s.load agent stream with
        | none =>
            simp only [hprev, Option.some.injEq] at hload
            exact hload ▸ hstream c rfl
        | some prev =>
            simp only [hprev, Option.some.injEq] at hload
            split at hload
            · exact hload ▸ h agent stream prev hagent hprev
            · exact hload ▸ hstream c rfl
      · exact h agent' stream' c' hagent' hload

private theorem carriesStream_saveAll {s : CursorStore} {calls : List SaveCall}
    (h : s.CarriesStream)
    (hcalls : ∀ call ∈ calls, '\x00' ∉ call.agent.toList)
    (hstreams : ∀ call ∈ calls, ∀ c ∈ call.cursor, c.stream = call.stream) :
    (s.saveAll calls).CarriesStream := by
  induction calls generalizing s with
  | nil => exact h
  | cons call calls ih =>
      rw [List.forall_mem_cons] at hcalls hstreams
      exact ih (carriesStream_save h hcalls.1 hstreams.1) hcalls.2 hstreams.2

private theorem saveAll_eq_of_clean {s : CursorStore} {calls : List SaveCall}
    (hclean : (s.saveAll calls).dirty = false) : s.saveAll calls = s := by
  induction calls using List.reverseRecOn with
  | nil => rfl
  | append_singleton calls call ih =>
      rw [saveAll, List.foldl_append, List.foldl_cons, List.foldl_nil, ← saveAll] at hclean ⊢
      rcases (s.saveAll calls).save_cases call.agent call.stream call.cursor with
        hsame | ⟨c, hinsert⟩
      · rw [hsame] at hclean ⊢
        exact ih hclean
      · rw [hinsert] at hclean
        cases hclean

theorem reopened_loads_iff (file : CursorFile)
    (hfile : ∀ e ∈ file.getD [], '\x00' ∉ e.agent.toList) (calls : List SaveCall)
    (hcalls : ∀ call ∈ calls, '\x00' ∉ call.agent.toList)
    (order : List (Sigma fun _ : String => PersistedCursor))
    (horder : order.Perm ((newFile file).saveAll calls).data.entries) :
    (∀ agent stream, '\x00' ∉ agent.toList →
        (newFile (((newFile file).saveAll calls).flush file order).2).load agent stream =
          ((newFile file).saveAll calls).load agent stream) ↔
      ((newFile file).saveAll calls).CarriesStream := by
  have hkeyed := wellKeyed_saveAll (wellKeyed_newFile hfile) hcalls
  cases hdirty : ((newFile file).saveAll calls).dirty with
  | false =>
      rw [saveAll_eq_of_clean hdirty]
      exact iff_of_true (fun _ _ _ => rfl) (carriesStream_newFile hfile)
  | true =>
      have hflushed : (((newFile file).saveAll calls).flush file order).2 =
          some (payload order) := by
        simp [flush, hdirty]
      rw [hflushed]
      constructor
      · intro hloads agent stream c hagent hload
        rw [← hloads agent stream hagent] at hload
        refine carriesStream_newFile ?_ agent stream c hagent hload
        intro e hmem
        obtain ⟨entry, -, rfl⟩ := List.mem_map.mp hmem
        exact not_mem_agentOf entry.1
      · intro hcarries agent stream _
        have hlookup := lookup_loadFromDisk_payload hkeyed hcarries horder (keyOf agent stream)
        simp only [load, newFile, Option.getD_some, hlookup]

def unnamedStream : List SaveCall := [⟨"agent-a", "intent", some ⟨"node-a", "", 5⟩⟩]

def sharedStream : List SaveCall :=
  [⟨"agent-a", "intent", some ⟨"node-a", "all", 5⟩⟩,
    ⟨"agent-a", "deviation", some ⟨"node-a", "all", 9⟩⟩]

def reloaded (calls : List SaveCall) (agent stream : String) : Option Cursor × Option Cursor :=
  let s := (newFile none).saveAll calls
  (s.load agent stream, (newFile (s.flush none s.data.entries).2).load agent stream)

theorem reopened_loads_lost :
    reloaded unnamedStream "agent-a" "intent" = (some ⟨"node-a", "", 5⟩, none) ∧
      (reloaded sharedStream "agent-a" "intent" = (some ⟨"node-a", "all", 5⟩, none) ∧
        (reloaded sharedStream "agent-a" "deviation").2 = none) := by
  decide +kernel

def ownStreams : List SaveCall :=
  [⟨"agent-a", "intent", some ⟨"node-a", "intent", 42⟩⟩,
    ⟨"agent-a", "deviation", some ⟨"node-a", "deviation", 7⟩⟩]

theorem reopened_loads_ownStreams :
    (reloaded ownStreams "agent-a" "intent").1 = some ⟨"node-a", "intent", 42⟩ ∧
      ∀ agent stream, '\x00' ∉ agent.toList →
        (reloaded ownStreams agent stream).2 = (reloaded ownStreams agent stream).1 := by
  refine ⟨by decide +kernel, ?_⟩
  have hcalls : ∀ call ∈ ownStreams, '\x00' ∉ call.agent.toList := by decide +kernel
  have hstreams : ∀ call ∈ ownStreams, ∀ c ∈ call.cursor, c.stream = call.stream := by
    decide +kernel
  have hempty : ∀ e ∈ (none : CursorFile).getD [], '\x00' ∉ e.agent.toList :=
    fun e he => absurd he List.not_mem_nil
  exact (reopened_loads_iff none hempty ownStreams hcalls _ (List.Perm.refl _)).mpr
    (carriesStream_saveAll (carriesStream_newFile hempty) hcalls hstreams)

end CursorStore

end KloudlensAggregator.Aggregator
