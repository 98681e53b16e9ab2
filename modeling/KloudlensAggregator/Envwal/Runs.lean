import KloudlensAggregator.Envwal.Layout

/-!
# Runs without I/O failure

What one step of a run can do when nothing fails, and what every such run
keeps: the directory holds a dense log of entries that were appended.
-/

namespace KloudlensAggregator.Envwal

open KloudlensAggregator.Foundation
open KloudlensAggregator.Foundation.Json

variable {E : Type} {pj : ProtoJson E} {world next : World E} {log : List (Entry E)}

/-- The steps of a run in which no I/O fails. -/
inductive SafeStep (pj : ProtoJson E) (world : World E) : Event E → World E → Prop
  | openLog {opts : Options} {now : Int} {w : Wal} {dir : Directory}
      (hopen : openWal opts world.dir now = .ok (w, dir)) :
      SafeStep pj world (.openLog opts now) { world with dir := dir, wal := some w, now := now }
  | append {w : Wal} {agent : String} {env : E} {text : Bytes} {clock : AppendClock}
      (hwal : world.wal = some w) (hopen : w.curOpen = true)
      (htext : pj.marshal env = some text) :
      SafeStep pj world (.append agent (some env) clock .none)
        (world.append pj w agent (some env) clock .none)
  /-- A nil envelope, or one without a text, is refused before a seq is taken. -/
  | refused {w : Wal} {agent : String} {env : Option E} {clock : AppendClock}
      (hwal : world.wal = some w) (hopen : w.curOpen = true)
      (henv : env.bind pj.marshal = none) :
      SafeStep pj world (.append agent env clock .none) { world with now := clock.opened }
  | gc {w : Wal} {now : Int} (hwal : world.wal = some w) :
      SafeStep pj world (.gc now) (world.gc w now)
  | close {w : Wal} (hwal : world.wal = some w) :
      SafeStep pj world .close { world with wal := some w.close }

theorem append_of_refused {env : Option E} (henv : env.bind pj.marshal = none) (w : Wal)
    (dir : Directory) (agent : String) (clock : AppendClock) (faults : AppendFaults) :
    ∃ err, w.append pj dir agent env clock faults = (.error err, w, dir) := by
  cases env with
  | none => exact ⟨.nilEnvelope, rfl⟩
  | some env =>
      have htext : pj.marshal env = none := henv
      exact ⟨.marshalEnvelope, by simp [Wal.append, htext]⟩

theorem World.append_refused {w : Wal} (hwal : world.wal = some w) (agent : String)
    {env : Option E} (henv : env.bind pj.marshal = none) (clock : AppendClock)
    (faults : AppendFaults) :
    world.append pj w agent env clock faults = { world with now := clock.opened } := by
  obtain ⟨err, hresult⟩ := append_of_refused henv w world.dir agent clock faults
  simp [World.append, hresult, returnedEntry, ← hwal]

theorem safeStep_of_step {ev : Event E} (hguard : world.noFailure ev = true)
    (h : world.step pj ev = some next) : SafeStep pj world ev next := by
  cases ev with
  | openLog opts now =>
      simp only [World.step, World.openLog] at h
      split at h
      · cases h
      · rename_i w dir hopen
        cases h
        exact .openLog hopen
  | append agent env clock faults =>
      simp only [World.noFailure, World.isOpen, Bool.and_eq_true, beq_iff_eq] at hguard
      obtain ⟨rfl, hopen⟩ := hguard
      obtain ⟨w, hwal, rfl⟩ := Option.map_eq_some_iff.mp h
      have hcurOpen : w.curOpen = true := by simpa [hwal] using hopen
      cases henv : env.bind pj.marshal with
      | none =>
          rw [World.append_refused hwal agent henv]
          exact .refused hwal hcurOpen henv
      | some text =>
          obtain ⟨env, rfl, htext⟩ := Option.bind_eq_some_iff.mp henv
          exact .append hwal hcurOpen htext
  | gc now =>
      obtain ⟨w, hwal, rfl⟩ := Option.map_eq_some_iff.mp h
      exact .gc hwal
  | close =>
      obtain ⟨w, hwal, rfl⟩ := Option.map_eq_some_iff.mp h
      exact .close hwal
  | crash agent env clock written => cases hguard

theorem World.append_appended {w : Wal} (hopen : w.curOpen = true) (agent : String)
    {env : E} {text : Bytes} (htext : pj.marshal env = some text) (clock : AppendClock) :
    (world.append pj w agent (some env) clock .none).appended =
      world.appended ++ [⟨w.seq + 1, agent, env, clock.ts⟩] := by
  rw [World.append, append_eq world.dir hopen agent htext clock]
  rfl

/-! ## The log of the directory -/

structure World.Keeps (pj : ProtoJson E) (world : World E) (log : List (Entry E)) : Prop where
  dense : Dense pj log
  holds : ∃ segs, Holds pj world.dir segs log
  layout : ∀ w, world.wal = some w → Layout pj world.dir w log

namespace World.Keeps

theorem empty (now : Int) : (World.empty now : World E).Keeps pj [] :=
  ⟨.nil, ⟨[], .empty⟩, by simp [World.empty]⟩

theorem of_layout {w : Wal} (hwal : world.wal = some w) (h : Layout pj world.dir w log) :
    world.Keeps pj log := by
  refine ⟨h.dense, ⟨w.segments, h.holds⟩, ?_⟩
  intro w' hw'
  rw [hwal] at hw'
  cases hw'
  exact h

theorem openLog (h : world.Keeps pj log) {opts : Options} {now : Int} {w : Wal}
    {dir : Directory} (hopen : openWal opts world.dir now = .ok (w, dir)) :
    { world with dir := dir, wal := some w, now := now }.Keeps pj (log.take w.seq) := by
  obtain ⟨segs, hholds⟩ := h.holds
  exact of_layout rfl (openWal_layout hopen hholds h.dense).1

theorem append (h : world.Keeps pj log) {w : Wal} (hwal : world.wal = some w)
    (hopen : w.curOpen = true) (agent : String) {env : E} {text : Bytes}
    (htext : pj.marshal env = some text) (clock : AppendClock) :
    (world.append pj w agent (some env) clock .none).Keeps pj
      (log ++ [⟨w.seq + 1, agent, env, clock.ts⟩]) :=
  of_layout rfl ((h.layout w hwal).append hopen agent htext clock)

theorem gc (h : world.Keeps pj log) {w : Wal} (hwal : world.wal = some w) (now : Int) :
    (world.gc w now).Keeps pj log :=
  of_layout rfl ((h.layout w hwal).gc now)

theorem close (h : world.Keeps pj log) {w : Wal} (hwal : world.wal = some w) :
    { world with wal := some w.close }.Keeps pj log := by
  have hlayout := h.layout w hwal
  exact of_layout rfl ⟨hlayout.dense, hlayout.holds, hlayout.older_nonempty,
    hlayout.cur_end, hlayout.seq_eq⟩

theorem tick (h : world.Keeps pj log) (now : Int) : { world with now := now }.Keeps pj log :=
  ⟨h.dense, h.holds, h.layout⟩

end World.Keeps

end KloudlensAggregator.Envwal
