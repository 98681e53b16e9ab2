import Mathlib.Data.List.Chain
import Mathlib.Data.List.Induction
import KloudlensAggregator.Foundation.GoMap
import KloudlensAggregator.Foundation.Run

/-!
# The endpoint runs

`Run` starts a run for each static agent and reconciles the runs with every fleet
that discovery emits.  The map of active runs is keyed by the name of an endpoint:
a static name that repeats leaves a run behind, and an address that changes under
its name goes unnoticed.
-/

namespace KloudlensAggregator.Aggregator

open KloudlensAggregator.Foundation

structure AgentEndpoint where
  name : String
  addr : String
  deriving DecidableEq, Repr

structure EndpointRun where
  name : String
  addr : String
  cancelled : Bool
  deriving DecidableEq, Repr

/-- All runs ever started, the map of the active ones by their position, and the fleet
that was seeded or emitted last. -/
structure Fleet where
  active : GoMap String Nat
  runs : List EndpointRun
  current : List AgentEndpoint

/-- The map `want` of an emission, in which the last endpoint with a name wins. -/
def wantOf (eps : List AgentEndpoint) : GoMap String AgentEndpoint :=
  eps.foldl (fun want ep => want.insert ep.name ep) ∅

def addrOf (eps : List AgentEndpoint) (name : String) : Option String :=
  (eps.reverse.find? fun ep => ep.name = name).map AgentEndpoint.addr

/-- An emission, with the orders in which the loops range over their maps. -/
structure FleetEmission where
  eps : List AgentEndpoint
  activeOrder : List (Sigma fun _ : String => Nat)
  wantOrder : List (Sigma fun _ : String => AgentEndpoint)

namespace Fleet

def startEndpoint (f : Fleet) (ep : AgentEndpoint) : Fleet :=
  { f with
    active := f.active.insert ep.name f.runs.length
    runs := f.runs ++ [⟨ep.name, ep.addr, false⟩] }

def seed (agents : List AgentEndpoint) : Fleet :=
  { agents.foldl startEndpoint ⟨∅, [], []⟩ with current := agents }

def cancelRun (f : Fleet) (i : Nat) : Fleet :=
  { f with runs := f.runs.modify i fun run => { run with cancelled := true } }

def depart (want : GoMap String AgentEndpoint) (f : Fleet) (e : Sigma fun _ : String => Nat) :
    Fleet :=
  if (want.lookup e.1).isSome then f
  else { f.cancelRun e.2 with active := f.active.erase e.1 }

def startNew (f : Fleet) (e : Sigma fun _ : String => AgentEndpoint) : Fleet :=
  if (f.active.lookup e.1).isSome then f else f.startEndpoint e.2

def reconcileFleet (f : Fleet) (e : FleetEmission) : Option Fleet :=
  if e.activeOrder.Perm f.active.entries ∧ e.wantOrder.Perm (wantOf e.eps).entries then
    let departed := e.activeOrder.foldl (depart (wantOf e.eps)) f
    some { e.wantOrder.foldl startNew departed with current := e.eps }
  else none

def subscribed (f : Fleet) (name : String) : List String :=
  (f.runs.filter fun run => run.name = name ∧ run.cancelled = false).map EndpointRun.addr

/-- For each endpoint of the fleet one run, at its address, and none for other names. -/
def Matches (f : Fleet) : Prop := ∀ name, f.subscribed name = (addrOf f.current name).toList

/-- A run whose name and address the new fleet has goes on, and is not started again. -/
def Undisturbed (f g : Fleet) : Prop :=
  ∀ (i : Nat) (run : EndpointRun), f.runs[i]? = some run → run.cancelled = false →
    addrOf g.current run.name = some run.addr →
    g.runs[i]? = some run ∧ ∀ (j : Nat) (later : EndpointRun), f.runs.length ≤ j →
      g.runs[j]? = some later → later.name ≠ run.name

def Agree (eps eps' : List AgentEndpoint) : Prop :=
  ∀ name addr addr', addrOf eps name = some addr → addrOf eps' name = some addr' → addr = addr'

end Fleet

private theorem addrOf_append (eps : List AgentEndpoint) (ep : AgentEndpoint) (name : String) :
    addrOf (eps ++ [ep]) name = if ep.name = name then some ep.addr else addrOf eps name := by
  simp only [addrOf, List.reverse_append, List.reverse_singleton, List.singleton_append,
    List.find?_cons]
  by_cases hname : ep.name = name <;> simp [hname]

theorem lookup_wantOf (eps : List AgentEndpoint) (name : String) :
    (wantOf eps).lookup name = eps.reverse.find? fun ep => ep.name = name := by
  rw [wantOf, GoMap.lookup_foldl_insert AgentEndpoint.name (fun ep => ep) eps ∅ name]
  simp

theorem map_lookup_wantOf (eps : List AgentEndpoint) (name : String) :
    ((wantOf eps).lookup name).map AgentEndpoint.addr = addrOf eps name := by
  rw [lookup_wantOf, addrOf]

private theorem name_of_lookup_wantOf {eps : List AgentEndpoint} {name : String}
    {ep : AgentEndpoint}
    (h : (wantOf eps).lookup name = some ep) : ep.name = name := by
  rw [lookup_wantOf] at h
  have hfound := List.find?_some h
  rwa [decide_eq_true_eq] at hfound

namespace Fleet

variable {f g : Fleet} {name : String}

/-! ## The map and the runs -/

/-- The map of active runs holds the runs that are not cancelled. -/
structure Tracked (f : Fleet) : Prop where
  active : ∀ name i, f.active.lookup name = some i →
    ∃ run, f.runs[i]? = some run ∧ run.name = name ∧ run.cancelled = false
  live : ∀ (i : Nat) (run : EndpointRun), f.runs[i]? = some run → run.cancelled = false →
    f.active.lookup run.name = some i

def addrAt (f : Fleet) (name : String) : Option String :=
  (f.active.lookup name).bind fun i => f.runs[i]?.map EndpointRun.addr

theorem Tracked.addrAt_eq_none (h : f.Tracked) :
    f.addrAt name = none ↔ f.active.lookup name = none := by
  unfold addrAt
  cases hlookup : f.active.lookup name with
  | none => simp
  | some i =>
      obtain ⟨run, hrun, -⟩ := h.active name i hlookup
      simp [hrun]

private theorem filter_eq_singleton {α : Type*} {p : α → Bool} {items : List α} {i : Nat} {a : α}
    (ha : items[i]? = some a) (hp : p a = true)
    (honly : ∀ j b, items[j]? = some b → p b = true → j = i) : items.filter p = [a] := by
  obtain ⟨hi, heq⟩ := List.getElem?_eq_some_iff.mp ha
  have hsplit : items = items.take i ++ a :: items.drop (i + 1) := by
    rw [← heq, ← List.drop_eq_getElem_cons hi, List.take_append_drop]
  have hbefore : (items.take i).filter p = [] := by
    rw [List.filter_eq_nil_iff]
    intro b hb hpb
    obtain ⟨j, hj⟩ := List.getElem?_of_mem hb
    rw [List.getElem?_take] at hj
    split at hj
    · rename_i hlt
      exact absurd (honly j b hj hpb) (Nat.ne_of_lt hlt)
    · cases hj
  have hafter : (items.drop (i + 1)).filter p = [] := by
    rw [List.filter_eq_nil_iff]
    intro b hb hpb
    obtain ⟨j, hj⟩ := List.getElem?_of_mem hb
    rw [List.getElem?_drop] at hj
    have hindex := honly _ b hj hpb
    omega
  rw [hsplit, List.filter_append, List.filter_cons, hbefore, hafter, if_pos hp]
  rfl

theorem Tracked.subscribed_eq (h : f.Tracked) (name : String) :
    f.subscribed name = (f.addrAt name).toList := by
  unfold subscribed
  cases hlookup : f.active.lookup name with
  | none =>
      rw [h.addrAt_eq_none.mpr hlookup, List.filter_eq_nil_iff.mpr]
      · rfl
      · intro run hmem hlive
        rw [decide_eq_true_eq] at hlive
        obtain ⟨i, hi⟩ := List.getElem?_of_mem hmem
        have hactive := h.live i run hi hlive.2
        rw [hlive.1, hlookup] at hactive
        cases hactive
  | some i =>
      obtain ⟨run, hrun, hname, hlive⟩ := h.active name i hlookup
      rw [filter_eq_singleton hrun (by simp [hname, hlive])]
      · simp [addrAt, hlookup, hrun]
      · intro j later hj hlater
        rw [decide_eq_true_eq] at hlater
        have hactive := h.live j later hj hlater.2
        rw [hlater.1, hlookup, Option.some.injEq] at hactive
        exact hactive.symm

theorem Tracked.matches_iff (h : f.Tracked) :
    f.Matches ↔ ∀ name, f.addrAt name = addrOf f.current name := by
  apply forall_congr'
  intro name
  rw [h.subscribed_eq]
  constructor
  · intro heq
    have hhead := congrArg List.head? heq
    simpa using hhead
  · intro heq
    rw [heq]

/-! ## Starting an endpoint -/

theorem runs_startEndpoint {ep : AgentEndpoint} {i : Nat} {run : EndpointRun}
    (h : (f.startEndpoint ep).runs[i]? = some run) :
    f.runs[i]? = some run ∨ (i = f.runs.length ∧ run = ⟨ep.name, ep.addr, false⟩) := by
  rw [Fleet.startEndpoint, List.getElem?_append] at h
  split at h
  · exact Or.inl h
  · obtain ⟨hlast, heq⟩ := List.getElem?_eq_some_iff.mp h
    simp only [List.length_cons, List.length_nil, Nat.zero_add, Nat.lt_one_iff] at hlast
    simp only [hlast, List.getElem_cons_zero] at heq
    exact Or.inr ⟨by omega, heq.symm⟩

theorem Tracked.startEndpoint (h : f.Tracked) {ep : AgentEndpoint}
    (hnew : f.active.lookup ep.name = none) : (f.startEndpoint ep).Tracked := by
  constructor
  · intro name i hlookup
    by_cases hname : name = ep.name
    · subst hname
      rw [Fleet.startEndpoint, AList.lookup_insert, Option.some.injEq] at hlookup
      subst hlookup
      exact ⟨⟨ep.name, ep.addr, false⟩, by simp [Fleet.startEndpoint], rfl, rfl⟩
    · rw [Fleet.startEndpoint, AList.lookup_insert_ne hname] at hlookup
      obtain ⟨run, hrun, hsame⟩ := h.active name i hlookup
      obtain ⟨hi, -⟩ := List.getElem?_eq_some_iff.mp hrun
      exact ⟨run, by rw [Fleet.startEndpoint, List.getElem?_append_left hi, hrun], hsame⟩
  · intro i run hrun hlive
    rcases runs_startEndpoint hrun with hold | ⟨rfl, rfl⟩
    · have hactive := h.live i run hold hlive
      have hne : run.name ≠ ep.name := by
        intro hname
        rw [hname, hnew] at hactive
        cases hactive
      rw [Fleet.startEndpoint, AList.lookup_insert_ne hne, hactive]
    · rw [Fleet.startEndpoint, AList.lookup_insert]

theorem Tracked.addrAt_startEndpoint (h : f.Tracked) (ep : AgentEndpoint) (name : String) :
    (f.startEndpoint ep).addrAt name = if ep.name = name then some ep.addr else f.addrAt name := by
  unfold addrAt Fleet.startEndpoint
  by_cases hname : ep.name = name
  · subst hname
    simp
  · rw [AList.lookup_insert_ne (Ne.symm hname), if_neg hname]
    cases hlookup : f.active.lookup name with
    | none => rfl
    | some i =>
        obtain ⟨run, hrun, -⟩ := h.active name i hlookup
        obtain ⟨hi, -⟩ := List.getElem?_eq_some_iff.mp hrun
        simp only [Option.bind_some]
        rw [List.getElem?_append_left hi]

/-! ## Seeding -/

private theorem runs_foldl_startEndpoint (agents : List AgentEndpoint) (f : Fleet) :
    (agents.foldl Fleet.startEndpoint f).runs =
      f.runs ++ agents.map fun ep => ⟨ep.name, ep.addr, false⟩ := by
  induction agents generalizing f with
  | nil => simp
  | cons ep agents ih =>
      rw [List.foldl_cons, ih]
      simp [Fleet.startEndpoint]

private theorem nodup_of_matches_seed {agents : List AgentEndpoint} (h : (seed agents).Matches) :
    (agents.map AgentEndpoint.name).Nodup := by
  rw [List.nodup_iff_count_le_one]
  intro name
  have hlength := congrArg List.length (h name)
  have hsubscribed : (seed agents).subscribed name =
      (agents.filter fun ep => ep.name = name).map AgentEndpoint.addr := by
    simp only [subscribed, seed, runs_foldl_startEndpoint, List.nil_append, List.filter_map,
      List.map_map, Function.comp_def, and_true]
  rw [hsubscribed, List.length_map, Option.length_toList] at hlength
  rw [List.count_eq_countP, List.countP_map, List.countP_eq_length_filter]
  simp only [Function.comp_def, beq_eq_decide]
  split at hlength <;> omega

theorem tracked_seed {agents : List AgentEndpoint} (h : (agents.map AgentEndpoint.name).Nodup) :
    (seed agents).Tracked ∧ ∀ name, (seed agents).addrAt name = addrOf agents name := by
  suffices hfold : (agents.foldl Fleet.startEndpoint ⟨∅, [], []⟩).Tracked ∧ ∀ name,
      (agents.foldl Fleet.startEndpoint ⟨∅, [], []⟩).addrAt name = addrOf agents name from
    ⟨⟨hfold.1.active, hfold.1.live⟩, hfold.2⟩
  induction agents using List.reverseRecOn with
  | nil =>
      refine ⟨⟨?_, ?_⟩, fun name => rfl⟩
      · intro name i hlookup
        cases hlookup
      · intro i run hrun
        cases hrun
  | append_singleton agents ep ih =>
      rw [List.map_append, List.nodup_append] at h
      obtain ⟨htracked, haddr⟩ := ih h.1
      have hnone : addrOf agents ep.name = none := by
        rw [addrOf, Option.map_eq_none_iff, List.find?_eq_none]
        intro ep' hmem
        rw [decide_eq_true_eq]
        exact h.2.2 ep'.name (List.mem_map_of_mem (List.mem_reverse.mp hmem)) ep.name (by simp)
      have hnew := htracked.addrAt_eq_none.mp ((haddr ep.name).trans hnone)
      rw [List.foldl_append, List.foldl_cons, List.foldl_nil]
      refine ⟨htracked.startEndpoint hnew, ?_⟩
      intro name
      rw [htracked.addrAt_startEndpoint, addrOf_append, haddr]

/-! ## Cancelling departed endpoints -/

section Departures

variable {want : GoMap String AgentEndpoint} {e : Sigma fun _ : String => Nat}

theorem runs_cancelRun_ne {i j : Nat} (h : i ≠ j) : (f.cancelRun i).runs[j]? = f.runs[j]? := by
  simp [cancelRun, h]

private theorem runs_cancelRun_self {i : Nat} {run : EndpointRun}
    (h : (f.cancelRun i).runs[i]? = some run) : run.cancelled = true := by
  simp only [cancelRun, List.getElem?_modify_eq, Option.map_eq_map,
    Option.map_eq_some_iff] at h
  obtain ⟨old, -, rfl⟩ := h
  rfl

theorem Tracked.index_ne (h : f.Tracked) {other : String} {i j : Nat} (hne : name ≠ other)
    (hname : f.active.lookup name = some i) (hother : f.active.lookup other = some j) :
    i ≠ j := by
  rintro rfl
  obtain ⟨run, hrun, hrunName, -⟩ := h.active name i hname
  obtain ⟨run', hrun', hrunName', -⟩ := h.active other i hother
  rw [hrun, Option.some.injEq] at hrun'
  exact hne (by rw [← hrunName, hrun', hrunName'])

theorem Tracked.cancelRun (h : f.Tracked) {i : Nat} (hlookup : f.active.lookup name = some i) :
    Tracked { f.cancelRun i with active := f.active.erase name } := by
  constructor
  · intro other j hother
    by_cases hname : other = name
    · subst hname
      simp at hother
    · rw [AList.lookup_erase_ne hname] at hother
      obtain ⟨run, hrun, hsame⟩ := h.active other j hother
      have hne := h.index_ne (Ne.symm hname) hlookup hother
      exact ⟨run, (runs_cancelRun_ne hne).trans hrun, hsame⟩
  · intro j run hrun hlive
    have hne : i ≠ j := by
      rintro rfl
      have hcancelled := runs_cancelRun_self hrun
      rw [hlive] at hcancelled
      cases hcancelled
    have hactive := h.live j run ((runs_cancelRun_ne hne).symm.trans hrun) hlive
    have hname : run.name ≠ name := by
      intro hname
      rw [hname, hlookup, Option.some.injEq] at hactive
      exact hne hactive
    rw [AList.lookup_erase_ne hname, hactive]

theorem Tracked.addrAt_cancelRun_ne (h : f.Tracked) {i : Nat}
    (hlookup : f.active.lookup name = some i) {other : String} (hne : other ≠ name) :
    Fleet.addrAt { f.cancelRun i with active := f.active.erase name } other =
      f.addrAt other := by
  simp only [Fleet.addrAt]
  rw [AList.lookup_erase_ne hne]
  cases hother : f.active.lookup other with
  | none => rfl
  | some j =>
      simp only [Option.bind_some]
      exact congrArg _ (runs_cancelRun_ne (h.index_ne (Ne.symm hne) hlookup hother))

structure Departed (want : GoMap String AgentEndpoint) (f g : Fleet) (names : List String) :
    Prop where
  tracked : g.Tracked
  addrAt : ∀ name, g.addrAt name =
    if name ∈ names ∧ want.lookup name = none then none else f.addrAt name
  length : g.runs.length = f.runs.length
  kept : ∀ (i : Nat) (run : EndpointRun), f.runs[i]? = some run →
    (want.lookup run.name).isSome = true → g.runs[i]? = some run

theorem Tracked.depart (h : f.Tracked) (he : f.active.lookup e.1 = some e.2) :
    Departed want f (f.depart want e) [e.1] := by
  unfold Fleet.depart
  by_cases hwant : (want.lookup e.1).isSome = true
  · rw [if_pos hwant]
    refine ⟨h, ?_, rfl, fun i run hrun _ => hrun⟩
    intro name
    rw [if_neg]
    rintro ⟨hname, hnone⟩
    rw [List.mem_singleton.mp hname] at hnone
    simp [hnone] at hwant
  · rw [if_neg hwant]
    refine ⟨h.cancelRun he, ?_, by simp [Fleet.cancelRun], ?_⟩
    · intro name
      by_cases hname : name = e.1
      · subst hname
        rw [Option.not_isSome_iff_eq_none] at hwant
        simp [Fleet.addrAt, hwant]
      · rw [if_neg (by simp [hname])]
        exact h.addrAt_cancelRun_ne he hname
    · intro i run hrun hwanted
      have hne : e.2 ≠ i := by
        rintro rfl
        obtain ⟨own, hown, hownName, -⟩ := h.active e.1 e.2 he
        rw [hown, Option.some.injEq] at hrun
        rw [← hrun, hownName] at hwanted
        exact hwant hwanted
      exact (runs_cancelRun_ne hne).trans hrun

private theorem depart_lookup_ne {other : String} (hne : other ≠ e.1) :
    (f.depart want e).active.lookup other = f.active.lookup other := by
  unfold Fleet.depart
  split
  · rfl
  · exact AList.lookup_erase_ne hne

theorem Tracked.foldl_depart {order : List (Sigma fun _ : String => Nat)} (h : f.Tracked)
    (hkeys : order.NodupKeys) (horder : ∀ e ∈ order, f.active.lookup e.1 = some e.2) :
    Departed want f (order.foldl (Fleet.depart want) f) order.keys := by
  induction order generalizing f with
  | nil => exact ⟨h, fun name => by simp, rfl, fun i run hrun _ => hrun⟩
  | cons e order ih =>
      rw [List.nodupKeys_cons] at hkeys
      have hone : Departed want f (f.depart want e) [e.1] := h.depart (horder e List.mem_cons_self)
      have hrest := ih hone.tracked hkeys.2 (by
        intro e' he'
        have hne : e'.1 ≠ e.1 := fun heq => hkeys.1 (heq ▸ List.mem_keys_of_mem he')
        rw [depart_lookup_ne hne]
        exact horder e' (List.mem_cons_of_mem _ he'))
      refine ⟨hrest.tracked, ?_, hrest.length.trans hone.length, ?_⟩
      · intro name
        rw [List.foldl_cons, hrest.addrAt, hone.addrAt, List.keys_cons]
        by_cases hnone : want.lookup name = none
        · by_cases hmem : name ∈ order.keys <;> simp [hnone, hmem]
        · simp [hnone]
      · intro i run hrun hwanted
        exact hrest.kept i run (hone.kept i run hrun hwanted) hwanted

theorem Departed.addrAt_of_perm {order : List (Sigma fun _ : String => Nat)}
    (hdeparted : Departed want f g order.keys) (h : f.Tracked)
    (horder : order.Perm f.active.entries) (name : String) :
    g.addrAt name = if want.lookup name = none then none else f.addrAt name := by
  -- The loop ranges over the whole map, so a name outside it has no run anyway.
  rw [hdeparted.addrAt]
  by_cases hmem : name ∈ order.keys
  · simp [hmem]
  · have habsent : f.addrAt name = none := by
      rw [h.addrAt_eq_none, AList.lookup_eq_none, AList.mem_keys]
      exact fun hkey => hmem ((horder.map Sigma.fst).mem_iff.mpr hkey)
    simp [hmem, habsent]

end Departures

/-! ## Starting new endpoints -/

structure Started (f g : Fleet) (order : List (Sigma fun _ : String => AgentEndpoint)) : Prop where
  tracked : g.Tracked
  addrAt : ∀ name, g.addrAt name =
    (f.addrAt name).or ((order.dlookup name).map AgentEndpoint.addr)
  kept : ∀ (i : Nat) (run : EndpointRun), f.runs[i]? = some run → g.runs[i]? = some run
  fresh : ∀ (j : Nat) (later : EndpointRun), f.runs.length ≤ j → g.runs[j]? = some later →
    f.addrAt later.name = none

private theorem dlookup_cons_self (e : Sigma fun _ : String => AgentEndpoint)
    (order : List (Sigma fun _ : String => AgentEndpoint)) :
    (e :: order).dlookup e.1 = some e.2 :=
  List.dlookup_cons_eq (β := fun _ : String => AgentEndpoint) order e.1 e.2

theorem Started.cons {k : Fleet} {e : Sigma fun _ : String => AgentEndpoint}
    {order : List (Sigma fun _ : String => AgentEndpoint)} (hone : Started f g [e])
    (hrest : Started g k order) : Started f k (e :: order) := by
  refine ⟨hrest.tracked, ?_, fun i run hrun => hrest.kept i run (hone.kept i run hrun), ?_⟩
  · intro name
    rw [hrest.addrAt, hone.addrAt, Option.or_assoc]
    by_cases heq : name = e.1
    · subst heq
      rw [dlookup_cons_self, dlookup_cons_self]
      rfl
    · rw [List.dlookup_cons_ne _ _ heq, List.dlookup_cons_ne _ _ heq]
      simp
  · intro j later hj hlater
    by_cases hlength : g.runs.length ≤ j
    · have hnone := hrest.fresh j later hlength hlater
      rw [hone.addrAt, Option.or_eq_none_iff] at hnone
      exact hnone.1
    · have hrun := List.getElem?_eq_getElem (not_le.mp hlength)
      have hsame := hrest.kept j _ hrun
      rw [hlater, Option.some.injEq] at hsame
      exact hone.fresh j later hj (hsame ▸ hrun)

theorem Tracked.startNew {e : Sigma fun _ : String => AgentEndpoint} (h : f.Tracked)
    (hname : e.2.name = e.1) : Started f (f.startNew e) [e] := by
  unfold Fleet.startNew
  cases hlookup : f.active.lookup e.1 with
  | some i =>
      have hsome : f.addrAt e.1 ≠ none := by
        rw [ne_eq, h.addrAt_eq_none, hlookup]
        exact Option.some_ne_none i
      rw [Option.isSome_some, if_pos rfl]
      refine ⟨h, ?_, fun i run hrun => hrun, ?_⟩
      · intro name
        by_cases heq : name = e.1
        · subst heq
          obtain ⟨addr, haddr⟩ := Option.ne_none_iff_exists'.mp hsome
          simp [haddr]
        · rw [List.dlookup_cons_ne _ _ heq]
          simp
      · intro j later hj hlater
        rw [List.getElem?_eq_none hj] at hlater
        cases hlater
  | none =>
      rw [Option.isSome_none, if_neg Bool.false_ne_true]
      have hnew : f.active.lookup e.2.name = none := by rw [hname, hlookup]
      have hnone : f.addrAt e.1 = none := h.addrAt_eq_none.mpr hlookup
      refine ⟨h.startEndpoint hnew, ?_, ?_, ?_⟩
      · intro name
        rw [h.addrAt_startEndpoint, hname]
        by_cases heq : e.1 = name
        · subst heq
          rw [if_pos rfl, hnone, dlookup_cons_self]
          rfl
        · rw [if_neg heq, List.dlookup_cons_ne _ _ (Ne.symm heq)]
          simp
      · intro i run hrun
        obtain ⟨hi, -⟩ := List.getElem?_eq_some_iff.mp hrun
        rw [Fleet.startEndpoint, List.getElem?_append_left hi, hrun]
      · intro j later hj hlater
        rcases runs_startEndpoint hlater with hold | ⟨-, rfl⟩
        · rw [List.getElem?_eq_none hj] at hold
          cases hold
        · rw [hname, hnone]

theorem Tracked.foldl_startNew {order : List (Sigma fun _ : String => AgentEndpoint)}
    (h : f.Tracked) (horder : ∀ e ∈ order, e.2.name = e.1) :
    Started f (order.foldl Fleet.startNew f) order := by
  induction order generalizing f with
  | nil =>
      refine ⟨h, fun name => by simp, fun i run hrun => hrun, ?_⟩
      intro j later hj hlater
      rw [List.foldl_nil, List.getElem?_eq_none hj] at hlater
      cases hlater
  | cons e order ih =>
      have hone := h.startNew (horder e List.mem_cons_self)
      exact hone.cons (ih hone.tracked fun e' he' => horder e' (List.mem_cons_of_mem _ he'))

/-! ## Reconciling -/

/-- Names outside the new fleet lose their run; the others keep the address of the run
they have, and get one where they have none. -/
theorem Tracked.reconcileFleet {e : FleetEmission} (h : f.Tracked)
    (hstep : f.reconcileFleet e = some g) :
    g.Tracked ∧ g.current = e.eps ∧ f.Undisturbed g ∧
      ∀ name, g.addrAt name =
        if addrOf e.eps name = none then none else (f.addrAt name).or (addrOf e.eps name) := by
  unfold Fleet.reconcileFleet at hstep
  split at hstep
  · rename_i horders
    obtain ⟨hactive, hwant⟩ := horders
    cases hstep
    have hdeparted : Departed (wantOf e.eps) f _ _ := h.foldl_depart
      ((List.perm_nodupKeys hactive).mpr f.active.nodupKeys)
      (fun e' he' => GoMap.mem_entries_iff.mp (hactive.mem_iff.mp he'))
    have hstarted := hdeparted.tracked.foldl_startNew
      (fun e' (he' : e' ∈ e.wantOrder) =>
        name_of_lookup_wantOf (GoMap.mem_entries_iff.mp (hwant.mem_iff.mp he')))
    have hlookup : ∀ name, (e.wantOrder.dlookup name).map AgentEndpoint.addr =
        addrOf e.eps name := by
      intro name
      rw [List.perm_dlookup name ((List.perm_nodupKeys hwant).mpr (wantOf e.eps).nodupKeys) hwant]
      exact map_lookup_wantOf e.eps name
    have hnone : ∀ name, (wantOf e.eps).lookup name = none ↔ addrOf e.eps name = none := by
      intro name
      rw [← map_lookup_wantOf, Option.map_eq_none_iff]
    have haddr : ∀ name, (e.activeOrder.foldl (Fleet.depart (wantOf e.eps)) f).addrAt name =
        if addrOf e.eps name = none then none else f.addrAt name := by
      intro name
      simp only [hdeparted.addrAt_of_perm h hactive, hnone]
    refine ⟨⟨hstarted.tracked.active, hstarted.tracked.live⟩, rfl, ?_, ?_⟩
    · intro i run hrun hlive hsame
      have hwanted : ((wantOf e.eps).lookup run.name).isSome = true := by
        rw [Option.isSome_iff_ne_none, ne_eq, hnone, hsame]
        exact Option.some_ne_none _
      refine ⟨hstarted.kept i run (hdeparted.kept i run hrun hwanted), ?_⟩
      intro j later hj hlater hname
      have hfresh := hstarted.fresh j later (hdeparted.length ▸ hj) hlater
      rw [hname, haddr, if_neg (by rw [hsame]; exact Option.some_ne_none _),
        h.addrAt_eq_none, h.live i run hrun hlive] at hfresh
      cases hfresh
    · intro name
      refine (hstarted.addrAt name).trans ?_
      rw [hlookup, haddr]
      by_cases hnone : addrOf e.eps name = none <;> simp [hnone]
  · cases hstep

theorem Tracked.matches_reconcileFleet_iff {e : FleetEmission} (h : f.Tracked)
    (hmatches : f.Matches) (hstep : f.reconcileFleet e = some g) :
    g.Matches ↔ Agree f.current e.eps := by
  obtain ⟨htracked, hcurrent, -, haddr⟩ := h.reconcileFleet hstep
  rw [h.matches_iff] at hmatches
  rw [htracked.matches_iff, hcurrent]
  constructor
  · intro hnext name addr addr' hold hnew
    have hname := hnext name
    rw [haddr, hmatches, hold, hnew] at hname
    simpa using hname
  · intro hagree name
    rw [haddr, hmatches]
    cases hnew : addrOf e.eps name with
    | none => rfl
    | some addr' =>
        cases hold : addrOf f.current name with
        | none => rfl
        | some addr => simp [hagree name addr addr' hold hnew]

/-! ## Whole runs -/

theorem Tracked.isChain_undisturbed {events : List FleetEmission} (h : f.Tracked)
    (hrun : run Fleet.reconcileFleet f events = some g) :
    (trace Fleet.reconcileFleet f events).IsChain Undisturbed := by
  induction events generalizing f with
  | nil => exact List.isChain_singleton f
  | cons e events ih =>
      obtain ⟨next, hstep, hrest⟩ := run_cons_eq_some.mp hrun
      obtain ⟨htracked, -, hundisturbed, -⟩ := h.reconcileFleet hstep
      rw [trace_cons hstep, List.isChain_cons, head?_trace]
      refine ⟨?_, ih htracked hrest⟩
      intro t ht
      cases ht
      exact hundisturbed

theorem Tracked.trace_matches_iff {events : List FleetEmission} (h : f.Tracked)
    (hmatches : f.Matches) (hrun : run Fleet.reconcileFleet f events = some g) :
    (∀ s ∈ trace Fleet.reconcileFleet f events, s.Matches) ↔
      (f.current :: events.map FleetEmission.eps).IsChain Agree := by
  induction events generalizing f with
  | nil => simpa [trace] using hmatches
  | cons e events ih =>
      obtain ⟨next, hstep, hrest⟩ := run_cons_eq_some.mp hrun
      obtain ⟨htracked, hcurrent, -, -⟩ := h.reconcileFleet hstep
      have hnext := h.matches_reconcileFleet_iff hmatches hstep
      rw [trace_cons hstep, List.forall_mem_cons, List.map_cons, List.isChain_cons_cons]
      constructor
      · rintro ⟨-, hall⟩
        have hhead := hall next (List.mem_of_mem_head? (head?_trace _ _ _))
        exact ⟨hnext.mp hhead, hcurrent ▸ (ih htracked hhead hrest).mp hall⟩
      · rintro ⟨hagree, hchain⟩
        have hhead := hnext.mpr hagree
        exact ⟨hmatches, (ih htracked hhead hrest).mpr (hcurrent ▸ hchain)⟩

theorem runs_match_fleet_iff (agents : List AgentEndpoint) (events : List FleetEmission)
    (f : Fleet) (hrun : run reconcileFleet (seed agents) events = some f) :
    (∀ s ∈ trace reconcileFleet (seed agents) events, s.Matches) ∧
        (trace reconcileFleet (seed agents) events).IsChain Undisturbed ↔
      (agents.map AgentEndpoint.name).Nodup ∧
        (agents :: events.map FleetEmission.eps).IsChain Agree := by
  constructor
  · rintro ⟨hall, -⟩
    have hseed := hall _ (List.mem_of_mem_head? (head?_trace _ _ _))
    have hnodup := nodup_of_matches_seed hseed
    exact ⟨hnodup, ((tracked_seed hnodup).1.trace_matches_iff hseed hrun).mp hall⟩
  · rintro ⟨hnodup, hchain⟩
    obtain ⟨htracked, haddr⟩ := tracked_seed hnodup
    have hseed := htracked.matches_iff.mpr haddr
    exact ⟨(htracked.trace_matches_iff hseed hrun).mpr hchain, htracked.isChain_undisturbed hrun⟩

private theorem agree_of_addr_eq_name {eps eps' : List AgentEndpoint}
    (h : ∀ ep ∈ eps, ep.addr = ep.name)
    (h' : ∀ ep ∈ eps', ep.addr = ep.name) : Agree eps eps' := by
  have hname : ∀ {eps : List AgentEndpoint} {name addr : String},
      (∀ ep ∈ eps, ep.addr = ep.name) → addrOf eps name = some addr → addr = name := by
    intro eps name addr hnamed haddr
    obtain ⟨ep, hep, rfl⟩ := Option.map_eq_some_iff.mp haddr
    rw [hnamed ep (List.mem_reverse.mp (List.mem_of_find?_eq_some hep))]
    have hfound := List.find?_some hep
    rwa [decide_eq_true_eq] at hfound
  intro name addr addr' haddr haddr'
  rw [hname h haddr, hname h' haddr']

/-! ## Two fleets that are not followed -/

def nodeA : AgentEndpoint := ⟨"node-a:7443", "node-a:7443"⟩

def nodeB : AgentEndpoint := ⟨"node-b:7443", "node-b:7443"⟩

def oldPort : AgentEndpoint := ⟨"agents/10.0.0.5", "10.0.0.5:7443"⟩

def newPort : AgentEndpoint := ⟨"agents/10.0.0.5", "10.0.0.5:8443"⟩

def portChanged : List FleetEmission :=
  [⟨[oldPort], [], [⟨"agents/10.0.0.5", oldPort⟩]⟩,
    ⟨[newPort], [⟨"agents/10.0.0.5", 0⟩], [⟨"agents/10.0.0.5", newPort⟩]⟩]

theorem runs_miss_fleet :
    (¬ (seed [nodeA, nodeA]).Matches) ∧
      ∃ f, run reconcileFleet (seed []) portChanged = some f ∧
        f.subscribed "agents/10.0.0.5" = ["10.0.0.5:7443"] ∧
        addrOf f.current "agents/10.0.0.5" = some "10.0.0.5:8443" ∧ ¬ f.Matches := by
  have htwice : (seed [nodeA, nodeA]).subscribed "node-a:7443" = ["node-a:7443", "node-a:7443"] ∧
      addrOf (seed [nodeA, nodeA]).current "node-a:7443" = some "node-a:7443" := by
    decide +kernel
  have hchanged : (run reconcileFleet (seed []) portChanged).map (fun f =>
      (f.subscribed "agents/10.0.0.5", addrOf f.current "agents/10.0.0.5")) =
      some (["10.0.0.5:7443"], some "10.0.0.5:8443") := by
    decide +kernel
  obtain ⟨f, hrun, hvalues⟩ := Option.map_eq_some_iff.mp hchanged
  obtain ⟨hsubscribed, haddr⟩ := Prod.mk.inj hvalues
  refine ⟨fun h => ?_, f, hrun, hsubscribed, haddr, fun h => ?_⟩
  · have hone := h "node-a:7443"
    rw [htwice.1, htwice.2] at hone
    cases hone
  · have hsame := h "agents/10.0.0.5"
    rw [hsubscribed, haddr] at hsame
    exact absurd hsame (by decide)

def arrivals : List FleetEmission :=
  [⟨[nodeA, nodeB], [⟨"node-a:7443", 0⟩], [⟨"node-a:7443", nodeA⟩, ⟨"node-b:7443", nodeB⟩]⟩,
    ⟨[nodeB], [⟨"node-a:7443", 0⟩, ⟨"node-b:7443", 1⟩], [⟨"node-b:7443", nodeB⟩]⟩,
    ⟨[nodeB, nodeA], [⟨"node-b:7443", 1⟩], [⟨"node-a:7443", nodeA⟩, ⟨"node-b:7443", nodeB⟩]⟩]

theorem runs_match_arrivals :
    ∃ f, run reconcileFleet (seed [nodeA]) arrivals = some f ∧ f.runs.length = 3 ∧
      ∀ s ∈ trace reconcileFleet (seed [nodeA]) arrivals, s.Matches := by
  have hvalues : (run reconcileFleet (seed [nodeA]) arrivals).map (fun f => f.runs.length) =
      some 3 := by
    decide +kernel
  obtain ⟨f, hrun, hlength⟩ := Option.map_eq_some_iff.mp hvalues
  refine ⟨f, hrun, hlength, ((runs_match_fleet_iff [nodeA] arrivals f hrun).mpr ⟨?_, ?_⟩).1⟩
  · decide
  · have hnamed : ∀ eps ∈ [[nodeA], [nodeA, nodeB], [nodeB], [nodeB, nodeA]],
        ∀ ep ∈ eps, ep.addr = ep.name := by
      decide
    have hagree : ∀ eps ∈ [[nodeA], [nodeA, nodeB], [nodeB], [nodeB, nodeA]],
        ∀ eps' ∈ [[nodeA], [nodeA, nodeB], [nodeB], [nodeB, nodeA]], Agree eps eps' :=
      fun eps heps eps' heps' => agree_of_addr_eq_name (hnamed eps heps) (hnamed eps' heps')
    simp only [arrivals, List.map_cons, List.map_nil, List.isChain_cons_cons,
      List.isChain_singleton, and_true]
    refine ⟨hagree _ ?_ _ ?_, hagree _ ?_ _ ?_, hagree _ ?_ _ ?_⟩ <;> decide

end Fleet

end KloudlensAggregator.Aggregator
