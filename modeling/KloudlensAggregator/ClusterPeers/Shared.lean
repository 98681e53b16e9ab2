import KloudlensAggregator.ClusterPeers.Advertise
import KloudlensAggregator.ClusterPeers.Refinement

/-!
# Wildcard ports that are shared

Without a pod locator a wildcard port answers only for a single advertiser.  The
registry tells the advertisers of a port apart by namespace and pod.  Processes of
the hosts have neither, so that those of two nodes share one entry, and a withdraw on
one node retires what another node has advertised.
-/

namespace KloudlensAggregator.ClusterPeers

open KloudlensAggregator.Foundation
open KloudlensAggregator.Aggregator

structure Advertiser where
  nodeName : String
  namespace_ : String
  pod : String
  deriving DecidableEq, Repr

def Listener.advertiser (l : Listener) : Advertiser := ⟨l.nodeName, l.namespace_, l.pod⟩

def Advertiser.key (a : Advertiser) (portKey : String) : Key :=
  .wild portKey (podIdent a.namespace_ a.pod)

/-- An operation with the node it comes from: the listener that `ListenerFromWithdraw` makes
has lost the node of the intent. -/
structure Report where
  time : Int
  node : String
  op : Op
  deriving DecidableEq, Repr

namespace Report

def ofIntent (now : Int) (ev : IntentEvent) : Option Report :=
  (((listenerFromAdvertise ev).map .observe).or ((listenerFromWithdraw ev).map .remove)).map
    fun op => ⟨now, (metaOf ev).nodeName, op⟩

def isBy (a : Advertiser) (r : Report) : Bool :=
  match r.op with
  | .observe l => l.advertiser = a
  | .remove l => (⟨r.node, l.namespace_, l.pod⟩ : Advertiser) = a
  | .sweep => false

def observed (r : Report) : Option Listener :=
  match r.op with
  | .observe l => some l
  | _ => none

def concerns (portKey : String) (a : Advertiser) (r : Report) : Bool :=
  r.op.key = some (a.key portKey) && r.isBy a

theorem concerns_iff {portKey : String} {a : Advertiser} {r : Report} :
    r.concerns portKey a = true ↔ r.op.key = some (a.key portKey) ∧ r.isBy a = true := by
  simp [concerns]

theorem isBy_ofIntent {now : Int} {ev : IntentEvent} {r : Report}
    (h : ofIntent now ev = some r) (a : Advertiser) :
    r.isBy a = true ↔ a = ⟨(metaOf ev).nodeName, (metaOf ev).namespace_, (metaOf ev).pod⟩ := by
  obtain ⟨op, hop, rfl⟩ := Option.map_eq_some_iff.mp h
  rcases Option.or_eq_some_iff.mp hop with hadvertise | ⟨-, hwithdraw⟩
  · obtain ⟨l, hl, rfl⟩ := Option.map_eq_some_iff.mp hadvertise
    simp only [listenerFromAdvertise, Option.ite_none_left_eq_some, Option.some.injEq] at hl
    obtain ⟨-, -, rfl⟩ := hl
    simp [isBy, Listener.advertiser, eq_comm]
  · obtain ⟨l, hl, rfl⟩ := Option.map_eq_some_iff.mp hwithdraw
    simp only [listenerFromWithdraw, Option.ite_none_left_eq_some, Option.some.injEq] at hl
    obtain ⟨-, -, rfl⟩ := hl
    simp [isBy, eq_comm]

end Report

abbrev Reports := List Report

namespace Reports

def history (reports : Reports) : History := reports.map fun r => (r.time, r.op)

/-- What an advertiser has last advertised on a wildcard port and not withdrawn. -/
def advert (ttl : Int) (reports : Reports) (portKey : String) (a : Advertiser) :
    Option Listener :=
  (reports.reverse.find? fun r => r.concerns portKey a).bind fun r => r.op.stored (r.time + ttl)

def Holds (ttl : Int) (reports : Reports) (now : Int) (portKey : String) (a : Advertiser) :
    Prop :=
  ∃ l, advert ttl reports portKey a = some l ∧ l.isLive now = true

private theorem holds_iff {ttl : Int} {reports : Reports} {now : Int} {portKey : String}
    {a : Advertiser} :
    Holds ttl reports now portKey a ↔
      (advert ttl reports portKey a).any (Listener.isLive now) = true := by
  cases hadvert : advert ttl reports portKey a <;> simp [Holds, hadvert]

instance (ttl : Int) (reports : Reports) (now : Int) (portKey : String) (a : Advertiser) :
    Decidable (Holds ttl reports now portKey a) :=
  decidable_of_iff _ holds_iff.symm

/-- Whoever holds a port shares its key with no other: an operation with this key is the
holder's own. -/
def OwnKeys (ttl : Int) (reports : Reports) : Prop :=
  ∀ before r after, reports = before ++ r :: after → ∀ portKey a,
    Holds ttl before r.time portKey a → r.op.key = some (a.key portKey) → r.isBy a = true

variable {ttl : Int} {reports : Reports} {portKey : String} {a : Advertiser} {now : Int}

private theorem entry_history_append (ttl : Int) (reports : Reports) (r : Report) (key : Key) :
    History.entry ttl (reports ++ [r]).history key =
      if r.op.key = some key then r.op.stored (r.time + ttl)
      else History.entry ttl reports.history key := by
  rw [history, List.map_append]
  exact History.entry_append ttl _ (r.time, r.op) key

theorem advert_append (ttl : Int) (reports : Reports) (r : Report) (portKey : String)
    (a : Advertiser) :
    advert ttl (reports ++ [r]) portKey a =
      if r.concerns portKey a then r.op.stored (r.time + ttl)
      else advert ttl reports portKey a := by
  simp only [advert, List.reverse_append, List.reverse_singleton, List.singleton_append,
    List.find?_cons]
  by_cases hconcerns : r.concerns portKey a <;> simp [hconcerns]

theorem exists_observe_of_advert {l : Listener} (h : advert ttl reports portKey a = some l) :
    ∃ r ∈ reports, ∃ base, r.op = .observe base ∧ base.key = some (a.key portKey) ∧
      base.advertiser = a ∧ l = { base with expires := r.time + ttl } := by
  obtain ⟨r, hfind, hstored⟩ := Option.bind_eq_some_iff.mp h
  have hmem := List.mem_reverse.mp (List.mem_of_find?_eq_some hfind)
  obtain ⟨hkey, hby⟩ := Report.concerns_iff.mp (List.find?_some hfind)
  unfold Report.isBy at hby
  cases hop : r.op with
  | observe base =>
      rw [hop] at hkey hby hstored
      exact ⟨r, hmem, base, hop, hkey, of_decide_eq_true hby, (Option.some.inj hstored).symm⟩
  | remove base =>
      rw [hop] at hstored
      cases hstored
  | sweep =>
      rw [hop] at hstored
      cases hstored

private theorem advertiser_of_advert {l : Listener} (h : advert ttl reports portKey a = some l) :
    l.advertiser = a := by
  obtain ⟨r, -, base, -, -, hadvertiser, rfl⟩ := exists_observe_of_advert h
  exact hadvertiser

theorem OwnKeys.init {r : Report} (h : OwnKeys ttl (reports ++ [r])) : OwnKeys ttl reports := by
  intro before r' after heq
  exact h before r' (after ++ [r]) (by rw [heq]; simp)

private theorem ownKeys_of_forall
    (h : ∀ l ∈ reports.filterMap Report.observed, ∀ r ∈ reports, r.op.key = l.key →
      r.isBy l.advertiser = true) : OwnKeys ttl reports := by
  rintro before r after rfl portKey a ⟨l, hadvert, -⟩ hkey
  obtain ⟨r', hmem, base, hop, hbase, rfl, -⟩ := exists_observe_of_advert hadvert
  have hobserved : base ∈ (before ++ r :: after).filterMap Report.observed :=
    List.mem_filterMap.mpr ⟨r', List.mem_append_left _ hmem, by rw [Report.observed, hop]⟩
  exact h base hobserved r (by simp) (hkey.trans hbase.symm)

private theorem key_of_wild {ident : String} {l : Listener}
    (h : l.key = some (.wild portKey ident)) :
    l.advertiser.key portKey = .wild portKey ident := by
  unfold Listener.key at h
  split at h
  · cases h
  · split at h
    · split at h
      · cases h
      · cases h
        rfl
    · cases h

private theorem advert_of_entry {ident : String} {l : Listener}
    (hentry : History.entry ttl reports.history (.wild portKey ident) = some l) :
    l.advertiser.key portKey = .wild portKey ident ∧
      advert ttl reports portKey l.advertiser = some l := by
  have hident := key_of_wild (History.key_of_entry hentry)
  refine ⟨hident, ?_⟩
  induction reports using List.reverseRecOn with
  | nil => cases hentry
  | append_singleton reports r ih =>
      rw [entry_history_append] at hentry
      rw [advert_append]
      by_cases hkey : r.op.key = some (.wild portKey ident)
      · rw [if_pos hkey] at hentry
        cases hop : r.op with
        | observe base =>
            rw [hop] at hentry hkey
            cases hentry
            refine if_pos (Report.concerns_iff.mpr ⟨?_, ?_⟩)
            · rw [hop, hkey]
              exact congrArg some hident.symm
            · rw [Report.isBy, hop]
              exact decide_eq_true rfl
        | remove base =>
            rw [hop] at hentry
            cases hentry
        | sweep =>
            rw [hop] at hentry
            cases hentry
      · rw [if_neg hkey] at hentry
        have hother : ¬ r.concerns portKey l.advertiser = true := by
          intro hconcerns
          exact hkey ((Report.concerns_iff.mp hconcerns).1.trans (congrArg some hident))
        rw [if_neg hother]
        exact ih hentry

private theorem entry_of_holds (hown : OwnKeys ttl reports) (hclock : ∀ r ∈ reports, r.time ≤ now)
    (hholds : Holds ttl reports now portKey a) :
    History.entry ttl reports.history (a.key portKey) = advert ttl reports portKey a := by
  induction reports using List.reverseRecOn with
  | nil => rfl
  | append_singleton reports r ih =>
      rw [entry_history_append, advert_append]
      by_cases hconcerns : r.concerns portKey a = true
      · rw [if_pos hconcerns, if_pos (Report.concerns_iff.mp hconcerns).1]
      · obtain ⟨l, hadvert, hlive⟩ := hholds
        rw [advert_append, if_neg hconcerns] at hadvert
        have hbefore : ∀ r' ∈ reports, r'.time ≤ now := fun r' h => hclock r' (by simp [h])
        -- Another operation with the key would have come while the advert was live.
        have hkey : r.op.key ≠ some (a.key portKey) := by
          intro hkey
          have hop : r.time ≤ now := hclock r (by simp)
          have hearlier : Holds ttl reports r.time portKey a := by
            refine ⟨l, hadvert, ?_⟩
            simp only [Listener.isLive, decide_eq_true_eq] at hlive ⊢
            omega
          exact hconcerns
            (Report.concerns_iff.mpr ⟨hkey, hown reports r [] rfl portKey a hearlier hkey⟩)
        rw [if_neg hconcerns, if_neg hkey]
        exact ih hown.init hbefore ⟨l, hadvert, hlive⟩

theorem clock_history (hclock : ∀ r ∈ reports, r.time ≤ now) :
    ∀ op ∈ reports.history, op.1 ≤ now := by
  intro op hop
  obtain ⟨r, hr, rfl⟩ := List.mem_map.mp hop
  exact hclock r hr

end Reports

namespace Registry

variable {ttl now : Int} {reports : Reports} {portKey : String}

private theorem liveEntry_of_holds (hclock : ∀ r ∈ reports, r.time ≤ now)
    (hown : reports.OwnKeys (newRegistry ttl).ttl) {a : Advertiser}
    (hholds : reports.Holds (newRegistry ttl).ttl now portKey a) :
    ∃ l, (run ttl reports.history).liveEntry now (a.key portKey) = some l ∧
      l.advertiser = a := by
  have hentry := Reports.entry_of_holds hown hclock hholds
  obtain ⟨l, hadvert, hlive⟩ := hholds
  refine ⟨l, ?_, Reports.advertiser_of_advert hadvert⟩
  rw [liveEntry_run ttl (Reports.clock_history hclock), hentry, hadvert,
    Option.filter_some_pos hlive]

private theorem holds_of_liveEntry (hclock : ∀ r ∈ reports, r.time ≤ now) {ident : String}
    {l : Listener}
    (hlive : (run ttl reports.history).liveEntry now (.wild portKey ident) = some l) :
    reports.Holds (newRegistry ttl).ttl now portKey l.advertiser := by
  rw [liveEntry_run ttl (Reports.clock_history hclock), Option.filter_eq_some_iff] at hlive
  exact ⟨l, (Reports.advert_of_entry hlive.1).2, hlive.2⟩

private theorem existsUnique_holds_of_soleLiveWild (hclock : ∀ r ∈ reports, r.time ≤ now)
    (hown : reports.OwnKeys (newRegistry ttl).ttl) {l : Listener}
    (hsole : (run ttl reports.history).soleLiveWild portKey now = some l) :
    ∃! a, reports.Holds (newRegistry ttl).ttl now portKey a := by
  obtain ⟨ident, hlive⟩ := liveEntry_of_soleLiveWild hsole
  have hentries : ∀ e ∈ (run ttl reports.history).liveWildEntries portKey now, e.2 = l := by
    unfold soleLiveWild at hsole
    split at hsole
    · rename_i e hentries
      cases hsole
      simp [hentries]
    · cases hsole
  refine ⟨l.advertiser, holds_of_liveEntry hclock hlive, ?_⟩
  intro a hholds
  obtain ⟨l', hlive', hadvertiser⟩ := liveEntry_of_holds hclock hown hholds
  have hsame := hentries ⟨_, l'⟩ (mem_liveWildEntries.mpr hlive')
  rw [← hadvertiser, ← hsame]

/-- Without a pod locator, a wildcard port resolves for its only holder, and misses where
two hold it, in every run in which holders have keys of their own. -/
theorem wildcard_sole_holder (ttl : Int) (reports : Reports) (now : Int) (env : Resolvers)
    (hpodLoc : env.podLoc = none) (hclock : ∀ r ∈ reports, r.time ≤ now)
    (hown : reports.OwnKeys (newRegistry ttl).ttl) (addr host port : String)
    (hsplit : splitHostPort addr = some (host, port)) :
    ((∃ l, (run ttl reports.history).join env addr now = some (l, .wildcard)) →
      ∃! a, reports.Holds (newRegistry ttl).ttl now (":" ++ port) a) ∧
    ∀ a b, a ≠ b → reports.Holds (newRegistry ttl).ttl now (":" ++ port) a →
      reports.Holds (newRegistry ttl).ttl now (":" ++ port) b →
        (run ttl reports.history).liveWild env addr now = none := by
  have hsole : ∀ l, (run ttl reports.history).liveWild env addr now = some l →
      ∃! a, reports.Holds (newRegistry ttl).ttl now (":" ++ port) a := by
    intro l hwild
    obtain ⟨host', port', hsplit', ⟨-, hsole⟩ | ⟨podForIP, ns, pod, hlocator, -⟩⟩ :=
      liveWild_cases hwild
    · rw [hsplit] at hsplit'
      cases hsplit'
      exact existsUnique_holds_of_soleLiveWild hclock hown hsole
    · rw [hpodLoc] at hlocator
      cases hlocator
  constructor
  · rintro ⟨l, hjoin⟩
    rcases join_cases hjoin with ⟨hhow, -⟩ | ⟨hhow, -⟩ | ⟨hhow, -⟩ | ⟨-, hwild⟩
    · cases hhow
    · cases hhow
    · cases hhow
    · exact hsole l hwild
  · intro a b hne ha hb
    cases hwild : (run ttl reports.history).liveWild env addr now with
    | none => rfl
    | some l => exact absurd ((hsole l hwild).unique ha hb) hne

def wildcardIntent (kind addr process nodeName ns pod : String) : IntentEvent :=
  ⟨kind, [("addr", addr), ("wildcard", "true"), ("process", process)],
    some ⟨nodeName, ns, pod, "", "", ""⟩, 0, []⟩

def replicas : Reports :=
  [(0, kindListenerAdvertise, "node-a", "web-1"), (1, kindListenerAdvertise, "node-b", "web-2"),
    (3, kindListenerWithdraw, "node-a", "web-1"),
    (4, kindListenerAdvertise, "node-b", "web-2")].filterMap fun (now, kind, nodeName, pod) =>
      Report.ofIntent now (wildcardIntent kind "0.0.0.0:8080" "web" nodeName "shop" pod)

theorem wildcard_sole_replica :
    replicas.OwnKeys (newRegistry 0).ttl ∧
      ((run 0 replicas.history).join ⟨none, none, none⟩ "10.0.0.2:8080" 5).map
        (fun answer => (answer.1.nodeName, answer.1.pod, answer.2)) =
          some ("node-b", "web-2", .wildcard) ∧
      ∃! a, replicas.Holds (newRegistry 0).ttl 5 ":8080" a := by
  have hown : replicas.OwnKeys (newRegistry 0).ttl := by
    refine Reports.ownKeys_of_forall ?_
    decide +kernel
  have hanswer : ((run 0 replicas.history).join ⟨none, none, none⟩ "10.0.0.2:8080" 5).map
      (fun answer => (answer.1.nodeName, answer.1.pod, answer.2)) =
        some ("node-b", "web-2", .wildcard) := by
    decide +kernel
  obtain ⟨⟨l, how⟩, hjoin, hfields⟩ := Option.map_eq_some_iff.mp hanswer
  simp only [Prod.mk.injEq] at hfields
  obtain ⟨-, -, rfl⟩ := hfields
  exact ⟨hown, hanswer, (wildcard_sole_holder 0 replicas 5 ⟨none, none, none⟩ rfl
    (by decide +kernel) hown "10.0.0.2:8080" "10.0.0.2" "8080" (by decide +kernel)).1 ⟨l, hjoin⟩⟩

def exporterIntent (kind nodeName ns pod : String) : IntentEvent :=
  wildcardIntent kind "0.0.0.0:9100" "exporter" nodeName ns pod

def exporters : Reports :=
  [(0, "node-a"), (1, "node-b")].filterMap fun (now, nodeName) =>
    Report.ofIntent now (exporterIntent kindListenerAdvertise nodeName "" "")

def withdrawnElsewhere : Reports :=
  [(0, kindListenerAdvertise, "node-a", "", ""),
    (1, kindListenerAdvertise, "node-c", "shop", "exp-1"),
    (2, kindListenerWithdraw, "node-b", "", "")].filterMap fun (now, kind, nodeName, ns, pod) =>
      Report.ofIntent now (exporterIntent kind nodeName ns pod)

/-- Two exporters are live, and one of them answers: the last one where both have the same
key, and the other one where a withdraw on a third node took the first. -/
theorem wildcard_resolves_shared :
    (((run 0 exporters.history).join ⟨none, none, none⟩ "10.1.0.1:9100" 2).map
        (fun answer => (answer.1.nodeName, answer.2)) = some ("node-b", .wildcard) ∧
      exporters.Holds (newRegistry 0).ttl 2 ":9100" ⟨"node-a", "", ""⟩ ∧
      exporters.Holds (newRegistry 0).ttl 2 ":9100" ⟨"node-b", "", ""⟩) ∧
    ((run 0 withdrawnElsewhere.history).join ⟨none, none, none⟩ "10.1.0.1:9100" 3).map
        (fun answer => (answer.1.nodeName, answer.2)) = some ("node-c", .wildcard) ∧
      withdrawnElsewhere.Holds (newRegistry 0).ttl 3 ":9100" ⟨"node-a", "", ""⟩ ∧
      withdrawnElsewhere.Holds (newRegistry 0).ttl 3 ":9100" ⟨"node-c", "shop", "exp-1"⟩ := by
  refine ⟨⟨?_, ?_, ?_⟩, ?_, ?_, ?_⟩
  all_goals decide +kernel

end Registry

end KloudlensAggregator.ClusterPeers
