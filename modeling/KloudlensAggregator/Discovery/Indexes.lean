import KloudlensAggregator.Discovery.Mirror

/-!
# The indexes under three watches

`ServiceWatcher.Run` starts a loop for the Services, one for the EndpointSlices
and, where there is an index for them, one for the Pods.  They share the indexes
and nothing else, so their publications come in any order of the three, and a
reader may come between the two locks of `applySlices`.  At every moment each table
of the indexes is that of the objects of the cluster at one version.
-/

namespace KloudlensAggregator.Discovery

open KloudlensAggregator.Foundation

/-- A loop of `Run`: what the cluster does and what the API server answers. -/
structure ClusterWatch (O : Type) (path : String) where
  json : EventJson (RawObject O)
  cluster : List (Change (RawObject O))
  served : List (Turn RangeOrders × Nat)
  serves : (ServiceWatcher.kind json path).Serves cluster 0 served

namespace ClusterWatch

variable {O : Type} {path : String}

def announced (watch : ClusterWatch O path) (ctx : Context) (reconnectBackoff : Int) (now : Nat)
    (apply : ServiceWatcher → RangeOrders → GoMap String (RawObject O) → ServiceWatcher) :
    List (Announced (RawObject O) RangeOrders) :=
  ((ServiceWatcher.resource watch.json path apply).recorder.loop ctx
    (withDefaultBackoff reconnectBackoff) (.new now []) (watch.served.map Prod.fst)).published

theorem published_watchLoop (watch : ClusterWatch O path) (ctx : Context)
    (reconnectBackoff : Int) (now : Nat)
    (apply : ServiceWatcher → RangeOrders → GoMap String (RawObject O) → ServiceWatcher)
    (w : ServiceWatcher) :
    (ServiceWatcher.watchLoop watch.json ctx reconnectBackoff path apply (.new now w)
      (watch.served.map Prod.fst)).published =
      (watch.announced ctx reconnectBackoff now apply).foldl
        (fun w a => apply w a.choice a.state) w := by
  rw [ServiceWatcher.watchLoop, Resource.loop_new]
  rfl

def IsSnapshot (watch : ClusterWatch O path) (state : GoMap String (RawObject O)) : Prop :=
  ∃ n ≤ watch.cluster.length,
    ObjectKind.held state = (ServiceWatcher.kind watch.json path).clusterAt watch.cluster n

private theorem isSnapshot_empty (watch : ClusterWatch O path) : watch.IsSnapshot ∅ :=
  ⟨0, Nat.zero_le _, rfl⟩

theorem isSnapshot_of_announced {watch : ClusterWatch O path} {ctx : Context}
    {reconnectBackoff : Int} {now : Nat}
    {apply : ServiceWatcher → RangeOrders → GoMap String (RawObject O) → ServiceWatcher}
    {a : Announced (RawObject O) RangeOrders}
    (ha : a ∈ watch.announced ctx reconnectBackoff now apply) : watch.IsSnapshot a.state := by
  have hnew : Mirrors (ServiceWatcher.resource watch.json path apply).toObjectKind watch.cluster
      ctx (WatchLoop.new now [] :
        WatchLoop (RawObject O) (List (Announced (RawObject O) RangeOrders))).toView 0 :=
    .new _ _ _ _
  obtain ⟨n, -, hmirrors⟩ := hnew.loop (Nat.le_refl 0) watch.serves
    (withDefaultBackoff reconnectBackoff)
  obtain ⟨version, hle, hheld⟩ := hmirrors.published.exists_of_mem ha
  exact ⟨version, Nat.le_trans hle hmirrors.bounded, hheld⟩

end ClusterWatch

/-- One of the loops holds the lock of one of the indexes.  `applySlices` takes the two locks
one after the other. -/
inductive Publication where
  | services (a : Announced (RawObject ServiceObject) RangeOrders)
  | podEntries (a : Announced (RawObject SvcSliceObject) RangeOrders)
  | sliceGroups (a : Announced (RawObject SvcSliceObject) RangeOrders)
  | pods (a : Announced (RawObject PodObject) RangeOrders)

namespace Publication

def services? : Publication → Option (Announced (RawObject ServiceObject) RangeOrders)
  | .services a => some a
  | _ => none

def podEntries? : Publication → Option (Announced (RawObject SvcSliceObject) RangeOrders)
  | .podEntries a => some a
  | _ => none

def sliceGroups? : Publication → Option (Announced (RawObject SvcSliceObject) RangeOrders)
  | .sliceGroups a => some a
  | _ => none

def pods? : Publication → Option (Announced (RawObject PodObject) RangeOrders)
  | .pods a => some a
  | _ => none

def ofSlices : Publication → Bool
  | .podEntries _ => true
  | .sliceGroups _ => true
  | _ => false

def applySlices (a : Announced (RawObject SvcSliceObject) RangeOrders) : List Publication :=
  [.podEntries a, .sliceGroups a]

def BetweenLocks (published : List Publication) : Prop :=
  ∃ a, (published.filter ofSlices).getLast? = some (.podEntries a)

private theorem filterMap_podEntries (published : List Publication) :
    published.filterMap podEntries? = (published.filter ofSlices).filterMap podEntries? := by
  rw [List.filterMap_filter]
  exact List.filterMap_congr fun p _ => by cases p <;> rfl

private theorem filterMap_sliceGroups (published : List Publication) :
    published.filterMap sliceGroups? = (published.filter ofSlices).filterMap sliceGroups? := by
  rw [List.filterMap_filter]
  exact List.filterMap_congr fun p _ => by cases p <;> rfl

theorem filterMap_flatMap_applySlices
    (announced : List (Announced (RawObject SvcSliceObject) RangeOrders)) :
    (announced.flatMap applySlices).filterMap podEntries? = announced ∧
      (announced.flatMap applySlices).filterMap sliceGroups? = announced := by
  induction announced with
  | nil => exact ⟨rfl, rfl⟩
  | cons a announced ih => exact ⟨congrArg (a :: ·) ih.1, congrArg (a :: ·) ih.2⟩

private theorem eq_of_slices_initial {steps : List Publication}
    {announced : List (Announced (RawObject SvcSliceObject) RangeOrders)}
    (h : steps <+: announced.flatMap applySlices) :
    ∃ done, (steps = done.flatMap applySlices ∧ done <+: announced) ∨
      ∃ a, steps = done.flatMap applySlices ++ [.podEntries a] ∧ done ++ [a] <+: announced := by
  induction announced generalizing steps with
  | nil => exact ⟨[], .inl ⟨List.prefix_nil.mp h, List.nil_prefix⟩⟩
  | cons a announced ih =>
      rw [List.flatMap_cons, applySlices, List.cons_append, List.cons_append,
        List.nil_append] at h
      rcases steps with _ | ⟨first, _ | ⟨second, rest⟩⟩
      · exact ⟨[], .inl ⟨rfl, List.nil_prefix⟩⟩
      · obtain ⟨rfl, -⟩ := List.cons_prefix_cons.mp h
        exact ⟨[], .inr ⟨a, rfl, by simp⟩⟩
      · obtain ⟨rfl, htail⟩ := List.cons_prefix_cons.mp h
        obtain ⟨rfl, hrest⟩ := List.cons_prefix_cons.mp htail
        obtain ⟨done, ⟨rfl, hdone⟩ | ⟨a', rfl, hdone⟩⟩ := ih hrest
        · exact ⟨a :: done, .inl ⟨rfl, List.cons_prefix_cons.mpr ⟨rfl, hdone⟩⟩⟩
        · exact ⟨a :: done, .inr ⟨a', rfl, List.cons_prefix_cons.mpr ⟨rfl, hdone⟩⟩⟩

end Publication

structure TableObjects extends ClusterObjects where
  podEntries : GoMap String (RawObject SvcSliceObject)

namespace ServiceWatcher

def publish (w : ServiceWatcher) : Publication → ServiceWatcher
  | .services a => w.applyServices a.choice a.state
  | .podEntries a => w.replacePodEntries a.choice a.state
  | .sliceGroups a => w.setSliceGroups a.choice a.state
  | .pods a => w.applyPods a.choice a.state

example (w : ServiceWatcher) (a : Announced (RawObject SvcSliceObject) RangeOrders) :
    (Publication.applySlices a).foldl publish w = w.applySlices a.choice a.state := rfl

def fresh (withPods : Bool) : ServiceWatcher :=
  ⟨newServiceIndex, if withPods then some newPodEndpointIndex else none⟩

structure Loops where
  ctx : Context
  reconnectBackoff : Int
  now : Nat
  services : ClusterWatch ServiceObject "/api/v1/services"
  slices : ClusterWatch SvcSliceObject "/apis/discovery.k8s.io/v1/endpointslices"
  pods : ClusterWatch PodObject "/api/v1/pods"

/-- The publications so far, in the order in which they reach the indexes: those of each
loop come in its own order.  Without an index for the pods their loop is not started. -/
structure Loops.Interleaves (loops : Loops) (withPods : Bool) (published : List Publication) :
    Prop where
  services : published.filterMap Publication.services? <+:
    loops.services.announced loops.ctx loops.reconnectBackoff loops.now applyServices
  slices : published.filter Publication.ofSlices <+:
    (loops.slices.announced loops.ctx loops.reconnectBackoff loops.now applySlices).flatMap
      Publication.applySlices
  pods : published.filterMap Publication.pods? <+: if withPods then
    loops.pods.announced loops.ctx loops.reconnectBackoff loops.now applyPods else []

def lastState {O : Type} (announced : List (Announced (RawObject O) RangeOrders)) :
    GoMap String (RawObject O) :=
  (announced.getLast?.map Announced.state).getD ∅

def lastObjects (published : List Publication) : TableObjects where
  services := lastState (published.filterMap Publication.services?)
  slices := lastState (published.filterMap Publication.sliceGroups?)
  pods := lastState (published.filterMap Publication.pods?)
  podEntries := lastState (published.filterMap Publication.podEntries?)

def fill (w : ServiceWatcher) (orders : RangeOrders) (objects : TableObjects) : ServiceWatcher :=
  (((w.applyServices orders objects.services).replacePodEntries orders
    objects.podEntries).setSliceGroups orders objects.slices).applyPods orders objects.pods

private theorem fill_eq_apply (w : ServiceWatcher) (orders : RangeOrders) {objects : TableObjects}
    (h : objects.podEntries = objects.slices) :
    w.fill orders objects = w.apply orders objects.toClusterObjects := by
  rw [fill, h]
  rfl

private theorem fresh_fill (withPods : Bool) (orders : RangeOrders) :
    (fresh withPods).fill orders ⟨⟨∅, ∅, ∅⟩, ∅⟩ = fresh withPods := by
  have hobjects : ∀ {O : Type} (order : RangeOrder String (RawObject O)),
      objectsIn order ∅ = [] := by
    intro O order
    rw [objectsIn, RangeOrder.values, RangeOrder.visit_empty]
    rfl
  have hentries : podEntriesFromSlices orders ∅ = [] := by
    rw [podEntriesFromSlices, placed, hobjects, List.flatMap_nil, List.foldl_nil,
      RangeOrder.values, RangeOrder.visit_empty]
    rfl
  simp only [fill, applyServices, replacePodEntries, setSliceGroups, applyPods, hobjects,
    hentries, List.foldl_nil, RangeOrder.visit_empty, List.flatMap_nil]
  cases withPods <;> rfl

private theorem lastObjects_append (published : List Publication) (p : Publication) :
    lastObjects (published ++ [p]) =
      match p with
      | .services a => { lastObjects published with services := a.state }
      | .podEntries a => { lastObjects published with podEntries := a.state }
      | .sliceGroups a => { lastObjects published with slices := a.state }
      | .pods a => { lastObjects published with pods := a.state } := by
  cases p <;>
    simp [lastObjects, lastState, Publication.services?, Publication.podEntries?,
      Publication.sliceGroups?, Publication.pods?]

private theorem publish_fill (w : ServiceWatcher) (orders : RangeOrders)
    (published : List Publication) (a : Publication) :
    ∃ orders', (w.fill orders (lastObjects published)).publish a =
      w.fill orders' (lastObjects (published ++ [a])) := by
  obtain ⟨index, podIndex⟩ := w
  cases a with
  | services a =>
      refine ⟨{ orders with services := a.choice.services }, ?_⟩
      rw [lastObjects_append]
      rfl
  | podEntries a =>
      refine ⟨{ orders with entrySlices := a.choice.entrySlices, byIP := a.choice.byIP }, ?_⟩
      rw [lastObjects_append]
      cases podIndex <;> rfl
  | sliceGroups a =>
      refine ⟨{ a.choice with
        services := orders.services, pods := orders.pods,
        entrySlices := orders.entrySlices, byIP := orders.byIP }, ?_⟩
      rw [lastObjects_append]
      rfl
  | pods a =>
      refine ⟨{ orders with pods := a.choice.pods }, ?_⟩
      rw [lastObjects_append]
      cases podIndex <;> rfl

private theorem foldl_publish (withPods : Bool) (published : List Publication) :
    ∃ orders, published.foldl publish (fresh withPods) =
      (fresh withPods).fill orders (lastObjects published) := by
  induction published using List.reverseRecOn with
  | nil => exact ⟨.forwards, (fresh_fill withPods .forwards).symm⟩
  | append_singleton published a ih =>
      obtain ⟨orders, heq⟩ := ih
      rw [List.foldl_append, List.foldl_cons, List.foldl_nil, heq]
      exact publish_fill _ orders published a

theorem isSnapshot_lastState {O : Type} {path : String} {watch : ClusterWatch O path}
    {announced all : List (Announced (RawObject O) RangeOrders)} (hinitial : announced <+: all)
    (hall : ∀ a ∈ all, watch.IsSnapshot a.state) : watch.IsSnapshot (lastState announced) := by
  unfold lastState
  cases hlast : announced.getLast? with
  | none => exact watch.isSnapshot_empty
  | some a => exact hall a (hinitial.subset (List.mem_of_getLast? hlast))

theorem Loops.Interleaves.slices_tables {loops : Loops} {withPods : Bool}
    {published : List Publication} (h : loops.Interleaves withPods published) :
    let announced := loops.slices.announced loops.ctx loops.reconnectBackoff loops.now applySlices
    published.filterMap Publication.sliceGroups? <+: announced ∧
      published.filterMap Publication.podEntries? <+: announced ∧
      (published.filterMap Publication.podEntries? =
        published.filterMap Publication.sliceGroups? ∨ Publication.BetweenLocks published) := by
  intro announced
  rw [Publication.filterMap_podEntries, Publication.filterMap_sliceGroups]
  obtain ⟨done, ⟨hsteps, hdone⟩ | ⟨a, hsteps, hdone⟩⟩ := Publication.eq_of_slices_initial h.slices
  · obtain ⟨hentries, hgroups⟩ := Publication.filterMap_flatMap_applySlices done
    rw [hsteps, hentries, hgroups]
    exact ⟨hdone, hdone, .inl rfl⟩
  · obtain ⟨hentries, hgroups⟩ := Publication.filterMap_flatMap_applySlices done
    have hbetween : Publication.BetweenLocks published := ⟨a, by rw [hsteps, List.getLast?_concat]⟩
    rw [hsteps, List.filterMap_append, List.filterMap_append, hentries, hgroups]
    refine ⟨?_, hdone, .inr hbetween⟩
    have hgroups' : done ++ [Publication.podEntries a].filterMap Publication.sliceGroups? = done :=
      List.append_nil done
    rw [hgroups']
    exact (List.prefix_append done [a]).trans hdone

/-- However the publications of the three loops interleave, each table is that of objects of
the cluster at one version, the one its loop has published last; unless `applySlices` is
between its locks, the indexes are those of one `apply`. -/
theorem indexes_are_snapshots (loops : Loops) (withPods : Bool) {published : List Publication}
    (h : loops.Interleaves withPods published) :
    ∃ orders, published.foldl publish (fresh withPods) =
        (fresh withPods).fill orders (lastObjects published) ∧
      (¬ Publication.BetweenLocks published → published.foldl publish (fresh withPods) =
        (fresh withPods).apply orders (lastObjects published).toClusterObjects) ∧
      loops.services.IsSnapshot (lastObjects published).services ∧
      loops.slices.IsSnapshot (lastObjects published).slices ∧
      loops.slices.IsSnapshot (lastObjects published).podEntries ∧
      loops.pods.IsSnapshot (lastObjects published).pods := by
  obtain ⟨orders, heq⟩ := foldl_publish withPods published
  obtain ⟨hgroups, hentries, hsame⟩ := h.slices_tables
  refine ⟨orders, heq, fun hwhole => ?_, ?_, ?_, ?_, ?_⟩
  · rw [heq]
    refine fill_eq_apply _ _ (congrArg lastState ?_)
    exact hsame.resolve_right hwhole
  · exact isSnapshot_lastState h.services fun a ha => ClusterWatch.isSnapshot_of_announced ha
  · exact isSnapshot_lastState hgroups fun a ha => ClusterWatch.isSnapshot_of_announced ha
  · exact isSnapshot_lastState hentries fun a ha => ClusterWatch.isSnapshot_of_announced ha
  · refine isSnapshot_lastState h.pods fun a ha => ?_
    cases withPods with
    | false => cases ha
    | true => exact ClusterWatch.isSnapshot_of_announced ha

def webService : RawObject ServiceObject :=
  ⟨some ⟨"shop", "web"⟩, some ⟨"shop", "web", "10.96.0.1", [], [⟨"http", 80⟩]⟩⟩

def webLoops : Loops where
  ctx := ⟨none⟩
  reconnectBackoff := 0
  now := 0
  services := ⟨oneObject webService, [.put webService, .drop webService],
    [(listedThenDeleted RangeOrders.forwards, 1)], serves_oneObject rfl rfl RangeOrders.forwards⟩
  slices := ⟨⟨fun _ => .error [], fun _ => .error []⟩, [], [], trivial⟩
  pods := ⟨⟨fun _ => .error [], fun _ => .error []⟩, [], [], trivial⟩

def webPublished (n : Nat) : List Publication :=
  ((webLoops.services.announced webLoops.ctx 0 0 applyServices).take n).map .services

theorem filter_webPublished (n : Nat) : (webPublished n).filter Publication.ofSlices = [] := by
  rw [webPublished, List.filter_map]
  simp [Function.comp_def, Publication.ofSlices]

private theorem interleaves_webPublished (n : Nat) : webLoops.Interleaves true
    (webPublished n) := by
  have hservices : (webPublished n).filterMap Publication.services? =
      (webLoops.services.announced webLoops.ctx 0 0 applyServices).take n := by
    rw [webPublished, List.filterMap_map]
    exact List.filterMap_some
  have hpods : (webPublished n).filterMap Publication.pods? = [] := by
    rw [webPublished, List.filterMap_map]
    exact List.filterMap_eq_nil_iff.mpr fun _ _ => rfl
  refine ⟨?_, ?_, ?_⟩
  · rw [hservices]
    exact List.take_prefix n _
  · rw [filter_webPublished]
    exact List.nil_prefix
  · rw [hpods]
    exact List.nil_prefix

theorem indexes_are_snapshots_web :
    (((webPublished 1).foldl publish (fresh true)).index.services.lookup "10.96.0.1").isSome ∧
      ((webPublished 2).foldl publish (fresh true)).index.services.lookup "10.96.0.1" = none ∧
      ∃ orders, (webPublished 2).foldl publish (fresh true) =
          (fresh true).apply orders (lastObjects (webPublished 2)).toClusterObjects ∧
        webLoops.services.IsSnapshot (lastObjects (webPublished 2)).services := by
  refine ⟨by decide +kernel, rfl, ?_⟩
  obtain ⟨orders, -, hwhole, hservices, -⟩ :=
    indexes_are_snapshots webLoops true (interleaves_webPublished 2)
  refine ⟨orders, hwhole ?_, hservices⟩
  rintro ⟨a, ha⟩
  rw [filter_webPublished] at ha
  cases ha

end ServiceWatcher

end KloudlensAggregator.Discovery
