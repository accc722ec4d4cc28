import EProxy.Kubernetes.Listers
import EProxy.Kubernetes.Queue
import EProxy.Kubernetes.Reflector

/-!
# The process

`Run` of the base controller waits until both informers have synced before it starts the worker.
`proxySystem` has this together with the two informers, their queues and their pointers, and with
the rate-limiting queue of the controller, in any interleaving, on empty maps. A `Pop` with all
its deltas is one step here; a handling that panics ends the process and is none.

The worker sees the objects the listers point to. `Proxy.Shows` says that these read as the
stores of a `QueuedCluster`, over which the handlers are modelled.

As long as what is heard reads as API objects, the process shows one cluster, and a run of
`queuedSystem` leads there, and one of `clusterSystem` to a cluster that this one represents
(`cluster_run_of_proxy`). So the invariants of the cluster are invariants of the process
(`lifts_invariant`).
-/

namespace EProxy

open Framework RateLimitingInterface PendingQueue DeltaQueue

/-! ### The process -/

/-- The calls of the registered handler between two states of an informer. -/
def Informer.news {α : Type} (st st' : Informer α) : List (Callback α) :=
  st'.callbacks.drop st.callbacks.length

/-- `Enqueue` adds a key if the object has one. -/
def BaseController.addKey {Q : Type} [PendingQueue Q Item] (b : BaseController Q) :
    Option String → BaseController Q
  | none => b
  | some key => { b with workqueue := RateLimitingInterface.add b.workqueue (.string key) }

/-- The two informers, the controller, the manager, and whether there is a worker. -/
structure Proxy (F Q : Type) where
  services : Feed F V1.Service
  slices : Feed F Discovery.EndpointSlice
  controller : BaseController Q
  serviceManager : ServiceManager
  working : Bool

namespace Proxy

variable {F Q : Type} [PendingQueue Q Item]

/-- The informer of the Services takes a step, and its handler is called. -/
def hearServices (p : Proxy F Q) (f : Feed F V1.Service) : Proxy F Q :=
  { p with
    services := f
    controller := ((p.services.informer.news f.informer).map
      (Callback.queueKey serviceType)).foldl BaseController.addKey p.controller }

/-- The informer of the endpoint slices takes a step, and its handler is called. -/
def hearSlices (p : Proxy F Q) (f : Feed F Discovery.EndpointSlice) : Proxy F Q :=
  { p with
    slices := f
    controller := ((p.slices.informer.news f.informer).map
      (Callback.queueKey endpointSliceType)).foldl BaseController.addKey p.controller }

/-- What the listers point to reads as what the cluster has. -/
structure Shows (p : Proxy F Q) (c : QueuedCluster Q) : Prop where
  services : serviceView.Refines p.services.informer c.serviceLister
  slices : sliceView.Refines p.slices.informer c.endpointsLister
  controller : p.controller = c.controller
  serviceManager : p.serviceManager = c.serviceManager

end Proxy

/-- The steps of the process. -/
inductive ProxyLabel where
  | service (l : WatchLabel V1.Service)
  | slice (l : WatchLabel Discovery.EndpointSlice)
  | synced
  | work (key : String) (env : Env)
  | elapse

/-- The objects that are heard of read as API objects. -/
def ProxyLabel.Readable : ProxyLabel → Prop
  | .service l => l.All serviceView.Readable
  | .slice l => l.All sliceView.Readable
  | .synced | .work _ _ | .elapse => True

/-- The process, from its start. -/
def proxySystem (F Q : Type) [DeltaQueue F String Cache.Delta] [PendingQueue Q Item] :
    System (Proxy F Q) ProxyLabel where
  init := ⟨.init, .init, ⟨PendingQueue.new, 0⟩, newServiceManager Maps.empty, false⟩
  step p l p' :=
    match l with
    | .service l => ∃ f, (feedSystem F V1.Service).step p.services l f ∧ p' = p.hearServices f
    | .slice l =>
      ∃ f, (feedSystem F Discovery.EndpointSlice).step p.slices l f ∧ p' = p.hearSlices f
    -- the informers are asked one after the other, and once synced they stay so
    | .synced => p.working = false ∧ hasSynced p.slices.fifo = true ∧
        hasSynced p.services.fifo = true ∧ p' = { p with working := true }
    -- the handlers run on what the listers point to
    | .work key env => p.working = true ∧ ∃ services slices res w exit b,
        serviceView.Refines p.services.informer services ∧
        sliceView.Refines p.slices.informer slices ∧
        (handler services slices env key).run ⟨p.serviceManager, []⟩ = (.ret res, w) ∧
        p.controller.processNextWorkItem (fun _ => res) = some (.string key, exit, b) ∧
        p' = { p with controller := b, serviceManager := w.mgr }
    | .elapse => ∃ q, Elapses p.controller.workqueue q ∧
        p' = { p with controller := { p.controller with workqueue := q } }

/-! ### The informers of the process -/

section Traces

variable {F Q : Type} {tr : List (Transition (Proxy F Q) ProxyLabel)}

/-- What the informer of the Services does in a run. -/
def serviceTrace (tr : List (Transition (Proxy F Q) ProxyLabel)) :
    List (Transition (Feed F V1.Service) (WatchLabel V1.Service)) :=
  tr.filterMap fun t =>
    match t.label with
    | .service l => some ⟨t.pre.services, l, t.post.services⟩
    | _ => none

/-- What the informer of the endpoint slices does in a run. -/
def sliceTrace (tr : List (Transition (Proxy F Q) ProxyLabel)) :
    List (Transition (Feed F Discovery.EndpointSlice) (WatchLabel Discovery.EndpointSlice)) :=
  tr.filterMap fun t =>
    match t.label with
    | .slice l => some ⟨t.pre.slices, l, t.post.slices⟩
    | _ => none

theorem readable_serviceTrace (hheard : ∀ t ∈ tr, t.label.Readable) :
    ∀ t ∈ serviceTrace tr, t.label.All serviceView.Readable := by
  intro t ht
  obtain ⟨u, hu, heq⟩ := List.mem_filterMap.mp ht
  have hread := hheard u hu
  split at heq
  · next l hl =>
    obtain rfl := Option.some.inj heq
    rw [hl] at hread
    exact hread
  · exact absurd heq (by simp)

theorem readable_sliceTrace (hheard : ∀ t ∈ tr, t.label.Readable) :
    ∀ t ∈ sliceTrace tr, t.label.All sliceView.Readable := by
  intro t ht
  obtain ⟨u, hu, heq⟩ := List.mem_filterMap.mp ht
  have hread := hheard u hu
  split at heq
  · next l hl =>
    obtain rfl := Option.some.inj heq
    rw [hl] at hread
    exact hread
  · exact absurd heq (by simp)

end Traces

section Informers

variable {F Q : Type} [DeltaQueue F String Cache.Delta] [PendingQueue Q Item] {p : Proxy F Q}
  {tr : List (Transition (Proxy F Q) ProxyLabel)}

theorem run_serviceTrace (hrun : Run (proxySystem F Q) (proxySystem F Q).init tr p) :
    Run (feedSystem F V1.Service) .init (serviceTrace tr) p.services := by
  refine hrun.component (π := Proxy.services) fun {p l p'} hstep => ?_
  cases l with
  | service l =>
    obtain ⟨f, hf, rfl⟩ := hstep
    exact Or.inr ⟨l, rfl, hf⟩
  | slice l =>
    obtain ⟨f, -, rfl⟩ := hstep
    exact Or.inl ⟨rfl, rfl⟩
  | synced =>
    obtain ⟨-, -, -, rfl⟩ := hstep
    exact Or.inl ⟨rfl, rfl⟩
  | work key env =>
    obtain ⟨-, _, _, _, _, _, _, -, -, -, -, rfl⟩ := hstep
    exact Or.inl ⟨rfl, rfl⟩
  | elapse =>
    obtain ⟨q, -, rfl⟩ := hstep
    exact Or.inl ⟨rfl, rfl⟩

theorem run_sliceTrace (hrun : Run (proxySystem F Q) (proxySystem F Q).init tr p) :
    Run (feedSystem F Discovery.EndpointSlice) .init (sliceTrace tr) p.slices := by
  refine hrun.component (π := Proxy.slices) fun {p l p'} hstep => ?_
  cases l with
  | service l =>
    obtain ⟨f, -, rfl⟩ := hstep
    exact Or.inl ⟨rfl, rfl⟩
  | slice l =>
    obtain ⟨f, hf, rfl⟩ := hstep
    exact Or.inr ⟨l, rfl, hf⟩
  | synced =>
    obtain ⟨-, -, -, rfl⟩ := hstep
    exact Or.inl ⟨rfl, rfl⟩
  | work key env =>
    obtain ⟨-, _, _, _, _, _, _, -, -, -, -, rfl⟩ := hstep
    exact Or.inl ⟨rfl, rfl⟩
  | elapse =>
    obtain ⟨q, -, rfl⟩ := hstep
    exact Or.inl ⟨rfl, rfl⟩

end Informers

/-! ### The cluster the process shows -/

section Deliveries

variable {Q : Type} [PendingQueue Q Item]

theorem BaseController.enqueue_eq (b : BaseController Q) (obj : Obj) :
    b.enqueue obj = b.addKey obj.queueKey := by
  unfold enqueue addKey
  rfl

theorem deliverAll_services (c : QueuedCluster Q) (deltas : List (Delta Api.Service)) :
    (deltas.map StoreEvent.service).foldl QueuedCluster.deliver c =
      { c with
        serviceLister := deltas.foldl Store.process c.serviceLister
        controller := (deltas.map (Delta.queueKey serviceType)).foldl BaseController.addKey
          c.controller } := by
  induction deltas generalizing c with
  | nil => rfl
  | cons d deltas ih =>
    rw [List.map_cons, List.foldl_cons, ih, List.map_cons, List.foldl_cons, List.foldl_cons,
      ← StoreEvent.queueKey_service, ← BaseController.enqueue_eq]
    rfl

theorem deliverAll_slices (c : QueuedCluster Q) (deltas : List (Delta Api.EndpointSlice)) :
    (deltas.map StoreEvent.endpointSlice).foldl QueuedCluster.deliver c =
      { c with
        endpointsLister := deltas.foldl Store.process c.endpointsLister
        controller := (deltas.map (Delta.queueKey endpointSliceType)).foldl BaseController.addKey
          c.controller } := by
  induction deltas generalizing c with
  | nil => rfl
  | cons d deltas ih =>
    rw [List.map_cons, List.foldl_cons, ih, List.map_cons, List.foldl_cons, List.foldl_cons,
      ← StoreEvent.queueKey_endpointSlice, ← BaseController.enqueue_eq]
    rfl

end Deliveries

theorem Informer.news_of_callbacks {α : Type} {st st' : Informer α} {calls : List (Callback α)}
    (h : st'.callbacks = st.callbacks ++ calls) : st.news st' = calls := by
  rw [news, h, List.drop_left]

namespace Proxy.Shows

section Reading

variable {F Q : Type} {p : Proxy F Q} {c c' : QueuedCluster Q}

/-- The process shows one cluster. -/
theorem unique (h : p.Shows c) (h' : p.Shows c') : c = c' := by
  obtain ⟨services, slices, controller, manager⟩ := c
  obtain ⟨services', slices', controller', manager'⟩ := c'
  obtain rfl : services = services' := h.services.unique h'.services serviceView_functional
  obtain rfl : slices = slices' := h.slices.unique h'.slices sliceView_functional
  obtain rfl : controller = controller' := h.controller.symm.trans h'.controller
  obtain rfl : manager = manager' := h.serviceManager.symm.trans h'.serviceManager
  rfl

end Reading

variable {F Q : Type} [DeltaQueue F String Cache.Delta] [PendingQueue Q Item] {p p' : Proxy F Q}
  {c : QueuedCluster Q}

theorem init : (proxySystem F Q).init.Shows (queuedSystem Q).init where
  services := View.refines_iff.mpr fun _ => .none
  slices := View.refines_iff.mpr fun _ => .none
  controller := rfl
  serviceManager := rfl

/-- A step of the informer of the Services is a row of events. -/
theorem hearServices (h : p.Shows c) {l : WatchLabel V1.Service} {f : Feed F V1.Service}
    (hstep : (feedSystem F V1.Service).step p.services l f)
    (hfed : Fed p.services.informer p.services.fifo)
    (hlegible : Legible serviceView.Readable p.services.informer p.services.fifo) :
    ∃ events : List StoreEvent,
      (p.hearServices f).Shows (events.foldl QueuedCluster.deliver c) := by
  obtain ⟨deltas, calls, hrefines, hcalls, hkeys⟩ :=
    Feed.step_refines hstep hfed hlegible h.services serviceType
  refine ⟨deltas.map .service, ?_⟩
  rw [deliverAll_services]
  refine ⟨hrefines, h.slices, ?_, h.serviceManager⟩
  rw [Proxy.hearServices, Informer.news_of_callbacks hcalls, hkeys, h.controller]

theorem hearSlices (h : p.Shows c) {l : WatchLabel Discovery.EndpointSlice}
    {f : Feed F Discovery.EndpointSlice}
    (hstep : (feedSystem F Discovery.EndpointSlice).step p.slices l f)
    (hfed : Fed p.slices.informer p.slices.fifo)
    (hlegible : Legible sliceView.Readable p.slices.informer p.slices.fifo) :
    ∃ events : List StoreEvent, (p.hearSlices f).Shows (events.foldl QueuedCluster.deliver c) := by
  obtain ⟨deltas, calls, hrefines, hcalls, hkeys⟩ :=
    Feed.step_refines hstep hfed hlegible h.slices endpointSliceType
  refine ⟨deltas.map .endpointSlice, ?_⟩
  rw [deliverAll_slices]
  refine ⟨h.services, hrefines, ?_, h.serviceManager⟩
  rw [Proxy.hearSlices, Informer.news_of_callbacks hcalls, hkeys, h.controller]

/-- The worker of the process does what the worker of the cluster does. -/
theorem work (h : p.Shows c) {key : String} {env : Env}
    (hstep : (proxySystem F Q).step p (.work key env) p') :
    ∃ c', (queuedSystem Q).step c (.work key env) c' ∧ p'.Shows c' := by
  obtain ⟨-, services, slices, res, w, exit, b, hservices, hslices, hrun, hproc, rfl⟩ := hstep
  -- there is one way to read what the listers point to
  obtain rfl : services = c.serviceLister := hservices.unique h.services serviceView_functional
  obtain rfl : slices = c.endpointsLister := hslices.unique h.slices sliceView_functional
  rw [h.serviceManager] at hrun
  rw [h.controller] at hproc
  exact ⟨_, ⟨res, w, exit, b, hrun, hproc, rfl⟩, h.services, h.slices, rfl, rfl⟩

theorem elapse (h : p.Shows c) (hstep : (proxySystem F Q).step p .elapse p') :
    ∃ c', (queuedSystem Q).step c .elapse c' ∧ p'.Shows c' := by
  obtain ⟨q, helapses, rfl⟩ := hstep
  rw [h.controller] at helapses
  refine ⟨_, ⟨q, helapses, rfl⟩, h.services, h.slices, ?_, h.serviceManager⟩
  rw [h.controller]

end Proxy.Shows

section Shown

variable {F Q : Type} [DeltaQueue F String Cache.Delta] [PendingQueue Q Item] {p : Proxy F Q}
  {tr : List (Transition (Proxy F Q) ProxyLabel)}

/-- **The invariant rule of the process**: what events, workers and ends of delays preserve holds
of the cluster that the process shows. -/
theorem shown_invariant {I : QueuedCluster Q → Prop} {C : QueuedCluster Q → QueuedCluster Q → Prop}
    (hrun : Run (proxySystem F Q) (proxySystem F Q).init tr p)
    (hheard : ∀ t ∈ tr, t.label.Readable) (h0 : I (queuedSystem Q).init)
    (hevent : ∀ {c} e, I c → I (c.deliver e))
    (hwork : ∀ {c key env c'}, I c → C c c' → (queuedSystem Q).step c (.work key env) c' → I c')
    (helapse : ∀ {c c'}, I c → (queuedSystem Q).step c .elapse c' → I c')
    (hC : ∀ t ∈ tr, ∀ {c c'}, t.pre.Shows c → t.post.Shows c' → C c c') :
    ∃ c, p.Shows c ∧ I c := by
  -- a `Pop` is a row of changes
  have hevents : ∀ {events : List StoreEvent} {c}, I c →
      I (events.foldl QueuedCluster.deliver c) := by
    intro events
    induction events with
    | nil => exact id
    | cons e events ih => exact fun hc => ih (hevent e hc)
  induction hrun with
  | nil => exact ⟨_, .init, h0⟩
  | @snoc p₁ p₂ tr l hrun hstep ih =>
    have hbefore : ∀ t ∈ tr, t.label.Readable := fun t ht => hheard t (List.mem_append_left _ ht)
    obtain ⟨c, hshows, hI⟩ := ih hbefore fun t ht => hC t (List.mem_append_left _ ht)
    cases l with
    | service l =>
      obtain ⟨f, hf, rfl⟩ := hstep
      obtain ⟨hfed, hlegible⟩ :=
        legible_of_run (run_serviceTrace hrun) (readable_serviceTrace hbefore)
      obtain ⟨events, hafter⟩ := hshows.hearServices hf hfed hlegible
      exact ⟨_, hafter, hevents hI⟩
    | slice l =>
      obtain ⟨f, hf, rfl⟩ := hstep
      obtain ⟨hfed, hlegible⟩ :=
        legible_of_run (run_sliceTrace hrun) (readable_sliceTrace hbefore)
      obtain ⟨events, hafter⟩ := hshows.hearSlices hf hfed hlegible
      exact ⟨_, hafter, hevents hI⟩
    | synced =>
      obtain ⟨-, -, -, rfl⟩ := hstep
      -- the barrier changes nothing that the cluster has
      exact ⟨c, ⟨hshows.services, hshows.slices, hshows.controller, hshows.serviceManager⟩, hI⟩
    | work key env =>
      obtain ⟨c', hstep', hafter⟩ := hshows.work hstep
      have hlast := hC _ (List.mem_append_right _ (List.mem_singleton_self _)) hshows hafter
      exact ⟨c', hafter, hwork hI hlast hstep'⟩
    | elapse =>
      obtain ⟨c', hstep', hafter⟩ := hshows.elapse hstep
      exact ⟨c', hafter, helapse hI hstep'⟩

/-- What holds of the cluster with a set of keys holds of one that the process represents. -/
theorem lifts_invariant {J : Cluster → Prop} {C : Cluster → Cluster → Prop}
    (hJ : ClusterInvariant J C) (hrun : Run (proxySystem F Q) (proxySystem F Q).init tr p)
    (hheard : ∀ t ∈ tr, t.label.Readable)
    (hC : ∀ t ∈ tr, ∀ {c c'}, t.pre.Shows c → t.post.Shows c' →
      ∀ {a a'}, Represents c a → Represents c' a' → C a a') :
    ∃ c, p.Shows c ∧ Lifts J c :=
  shown_invariant
    (C := fun c c' => ∀ {a a'}, Represents c a → Represents c' a' → C a a') hrun hheard
    (Lifts.init hJ) (fun e h => h.deliver hJ e) (fun h hC hstep => h.work hJ hstep hC)
    (fun h hstep => h.elapse hstep) fun t ht _ _ hpre hpost => hC t ht hpre hpost

end Shown

/-! ### A start -/

/-- Slice A as the watch delivers it before its pod is ready. -/
def rawUnready : Discovery.EndpointSlice :=
  { rawSlice "web-a" with endpoints := [⟨["10.244.0.1", "fd00::1"], some false⟩] }

/-- What the listers point to after the start. -/
def bothQueued : QueuedCluster (WorkQueue Item) :=
  ((queuedSystem _).init.deliver (.service (.set webObject))).deliver
    (.endpointSlice (.set webSliceUnready))

def webTaken : QueuedCluster (WorkQueue Item) := bothQueued.handled "Service/default/web"

/-- The slice has been handled, so the service is held without an endpoint. -/
def webHeld : QueuedCluster (WorkQueue Item) := webTaken.handled "EndpointSlice/default/web-a"

/-- The pod has become ready. -/
def podReady : QueuedCluster (WorkQueue Item) := webHeld.deliver (.endpointSlice (.set webSliceA))

def podPublished : QueuedCluster (WorkQueue Item) :=
  podReady.handled "EndpointSlice/default/web-a"

/-- A process over the queues of the library. -/
abbrev PlainProxy : Type := Proxy (ChangeQueue String Cache.Delta) (WorkQueue Item)

/-- The process after the worker has led the cluster it shows to `c`. -/
def Proxy.worked (p : PlainProxy) (c : QueuedCluster (WorkQueue Item)) : PlainProxy :=
  { p with controller := c.controller, serviceManager := c.serviceManager }

theorem step_worked {p : PlainProxy} {c c' : QueuedCluster (WorkQueue Item)} {key : String}
    {env : Env} (hworking : p.working = true) (h : p.Shows c)
    (hstep : (queuedSystem _).step c (.work key env) c') :
    (proxySystem _ _).step p (.work key env) (p.worked c') ∧ (p.worked c').Shows c' := by
  obtain ⟨res, w, exit, b, hrun, hproc, rfl⟩ := hstep
  rw [← h.serviceManager] at hrun
  rw [← h.controller] at hproc
  exact ⟨⟨hworking, _, _, res, w, exit, b, h.services, h.slices, hrun, hproc, rfl⟩,
    h.services, h.slices, rfl, rfl⟩

/-- The Services have been listed. -/
def servicesListed : PlainProxy :=
  (proxySystem _ _).init.hearServices (Feed.init.relist [rawService "web"] [])

/-- They are in the indexer. -/
def servicesStored : PlainProxy := servicesListed.hearServices servicesListed.services.popped

/-- The slices have been listed. -/
def slicesListed : PlainProxy := servicesStored.hearSlices (Feed.init.relist [rawUnready] [])

/-- They are in the indexer, too. -/
def slicesStored : PlainProxy := slicesListed.hearSlices slicesListed.slices.popped

/-- The worker has been started. -/
def booted : PlainProxy := { slicesStored with working := true }

/-- Both keys have been handled. -/
def bootedTaken : PlainProxy := booted.worked webTaken

def bootedHeld : PlainProxy := bootedTaken.worked webHeld

/-- The pod has become ready. -/
def readyHeard : PlainProxy :=
  bootedHeld.hearSlices (bootedHeld.slices.hear .updated (rawSlice "web-a"))

/-- The indexer has the slice as it is now. -/
def readyStored : PlainProxy := readyHeard.hearSlices readyHeard.slices.popped

/-- The slice has been handled a second time. -/
def readyPublished : PlainProxy := readyStored.worked podPublished

/-- The steps up to the worker. -/
def booting : List (Transition PlainProxy ProxyLabel) :=
  [⟨(proxySystem _ _).init, .service (.replace [rawService "web"] []), servicesListed⟩,
    ⟨servicesListed, .service .pop, servicesStored⟩,
    ⟨servicesStored, .slice (.replace [rawUnready] []), slicesListed⟩,
    ⟨slicesListed, .slice .pop, slicesStored⟩,
    ⟨slicesStored, .synced, booted⟩]

/-- The steps until the slice has been handled a second time. -/
def republishing : List (Transition PlainProxy ProxyLabel) :=
  booting ++ [⟨booted, .work "Service/default/web" .calm, bootedTaken⟩] ++
    [⟨bootedTaken, .work "EndpointSlice/default/web-a" .calm, bootedHeld⟩] ++
    [⟨bootedHeld, .slice (.modified (rawSlice "web-a")), readyHeard⟩] ++
    [⟨readyHeard, .slice .pop, readyStored⟩] ++
    [⟨readyStored, .work "EndpointSlice/default/web-a" .calm, readyPublished⟩]

/-- An indexer with one object. -/
theorem View.refines_single {α β : Type} [Resource α] [Object β] {view : View α β}
    {st : Informer α} {store : Store β} (key : String) {v : α} {o : β}
    (hvalue : st.values key = some v) (hobject : store.objects key = some o)
    (hreads : view.reads v o) (hitems : ∀ k, k ≠ key → st.items k = none)
    (hobjects : ∀ k, k ≠ key → store.objects k = none) : view.Refines st store := by
  rw [View.refines_iff]
  intro k
  by_cases hk : k = key
  · rw [hk, hvalue, hobject]
    exact .some hreads
  · rw [Informer.values, Informer.contents_of_none (hitems k hk), hobjects k hk]
    exact .none

theorem shows_booted : booted.Shows bothQueued where
  services := View.refines_single "default/web" rfl rfl ⟨⟨rfl, rfl⟩, rfl, rfl⟩
    (fun _ hk => Table.set_of_ne _ _ hk) fun _ hk => Table.set_of_ne _ _ hk
  slices := View.refines_single "default/web-a" rfl rfl ⟨⟨rfl, rfl⟩, rfl, rfl, rfl, rfl⟩
    (fun _ hk => Table.set_of_ne _ _ hk) fun _ hk => Table.set_of_ne _ _ hk
  controller := rfl
  serviceManager := rfl

theorem step_webTaken :
    (queuedSystem _).step bothQueued (.work "Service/default/web" .calm) webTaken :=
  step_queuedHandled rfl (by decide)

theorem step_webHeld :
    (queuedSystem _).step webTaken (.work "EndpointSlice/default/web-a" .calm) webHeld :=
  step_queuedHandled rfl (by decide)

theorem step_podPublished :
    (queuedSystem _).step podReady (.work "EndpointSlice/default/web-a" .calm) podPublished :=
  step_queuedHandled rfl (by decide)

theorem shows_bootedTaken : bootedTaken.Shows webTaken :=
  (step_worked rfl shows_booted step_webTaken).2

theorem shows_bootedHeld : bootedHeld.Shows webHeld :=
  (step_worked rfl shows_bootedTaken step_webHeld).2

theorem shows_readyStored : readyStored.Shows podReady where
  services := shows_bootedHeld.services
  slices := View.refines_single "default/web-a" rfl rfl ⟨⟨rfl, rfl⟩, rfl, rfl, rfl, rfl⟩
    (fun _ hk => (Table.set_of_ne _ _ hk).trans (Table.set_of_ne _ _ hk))
    fun _ hk => (Table.set_of_ne _ _ hk).trans (Table.set_of_ne _ _ hk)
  controller := rfl
  serviceManager := rfl

theorem shows_readyPublished : readyPublished.Shows podPublished :=
  (step_worked rfl shows_readyStored step_podPublished).2

theorem run_booting : Run (proxySystem _ _) (proxySystem _ _).init booting booted := by
  have hservices : (proxySystem _ _).step (proxySystem _ _).init
      (.service (.replace [rawService "web"] [])) servicesListed :=
    ⟨_, ⟨lists_of_empty rfl, rfl⟩, rfl⟩
  have hservicesPop : (proxySystem _ _).step servicesListed (.service .pop) servicesStored :=
    ⟨_, step_popped rfl, rfl⟩
  have hslices : (proxySystem _ _).step servicesStored (.slice (.replace [rawUnready] []))
      slicesListed := ⟨_, ⟨lists_of_empty rfl, rfl⟩, rfl⟩
  have hslicesPop : (proxySystem _ _).step slicesListed (.slice .pop) slicesStored :=
    ⟨_, step_popped rfl, rfl⟩
  have hsynced : (proxySystem _ _).step slicesStored .synced booted := ⟨rfl, rfl, rfl, rfl⟩
  exact .snoc (.snoc (.snoc (.snoc (.snoc (.nil _) hservices) hservicesPop) hslices) hslicesPop)
    hsynced

theorem run_republishing :
    Run (proxySystem _ _) (proxySystem _ _).init republishing readyPublished := by
  have htaken : (proxySystem _ _).step booted (.work "Service/default/web" .calm)
      bootedTaken := (step_worked rfl shows_booted step_webTaken).1
  have hheld : (proxySystem _ _).step bootedTaken (.work "EndpointSlice/default/web-a" .calm)
      bootedHeld := (step_worked rfl shows_bootedTaken step_webHeld).1
  have hready : (proxySystem _ _).step bootedHeld (.slice (.modified (rawSlice "web-a")))
      readyHeard := ⟨_, rfl, rfl⟩
  have hpop : (proxySystem _ _).step readyHeard (.slice .pop) readyStored :=
    ⟨_, step_popped rfl, rfl⟩
  have hwork : (proxySystem _ _).step readyStored (.work "EndpointSlice/default/web-a" .calm)
      readyPublished := (step_worked rfl shows_readyStored step_podPublished).1
  exact ((((run_booting.snoc htaken).snoc hheld).snoc hready).snoc hpop).snoc hwork

theorem readable_republishing : ∀ t ∈ republishing, t.label.Readable := by
  have hservice : serviceView.Readable (rawService "web") := ⟨webObject, ⟨rfl, rfl⟩, rfl, rfl⟩
  have hunready : sliceView.Readable rawUnready :=
    ⟨webSliceUnready, ⟨rfl, rfl⟩, rfl, rfl, rfl, rfl⟩
  have hready : sliceView.Readable (rawSlice "web-a") :=
    ⟨webSliceA, ⟨rfl, rfl⟩, rfl, rfl, rfl, rfl⟩
  simp only [republishing, booting, List.cons_append, List.nil_append, List.forall_mem_cons,
    List.not_mem_nil, false_imp_iff, implies_true, and_true]
  refine ⟨?_, trivial, ?_, trivial, trivial, trivial, trivial, hready, trivial, trivial⟩
  · exact List.forall_mem_singleton.mpr hservice
  · exact List.forall_mem_singleton.mpr hunready

/-! ### The process is a cluster -/

section Refinement

variable {F Q : Type} [DeltaQueue F String Cache.Delta] [PendingQueue Q Item] {p : Proxy F Q}
  {tr : List (Transition (Proxy F Q) ProxyLabel)}

/-- **The process is a cluster.** Over every run in which what is heard reads as API objects, in
any interleaving of what is heard, of `Pop`s, of workers and of ends of delays: the process shows
one cluster, and a run of `queuedSystem` leads there, and one of `clusterSystem` to a cluster that
this one represents. -/
theorem cluster_run_of_proxy (hrun : Run (proxySystem F Q) (proxySystem F Q).init tr p)
    (hheard : ∀ t ∈ tr, t.label.Readable) :
    ∃ c, (∀ c', p.Shows c' ↔ c' = c) ∧
      (∃ tr', Run (queuedSystem Q) (queuedSystem Q).init tr' c) ∧
      ∃ a, Represents c a ∧ ∃ tr', Run clusterSystem clusterSystem.init tr' a := by
  -- being reached by `queuedSystem` is an invariant of the cluster that is shown
  obtain ⟨c, hshows, tr', hreached⟩ := shown_invariant
    (I := fun c => ∃ tr', Run (queuedSystem Q) (queuedSystem Q).init tr' c)
    (C := fun _ _ => True) hrun hheard ⟨[], .nil _⟩
    (fun {c} e ⟨tr', hrun'⟩ =>
      have hstep : (queuedSystem Q).step c (.event e) (c.deliver e) := rfl
      ⟨_, hrun'.snoc hstep⟩)
    (fun ⟨tr', hrun'⟩ _ hstep => ⟨_, hrun'.snoc hstep⟩)
    (fun ⟨tr', hrun'⟩ hstep => ⟨_, hrun'.snoc hstep⟩) fun _ _ _ _ _ _ => trivial
  refine ⟨c, fun c' => ⟨fun hc' => hc'.unique hshows, ?_⟩, ⟨tr', hreached⟩,
    cluster_run_of_queued hreached⟩
  rintro rfl
  exact hshows

end Refinement

theorem republished_cluster_run :
    (∃ tr', Run (queuedSystem _) (queuedSystem _).init tr' podPublished) ∧
      ∃ a, Represents podPublished a ∧ ∃ tr', Run clusterSystem clusterSystem.init tr' a := by
  obtain ⟨c, honly, hruns⟩ := cluster_run_of_proxy run_republishing readable_republishing
  obtain rfl := (honly podPublished).mp shows_readyPublished
  exact hruns

end EProxy
