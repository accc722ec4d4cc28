import EProxy.Kubernetes.Convergence
import EProxy.Kubernetes.Retries

/-!
# The queue of the cluster

`clusterSystem` keeps the keys to be handled in a set, and a key whose handler failed is in
the set again at once. The controller has a rate-limiting work queue instead: keys come off it
in an order of its own, and one that failed is added again when its delay has ended.

`queuedSystem` is the cluster with the base controller in place of the set, without a limit of
retries, as `NewController` builds it, over any queue with the interface `PendingQueue`. Delays
end at any time.

A key that is delayed and added before its delay ends is handled twice, the second time although
nothing has happened. To the cluster this is as if its object had been delivered once more as it
is (`exists_redelivery`). So every run of `queuedSystem` has a run of `clusterSystem` with the
same stores and the same manager, and with keys that are all pending (`cluster_run_of_queued`);
and what holds of the keys that are not in the set holds of those that are not pending
(`queued_upToDate`).
-/

namespace EProxy

open Framework RateLimitingInterface PendingQueue

section Model

variable {Q : Type} [PendingQueue Q Item]

/-- The stores of the informers, the base controller and the manager. -/
structure QueuedCluster (Q : Type) where
  serviceLister : Store Api.Service
  endpointsLister : Store Api.EndpointSlice
  controller : BaseController Q
  serviceManager : ServiceManager

/-- The cluster with a set of keys in place of the controller. -/
def QueuedCluster.withKeys (c : QueuedCluster Q) (keys : Typed String) : Cluster :=
  ⟨c.serviceLister, c.endpointsLister, keys, c.serviceManager⟩

/-- An informer changes its store and runs `Enqueue`. -/
def QueuedCluster.deliver (c : QueuedCluster Q) (e : StoreEvent) : QueuedCluster Q :=
  { c with
    serviceLister :=
      match e with
      | .service d => c.serviceLister.process d
      | .endpointSlice _ => c.serviceLister
    endpointsLister :=
      match e with
      | .service _ => c.endpointsLister
      | .endpointSlice d => c.endpointsLister.process d
    controller := c.controller.enqueue e.obj }

/-- A delay ends, or the cluster takes a step. -/
inductive QueuedLabel where
  | event (e : StoreEvent)
  | work (key : String) (env : Env)
  | elapse

/-- The cluster with the queue of the controller. -/
def queuedSystem (Q : Type) [PendingQueue Q Item] : System (QueuedCluster Q) QueuedLabel where
  init := ⟨Store.empty, Store.empty, ⟨new, 0⟩, newServiceManager Maps.empty⟩
  step c l c' :=
    match l with
    | .event e => c' = c.deliver e
    | .work key env => ∃ res w exit b,
        (handler c.serviceLister c.endpointsLister env key).run ⟨c.serviceManager, []⟩ =
          (.ret res, w) ∧
        c.controller.processNextWorkItem (fun _ => res) = some (.string key, exit, b) ∧
        c' = { c with controller := b, serviceManager := w.mgr }
    | .elapse => ∃ q, Elapses c.controller.workqueue q ∧
        c' = { c with controller := { c.controller with workqueue := q } }

/-- The cluster `a` has the stores and the manager of `c`, and keys that are pending. What is
pending is the key of some object. -/
structure Represents (c : QueuedCluster Q) (a : Cluster) : Prop where
  same : a = c.withKeys a.workqueue
  unlimited : c.controller.maxRetries = 0
  pending : ∀ {key}, key ∈ a.workqueue.items → Pending c.controller.workqueue (.string key)
  named : ∀ {item}, Pending c.controller.workqueue item →
    ∃ key, item = .string key ∧ ∃ obj : Obj, obj.queueKey = some key

end Model

/-! ### Redelivery -/

/-- The key of any object is in the set again after some event that changes nothing else. -/
theorem exists_redelivery (a : Cluster) {obj : Obj} {key : String}
    (hkey : obj.queueKey = some key) :
    ∃ e, a.deliver e = { a with workqueue := a.workqueue.add key } := by
  cases obj with
  | service o =>
    -- what is stored is set again, or a key that is not stored is deleted
    obtain ⟨d, hsame, hd⟩ := a.serviceLister.exists_process_eq o
    have hqueue : d.queueKey serviceType = some key := by
      rcases hd with rfl | ⟨o', rfl, hk, -⟩
      · exact hkey
      · rw [Delta.queueKey, hk]
        exact hkey
    refine ⟨.service d, ?_⟩
    rw [Cluster.deliver, hsame, enqueue, StoreEvent.queueKey_service, hqueue]
  | endpointSlice o =>
    obtain ⟨d, hsame, hd⟩ := a.endpointsLister.exists_process_eq o
    have hqueue : d.queueKey endpointSliceType = some key := by
      rcases hd with rfl | ⟨o', rfl, hk, -⟩
      · exact hkey
      · rw [Delta.queueKey, hk]
        exact hkey
    refine ⟨.endpointSlice d, ?_⟩
    rw [Cluster.deliver, hsame, enqueue, StoreEvent.queueKey_endpointSlice, hqueue]
  | deletedFinalStateUnknown key' =>
    exact absurd hkey (by simp [Obj.queueKey, Obj.metaNamespaceKeyFunc])

/-! ### Steps -/

section Steps

variable {Q : Type} [PendingQueue Q Item] {c c' : QueuedCluster Q} {a a' : Cluster}
  {key : String} {env : Env}

theorem represents_init : Represents (queuedSystem Q).init clusterSystem.init where
  same := rfl
  unlimited := rfl
  pending hkey := absurd hkey List.not_mem_nil
  named hitem := absurd hitem (pending_new _)

theorem Represents.deliver (h : Represents c a) (e : StoreEvent) :
    Represents (c.deliver e) (a.deliver e) := by
  have hsame : a.deliver e = (c.deliver e).withKeys (a.deliver e).workqueue := by
    rw [h.same]
    cases e <;> rfl
  cases hkey : e.obj.queueKey with
  | none =>
    -- an object without a key: `Enqueue` reports the error and adds nothing
    have hqueue : (a.deliver e).workqueue = a.workqueue := by
      show enqueue a.workqueue e.obj = _
      rw [enqueue, hkey]
    have hcontroller : (c.deliver e).controller = c.controller := by
      show c.controller.enqueue e.obj = _
      rw [BaseController.enqueue, hkey]
    refine ⟨hsame, hcontroller ▸ h.unlimited, ?_, ?_⟩
    · rw [hqueue, hcontroller]
      exact h.pending
    · rw [hcontroller]
      exact h.named
  | some key =>
    have hqueue : (a.deliver e).workqueue = a.workqueue.add key := by
      show enqueue a.workqueue e.obj = _
      rw [enqueue, hkey]
    have hcontroller : (c.deliver e).controller =
        { c.controller with workqueue := add c.controller.workqueue (.string key) } := by
      show c.controller.enqueue e.obj = _
      rw [BaseController.enqueue, hkey]
    refine ⟨hsame, hcontroller ▸ h.unlimited, fun {k} hk => ?_, fun {item} hitem => ?_⟩
    · rw [hqueue, Typed.mem_add] at hk
      rw [hcontroller, pending_add, Item.string.injEq]
      exact hk.imp id h.pending
    · rw [hcontroller, pending_add] at hitem
      rcases hitem with rfl | hitem
      · exact ⟨key, rfl, e.obj, hkey⟩
      · exact h.named hitem

theorem Represents.elapse (h : Represents c a)
    (hstep : (queuedSystem Q).step c .elapse c') : Represents c' a := by
  obtain ⟨q, helapses, rfl⟩ := hstep
  exact ⟨h.same, h.unlimited, fun hk => (pending_elapses helapses _).mpr (h.pending hk),
    fun hitem => h.named ((pending_elapses helapses _).mp hitem)⟩

/-- A pending key is in the set, or comes there without any other change. -/
theorem Represents.recall (h : Represents c a)
    (hkey : Pending c.controller.workqueue (.string key)) :
    ∃ events : List StoreEvent, key ∈ (events.foldl Cluster.deliver a).workqueue.items ∧
      Represents c (events.foldl Cluster.deliver a) := by
  by_cases hmem : key ∈ a.workqueue.items
  · exact ⟨[], hmem, h⟩
  · obtain ⟨key', heq, obj, hobj⟩ := h.named hkey
    obtain rfl := Item.string.inj heq
    -- the set has lost the key when it was handled while its delay was running
    obtain ⟨e, he⟩ := exists_redelivery a hobj
    refine ⟨[e], ?_⟩
    rw [List.foldl_cons, List.foldl_nil, he]
    refine ⟨(Typed.mem_add ..).mpr (Or.inl rfl), ?_, h.unlimited, fun {k} hk => ?_, h.named⟩
    · rw [h.same]
      rfl
    · rcases (Typed.mem_add ..).mp hk with rfl | hk
      · exact hkey
      · exact h.pending hk

/-- What a worker leaves on the queue: the others are pending as before, and the key is if its
handler failed. -/
theorem pending_process {b b' : BaseController Q} {res : Option HandlerError} {exit : WorkExit}
    (hproc : b.processNextWorkItem (fun _ => res) = some (.string key, exit, b'))
    (hunlimited : b.maxRetries = 0) :
    b'.maxRetries = 0 ∧ Pending b.workqueue (.string key) ∧
      (res.isSome → Pending b'.workqueue (.string key)) ∧
      ∀ item, item ≠ .string key → (Pending b'.workqueue item ↔ Pending b.workqueue item) := by
  obtain ⟨q, b₁, hget, hsync, rfl⟩ := processNextWorkItem_eq_some hproc
  cases res with
  | none =>
    -- `Forget` and `Done`: other items are not touched
    rw [BaseController.syncItem_synced rfl] at hsync
    obtain ⟨-, rfl⟩ := Prod.mk.inj hsync
    refine ⟨hunlimited, pending_of_get hget, fun h => absurd h Bool.false_ne_true,
      fun item hne => ?_⟩
    rw [pending_done, pending_forget, pending_get hget _ hne]
  | some err =>
    -- with `MaxRetries` at zero a key that failed is always put back
    have hleft : ({ b with workqueue := q } : BaseController Q).RetriesLeft key :=
      Or.inl hunlimited
    rw [BaseController.syncItem_requeued rfl hleft] at hsync
    obtain ⟨-, rfl⟩ := Prod.mk.inj hsync
    refine ⟨hunlimited, pending_of_get hget, fun _ => ?_, fun item hne => ?_⟩
    · rw [pending_done, pending_addRateLimited]
      exact Or.inl rfl
    · rw [pending_done, pending_addRateLimited, or_iff_right hne, pending_get hget _ hne]

/-- A worker of the cluster does on the set what a worker does on the queue. -/
theorem Represents.work (h : Represents c a) (hmem : key ∈ a.workqueue.items)
    (hstep : (queuedSystem Q).step c (.work key env) c') :
    ∃ a', clusterSystem.step a (.work key env) a' ∧ Represents c' a' := by
  obtain ⟨res, w, exit, b, hrun, hproc, rfl⟩ := hstep
  obtain ⟨hunlimited, hkey, hback, hothers⟩ := pending_process hproc h.unlimited
  have hrun' : (handler a.serviceLister a.endpointsLister env key).run ⟨a.serviceManager, []⟩ =
      (.ret res, w) := by
    rw [h.same]
    exact hrun
  -- the key itself stays named, pending or not
  have hnamed : ∀ {item}, Pending b.workqueue item →
      ∃ key, item = .string key ∧ ∃ obj : Obj, obj.queueKey = some key := by
    intro item hitem
    by_cases hne : item = .string key
    · exact h.named (hne ▸ hkey)
    · exact h.named ((hothers item hne).mp hitem)
  have hkept : ∀ {k}, k ∈ (a.workqueue.discard key).items → Pending b.workqueue (.string k) := by
    intro k hk
    obtain ⟨hne, hk⟩ := (Typed.mem_discard ..).mp hk
    exact (hothers _ fun heq => hne (Item.string.inj heq)).mpr (h.pending hk)
  cases res with
  | none =>
    refine ⟨{ a with workqueue := a.workqueue.discard key, serviceManager := w.mgr },
      ⟨hmem, ?_⟩, ?_, hunlimited, hkept, hnamed⟩
    · rw [Cluster.processNextWorkItem, hrun']
    · rw [h.same]
      rfl
  | some err =>
    refine ⟨{ a with workqueue := (a.workqueue.discard key).add key, serviceManager := w.mgr },
      ⟨hmem, ?_⟩, ?_, hunlimited, fun {k} hk => ?_, hnamed⟩
    · rw [Cluster.processNextWorkItem, hrun']
    · rw [h.same]
      rfl
    · rcases (Typed.mem_add ..).mp hk with rfl | hk
      · exact hback rfl
      · exact hkept hk

end Steps

/-! ### Runs -/

section Runs

variable {Q : Type} [PendingQueue Q Item] {c c' : QueuedCluster Q} {J : Cluster → Prop}
  {C : Cluster → Cluster → Prop} {tr : List (Transition (QueuedCluster Q) QueuedLabel)}

/-- What events preserve, and workers as long as `C` holds of their steps. -/
structure ClusterInvariant (J : Cluster → Prop) (C : Cluster → Cluster → Prop) : Prop where
  init : J clusterSystem.init
  event : ∀ {a} e, J a → J (a.deliver e)
  work : ∀ {a key env a'}, J a → C a a' → clusterSystem.step a (.work key env) a' → J a'

theorem ClusterInvariant.events (hJ : ClusterInvariant J C) {a : Cluster} (h : J a)
    (events : List StoreEvent) : J (events.foldl Cluster.deliver a) := by
  induction events generalizing a with
  | nil => exact h
  | cons e events ih => exact ih (hJ.event e h)

/-- `J` holds of a cluster that `c` represents. -/
def Lifts (J : Cluster → Prop) (c : QueuedCluster Q) : Prop := ∃ a, Represents c a ∧ J a

theorem Lifts.init (hJ : ClusterInvariant J C) : Lifts J (queuedSystem Q).init :=
  ⟨_, represents_init, hJ.init⟩

theorem Lifts.deliver (h : Lifts J c) (hJ : ClusterInvariant J C) (e : StoreEvent) :
    Lifts J (c.deliver e) := by
  obtain ⟨a, hrep, ha⟩ := h
  exact ⟨_, hrep.deliver e, hJ.event e ha⟩

theorem Lifts.elapse (h : Lifts J c) (hstep : (queuedSystem Q).step c .elapse c') :
    Lifts J c' := by
  obtain ⟨a, hrep, ha⟩ := h
  exact ⟨a, hrep.elapse hstep, ha⟩

theorem Lifts.work (h : Lifts J c) (hJ : ClusterInvariant J C) {key : String} {env : Env}
    (hstep : (queuedSystem Q).step c (.work key env) c')
    (hC : ∀ {a a'}, Represents c a → Represents c' a' → C a a') : Lifts J c' := by
  obtain ⟨a, hrep, ha⟩ := h
  -- the key may have left the set when it was handled before its delay had ended
  have hkey : Pending c.controller.workqueue (.string key) := by
    obtain ⟨res, w, exit, b, -, hproc, -⟩ := hstep
    exact (pending_process hproc hrep.unlimited).2.1
  obtain ⟨events, hmem, hrep⟩ := hrep.recall hkey
  obtain ⟨a', hwork, hrep'⟩ := hrep.work hmem hstep
  exact ⟨a', hrep', hJ.work (hJ.events ha events) (hC hrep hrep') hwork⟩

/-- **The invariant rule of the queue.** -/
theorem queued_invariant (hJ : ClusterInvariant J C)
    (hrun : Run (queuedSystem Q) (queuedSystem Q).init tr c)
    (hC : ∀ t ∈ tr, ∀ {a a'}, Represents t.pre a → Represents t.post a' → C a a') :
    Lifts J c := by
  induction hrun with
  | nil => exact .init hJ
  | @snoc c₁ c₂ tr l hrun hstep ih =>
    have hbefore := ih fun t ht => hC t (List.mem_append_left _ ht)
    cases l with
    | event e =>
      obtain rfl : c₂ = c₁.deliver e := hstep
      exact hbefore.deliver hJ e
    | work key env =>
      exact hbefore.work hJ hstep
        (hC _ (List.mem_append_right _ (List.mem_singleton_self _)))
    | elapse => exact hbefore.elapse hstep

/-- Being reached is an invariant. -/
theorem reached_invariant : ClusterInvariant
    (fun a => ∃ tr, Run clusterSystem clusterSystem.init tr a) fun _ _ => True where
  init := ⟨[], .nil _⟩
  event {a} e := by
    rintro ⟨tr, hrun⟩
    have hstep : clusterSystem.step a (.event e) (a.deliver e) := rfl
    exact ⟨_, hrun.snoc hstep⟩
  work := by
    rintro a key env a' ⟨tr, hrun⟩ - hstep
    exact ⟨_, hrun.snoc hstep⟩

/-- **The queue refines the set.** -/
theorem cluster_run_of_queued (hrun : Run (queuedSystem Q) (queuedSystem Q).init tr c) :
    ∃ a, Represents c a ∧ ∃ tr', Run clusterSystem clusterSystem.init tr' a :=
  queued_invariant reached_invariant hrun fun _ _ _ _ _ _ => trivial

theorem tracked_invariant : ClusterInvariant
    (fun a => Sound a.serviceManager ∧ Tracked a) fun a _ => SoleSlices a where
  init := ⟨sound_init, tracked_init⟩
  event e h := ⟨h.1, tracked_deliver h.2 e⟩
  work h hsole hstep := ⟨sound_cluster_step h.1 hstep, tracked_step h.1 hsole h.2 hstep⟩

theorem mirrors_invariant : ClusterInvariant
    (fun a => Sound a.serviceManager ∧ WellAddressed a.serviceManager ∧ Mirrors a.serviceManager)
    fun _ a => WellAddressed a.serviceManager where
  init := ⟨sound_init, wellAddressed_init, mirrors_init⟩
  event _ h := h
  work := by
    rintro a key env a' ⟨hs, hwa, hmir⟩ hwa' hstep
    exact ⟨sound_cluster_step hs hstep, hwa', mirrors_cluster_step hs hwa hwa' hmir hstep⟩

theorem Represents.soleSlices {a : Cluster} (h : Represents c a)
    (hsole : SoleSlices (c.withKeys .new)) : SoleSlices a := by
  rw [h.same]
  exact hsole

theorem Represents.serviceManager {a : Cluster} (h : Represents c a) :
    a.serviceManager = c.serviceManager := by
  rw [h.same]
  rfl

/-- A slice in the lister whose key is not pending. -/
theorem Lifts.upToDate (h : Lifts (fun a => Sound a.serviceManager ∧ Tracked a) c) {k : String}
    {slice : Api.EndpointSlice} (hslice : c.endpointsLister.objects k = some slice)
    (hquiet : ¬ Pending c.controller.workqueue (.string (sliceQueueKey slice))) :
    UpToDate (c.withKeys .new) slice := by
  obtain ⟨a, hrep, -, htracked⟩ := h
  have hlisted : a.endpointsLister.objects k = some slice := by
    rw [hrep.same]
    exact hslice
  have hdone := (htracked k slice hlisted).resolve_left (mt hrep.pending hquiet)
  rw [hrep.same] at hdone
  exact hdone

theorem Lifts.mirrors (h : Lifts (fun a => Sound a.serviceManager ∧
      WellAddressed a.serviceManager ∧ Mirrors a.serviceManager) c) :
    Mirrors c.serviceManager := by
  obtain ⟨a, hrep, -, -, hmir⟩ := h
  rw [← hrep.serviceManager]
  exact hmir

/-- **Convergence of the controller with its queue.** Over every queue from which nothing is
lost, and every run of informer events, workers and ends of delays, in any interleaving, in which
no two slices in the lister are ever labelled with one service: for every slice in the lister
whose key is neither on the queue nor delayed the manager is up to date, and so are the frontends
as long as the live services are well addressed. -/
theorem queued_upToDate (hrun : Run (queuedSystem Q) (queuedSystem Q).init tr c)
    (hsole : ∀ t ∈ tr, SoleSlices (t.pre.withKeys .new)) {k : String} {slice : Api.EndpointSlice}
    (hslice : c.endpointsLister.objects k = some slice)
    (hquiet : ¬ Pending c.controller.workqueue (.string (sliceQueueKey slice))) :
    if slice.terminating then c.serviceManager.services slice.labelKey = none
    else ∃ svc, c.serviceManager.services slice.labelKey = some svc ∧
      svc.endpoints = slice.readyAddresses ∧
      ((∀ t ∈ tr, WellAddressed t.post.serviceManager) → ∀ p ∈ svc.portList,
        c.serviceManager.maps.frontend (svc.frontendKey p) =
          some ⟨svc.serviceId, UInt16.ofNat slice.readyAddresses.length⟩) := by
  have hlifts := queued_invariant tracked_invariant hrun fun t ht _ _ hpre _ =>
    hpre.soleSlices (hsole t ht)
  refine (hlifts.upToDate hslice hquiet).frontends fun hwa => ?_
  exact (queued_invariant mirrors_invariant hrun fun t ht _ _ _ hpost =>
    hpost.serviceManager ▸ hwa t ht).mirrors

end Runs

/-! ### A delay that ends too late -/

section Samples

variable {Q : Type} [PendingQueue Q Item]

/-- The cluster after the worker has handled the key, if the handler returns. -/
def QueuedCluster.handled (c : QueuedCluster Q) (key : String) : QueuedCluster Q :=
  match (handler c.serviceLister c.endpointsLister .calm key).run ⟨c.serviceManager, []⟩ with
  | (.ret res, w) =>
    match c.controller.processNextWorkItem (fun _ => res) with
    | some (_, _, b) => { c with controller := b, serviceManager := w.mgr }
    | none => c
  | (.panic _, _) => c

theorem step_queuedHandled {c : QueuedCluster Q} {key : String}
    (hfirst : (RateLimitingInterface.get c.controller.workqueue).map Prod.fst =
      some (.string key))
    (hret : ((handler c.serviceLister c.endpointsLister .calm key).run
      ⟨c.serviceManager, []⟩).1.Returned) :
    (queuedSystem Q).step c (.work key .calm) (c.handled key) := by
  unfold QueuedCluster.handled
  obtain ⟨⟨item, q⟩, hget, hitem⟩ := Option.map_eq_some_iff.mp hfirst
  obtain rfl : item = .string key := hitem
  rcases hrun : (handler c.serviceLister c.endpointsLister .calm key).run
    ⟨c.serviceManager, []⟩ with ⟨res | p, w⟩
  · refine ⟨res, w, _, _, hrun, processNextWorkItem_of_get hget rfl, ?_⟩
    simp only [processNextWorkItem_of_get hget rfl]
  · rw [hrun] at hret
    exact hret.elim

end Samples

/-- The slice is heard of before its Service. -/
def sliceEarly : QueuedCluster (WorkQueue Item) :=
  (queuedSystem _).init.deliver (.endpointSlice (.set webSliceUnready))

/-- Its handler has failed, and the key is delayed. -/
def sliceDelayed : QueuedCluster (WorkQueue Item) :=
  sliceEarly.handled "EndpointSlice/default/web-a"

def serviceCome : QueuedCluster (WorkQueue Item) :=
  sliceDelayed.deliver (.service (.set webObject))

/-- The slice is heard of again, before the delay has ended. -/
def sliceRepeated : QueuedCluster (WorkQueue Item) :=
  serviceCome.deliver (.endpointSlice (.set webSliceUnready))

def serviceDone : QueuedCluster (WorkQueue Item) := sliceRepeated.handled "Service/default/web"

/-- The service is held without an endpoint, and the key of the slice is still delayed. -/
def sliceDone : QueuedCluster (WorkQueue Item) :=
  serviceDone.handled "EndpointSlice/default/web-a"

/-- The delay has ended. -/
def delayEnded : QueuedCluster (WorkQueue Item) :=
  { sliceDone with
    controller := { sliceDone.controller with
      workqueue := sliceDone.controller.workqueue.elapse
        (.string "EndpointSlice/default/web-a") } }

/-- The pod has become ready. -/
def sliceChanged : QueuedCluster (WorkQueue Item) :=
  delayEnded.deliver (.endpointSlice (.set webSliceA))

def sliceDoneAgain : QueuedCluster (WorkQueue Item) :=
  sliceChanged.handled "EndpointSlice/default/web-a"

/-- The steps up to here. -/
def delaying : List (Transition (QueuedCluster (WorkQueue Item)) QueuedLabel) :=
  [⟨(queuedSystem _).init, .event (.endpointSlice (.set webSliceUnready)), sliceEarly⟩,
    ⟨sliceEarly, .work "EndpointSlice/default/web-a" .calm, sliceDelayed⟩,
    ⟨sliceDelayed, .event (.service (.set webObject)), serviceCome⟩,
    ⟨serviceCome, .event (.endpointSlice (.set webSliceUnready)), sliceRepeated⟩,
    ⟨sliceRepeated, .work "Service/default/web" .calm, serviceDone⟩,
    ⟨serviceDone, .work "EndpointSlice/default/web-a" .calm, sliceDone⟩,
    ⟨sliceDone, .elapse, delayEnded⟩,
    ⟨delayEnded, .event (.endpointSlice (.set webSliceA)), sliceChanged⟩,
    ⟨sliceChanged, .work "EndpointSlice/default/web-a" .calm, sliceDoneAgain⟩]

theorem run_delaying :
    Run (queuedSystem _) (queuedSystem _).init delaying sliceDoneAgain := by
  have hearly : (queuedSystem (WorkQueue Item)).step (queuedSystem _).init
      (.event (.endpointSlice (.set webSliceUnready))) sliceEarly := rfl
  have hdelayed : (queuedSystem _).step sliceEarly
      (.work "EndpointSlice/default/web-a" .calm) sliceDelayed :=
    step_queuedHandled rfl (by decide)
  have hservice : (queuedSystem _).step sliceDelayed (.event (.service (.set webObject)))
      serviceCome := rfl
  have hrepeated : (queuedSystem _).step serviceCome
      (.event (.endpointSlice (.set webSliceUnready))) sliceRepeated := rfl
  have hdone : (queuedSystem _).step sliceRepeated (.work "Service/default/web" .calm)
      serviceDone := step_queuedHandled rfl (by decide)
  have hslice : (queuedSystem _).step serviceDone
      (.work "EndpointSlice/default/web-a" .calm) sliceDone :=
    step_queuedHandled rfl (by decide)
  have helapse : (queuedSystem _).step sliceDone .elapse delayEnded :=
    ⟨_, ⟨_, by decide, rfl⟩, rfl⟩
  have hchanged : (queuedSystem _).step delayEnded (.event (.endpointSlice (.set webSliceA)))
      sliceChanged := rfl
  have hagain : (queuedSystem _).step sliceChanged
      (.work "EndpointSlice/default/web-a" .calm) sliceDoneAgain :=
    step_queuedHandled rfl (by decide)
  exact .snoc (.snoc (.snoc (.snoc (.snoc (.snoc (.snoc (.snoc (.snoc (.nil _) hearly) hdelayed)
    hservice) hrepeated) hdone) hslice) helapse) hchanged) hagain

theorem sole_delaying : ∀ t ∈ delaying, SoleSlices (t.pre.withKeys .new) := by
  have hnone : ∀ k slice, (Store.empty : Store Api.EndpointSlice).objects k = some slice →
      k = "default/web-a" := fun k slice hk => absurd hk (by simp [Store.empty])
  have hput : ∀ {st : Store Api.EndpointSlice} {o : Api.EndpointSlice},
      (∀ k slice, st.objects k = some slice → k = "default/web-a") →
      Object.key o = "default/web-a" →
      ∀ k slice, (st.put o).objects k = some slice → k = "default/web-a" := by
    intro st o hst ho k slice hk
    rw [Store.put_apply] at hk
    split at hk
    · next heq => exact heq.trans ho
    · exact hst k slice hk
  have hone := hput hnone (by decide : Object.key webSliceUnready = _)
  have htwo := hput hone (by decide : Object.key webSliceUnready = _)
  have hthree := hput htwo (by decide : Object.key webSliceA = _)
  simp only [delaying, List.forall_mem_cons, List.not_mem_nil, false_imp_iff, implies_true,
    and_true]
  exact ⟨soleSlices_of_only hnone, soleSlices_of_only hone, soleSlices_of_only hone,
    soleSlices_of_only hone, soleSlices_of_only htwo, soleSlices_of_only htwo,
    soleSlices_of_only htwo, soleSlices_of_only htwo, soleSlices_of_only hthree⟩

/-- The key is delayed although its slice has just been handled; when it has been handled once
more the manager has the address of the slice. -/
theorem delaying_upToDate :
    Pending sliceDone.controller.workqueue (.string "EndpointSlice/default/web-a") ∧
    ∃ svc, sliceDoneAgain.serviceManager.services webSliceA.labelKey = some svc ∧
      svc.endpoints = webSliceA.readyAddresses := by
  have hquiet : ¬ Pending sliceDoneAgain.controller.workqueue
      (.string "EndpointSlice/default/web-a") := by
    rintro (hqueued | hdirty | hwaiting)
    · exact absurd hqueued (by decide)
    · exact absurd hdirty (by decide)
    · exact absurd hwaiting (by decide)
  have hdone := queued_upToDate run_delaying sole_delaying
    (rfl : sliceDoneAgain.endpointsLister.objects "default/web-a" = some webSliceA) hquiet
  rw [if_neg (by decide)] at hdone
  obtain ⟨svc, hlive, heps, -⟩ := hdone
  exact ⟨Or.inr (Or.inr (by decide)), svc, hlive, heps⟩

end EProxy
