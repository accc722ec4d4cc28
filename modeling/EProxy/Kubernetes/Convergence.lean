import EProxy.Kubernetes.SpecChanges

/-!
# Quiescence

The controller is level-triggered: an event only puts a key on the queue, and whoever handles
the key reads the object as it is in the lister by then. The design is sound if a slice in the
lister is never forgotten, that is, if at every moment its key is on the queue or the manager
is up to date with it. `UpToDate` is that relation between a slice and the manager, and
`Tracked` the invariant; `tracked_step` says how each step keeps it:

* an event on the slice puts its key on the queue;
* a worker that handles the key brings the manager up to date, or puts the key back if the
  service is not in the lister (`work_slice_queue`);
* a worker that handles another key changes what is held under the label of another slice,
  as long as no two slices in the lister have one label (`SoleSlices`).

So when the queue has run empty the manager holds the ready addresses of every slice in the
lister (`quiescent_upToDate`), whatever the interleaving of events and workers was.
-/

namespace EProxy

open Framework

/-- What the manager holds for the service of the slice is what the slice says. -/
def UpToDate (c : Cluster) (slice : Api.EndpointSlice) : Prop :=
  if slice.terminating then c.serviceManager.services slice.labelKey = none
  else ∃ svc, c.serviceManager.services slice.labelKey = some svc ∧
    svc.endpoints = slice.readyAddresses

/-- No two slices in the lister are labelled with one service. -/
def SoleSlices (c : Cluster) : Prop :=
  ∀ k k' slice slice', c.endpointsLister.objects k = some slice →
    c.endpointsLister.objects k' = some slice' → slice.labelKey = slice'.labelKey → k = k'

/-- The lister has one slice at most. -/
theorem soleSlices_of_only {c : Cluster} {key : String}
    (honly : ∀ k slice, c.endpointsLister.objects k = some slice → k = key) : SoleSlices c :=
  fun k k' slice slice' hk hk' _ => (honly k slice hk).trans (honly k' slice' hk').symm

/-- Every slice in the lister is waiting to be handled, or the manager is up to date with
it. -/
def Tracked (c : Cluster) : Prop :=
  ∀ k slice, c.endpointsLister.objects k = some slice →
    sliceQueueKey slice ∈ c.workqueue.items ∨ UpToDate c slice

/-! ### Keys of slices -/

/-- A key is told by its parts. -/
theorem splitSlash_inj {a b : String} (h : splitSlash a = splitSlash b) : a = b := by
  have hparts : a.toList.splitOn '/' = b.toList.splitOn '/' :=
    List.map_injective_iff.mpr (fun _ _ => String.ofList_injective) h
  have hjoin : ['/'].intercalate (a.toList.splitOn '/') =
      ['/'].intercalate (b.toList.splitOn '/') :=
    congrArg _ hparts
  rw [List.intercalate_splitOn, List.intercalate_splitOn] at hjoin
  exact String.toList_inj.mp hjoin

theorem handler_sliceQueueKey (services : Store Api.Service) (slices : Store Api.EndpointSlice)
    (env : Env) (slice : Api.EndpointSlice) :
    handler services slices env (sliceQueueKey slice) =
      endpointHandler services slices env slice.ns.text slice.name.text := by
  rw [handler, splitSlash_sliceQueueKey]
  simp only [if_neg (by decide : endpointSliceType ≠ serviceType), if_true]

/-- The handler of a slice returns no error if slice and service are in the listers. -/
theorem handler_ne_error {services : Store Api.Service} {slices : Store Api.EndpointSlice}
    {env : Env} {slice : Api.EndpointSlice} {svc : Api.Service} {w : World}
    (hslice : slices.get slice.ns.text slice.name.text = some slice)
    (hsvc : services.get slice.ns.text slice.serviceName.text = some svc) (e : HandlerError) :
    ((handler services slices env (sliceQueueKey slice)).run w).1 ≠ .ret (some e) := by
  rw [handler_sliceQueueKey, endpointHandler_run]
  split
  · simp
  · next e' hcall => exact absurd hcall (endpointCall_ne_error hslice hsvc e')
  · next call hcall =>
    -- what the manager answers is dropped
    intro heq
    obtain ⟨b, s, -, hpure⟩ := Go.run_bind_eq_ret (Prod.ext heq rfl)
    have hret : (Outcome.ret none : Outcome MapError (Option HandlerError)) = .ret (some e) :=
      congrArg Prod.fst hpure
    exact absurd hret (by simp)

/-! ### What a worker does to the queue -/

variable {c c' : Cluster} {key : String} {env : Env}

/-- A worker takes its key off the queue, or puts it back if the handler reports an error. -/
theorem work_queue (h : clusterSystem.step c (.work key env) c') :
    ∃ r w, (handler c.serviceLister c.endpointsLister env key).run ⟨c.serviceManager, []⟩ =
        (.ret r, w) ∧
      ∀ k, k ∈ c'.workqueue.items ↔
        (k = key ∧ r.isSome) ∨ (k ≠ key ∧ k ∈ c.workqueue.items) := by
  obtain ⟨-, hproc⟩ := h
  unfold Cluster.processNextWorkItem at hproc
  rcases hrun : (handler c.serviceLister c.endpointsLister env key).run
    ⟨c.serviceManager, []⟩ with ⟨(_ | e) | p, w⟩
  · rw [hrun] at hproc
    refine ⟨none, w, rfl, fun k => ?_⟩
    rw [← Outcome.ret.inj hproc]
    change k ∈ (c.workqueue.discard key).items ↔ _
    rw [Typed.mem_discard]
    simp
  · rw [hrun] at hproc
    refine ⟨some e, w, rfl, fun k => ?_⟩
    rw [← Outcome.ret.inj hproc]
    change k ∈ ((c.workqueue.discard key).add key).items ↔ _
    rw [Typed.mem_add, Typed.mem_discard]
    simp
  · -- a panic is no step
    rw [hrun] at hproc
    exact absurd hproc (by simp)

/-- The other keys stay where they are. -/
theorem work_queue_of_ne (h : clusterSystem.step c (.work key env) c') {k : String}
    (hk : k ≠ key) : k ∈ c'.workqueue.items ↔ k ∈ c.workqueue.items := by
  obtain ⟨r, w, -, hqueue⟩ := work_queue h
  rw [hqueue]
  simp [hk]

/-- The handler of a slice in the lister reports an error exactly if the service of the slice
is not in the lister. -/
theorem work_slice_queue {slice : Api.EndpointSlice}
    (h : clusterSystem.step c (.work (sliceQueueKey slice) env) c')
    (hslice : c.endpointsLister.get slice.ns.text slice.name.text = some slice) :
    sliceQueueKey slice ∈ c'.workqueue.items ↔
      c.serviceLister.get slice.ns.text slice.serviceName.text = none := by
  obtain ⟨r, w, hrun, hqueue⟩ := work_queue h
  rw [hqueue, and_iff_right rfl, or_iff_left fun hne => hne.1 rfl]
  cases hsvc : c.serviceLister.get slice.ns.text slice.serviceName.text with
  | none =>
    have hcall : endpointCall c.serviceLister c.endpointsLister slice.ns.text slice.name.text =
        .ret (.error (.serviceNotFound slice.serviceName.text)) := by
      simp only [endpointCall, hslice, hsvc]
    rw [handler_sliceQueueKey, endpointHandler_run, hcall] at hrun
    obtain rfl := Outcome.ret.inj (congrArg Prod.fst hrun)
    exact iff_of_true rfl rfl
  | some svc =>
    refine iff_of_false (fun hsome => ?_) (by simp)
    obtain ⟨e, rfl⟩ := Option.isSome_iff_exists.mp hsome
    exact handler_ne_error hslice hsvc e (congrArg Prod.fst hrun)

/-! ### Steps -/

/-- A slice in the lister is the one the lister finds under its own name. -/
theorem get_of_listed {k : String} {slice : Api.EndpointSlice}
    (h : c.endpointsLister.objects k = some slice) :
    k = Object.key slice ∧
      c.endpointsLister.get slice.ns.text slice.name.text = some slice := by
  have hkey := c.endpointsLister.keyed h
  refine ⟨hkey.symm, ?_⟩
  have hget : c.endpointsLister.objects (Object.key slice) = some slice := by rw [hkey, h]
  rwa [Object.key_eq] at hget

/-- The manager is all that matters for being up to date. -/
theorem UpToDate.congr {slice : Api.EndpointSlice} (h : UpToDate c slice)
    (hsame : c'.serviceManager.services slice.labelKey =
      c.serviceManager.services slice.labelKey) : UpToDate c' slice := by
  unfold UpToDate at h ⊢
  rw [hsame]
  exact h

/-- **Handling a slice brings the manager up to date with it.** -/
theorem upToDate_work (hs : Sound c.serviceManager) {slice : Api.EndpointSlice}
    (h : clusterSystem.step c (.work (sliceQueueKey slice) env) c')
    (hslice : c.endpointsLister.get slice.ns.text slice.name.text = some slice)
    {svc : Api.Service}
    (hsvc : c.serviceLister.get slice.ns.text slice.serviceName.text = some svc) :
    UpToDate c' slice := by
  obtain ⟨bsvc, hnew, hheld⟩ := services_after_slice hs h hslice hsvc
  obtain ⟨-, -, rfl⟩ := (newService_eq_ret_iff svc slice bsvc).mp hnew
  unfold UpToDate
  rw [hheld]
  split
  · rfl
  · exact ⟨_, rfl, allocated_endpoints ⟨c.serviceManager, []⟩ (serviceOf svc slice)⟩

/-- A worker that handles another key does not touch what is held for the slice. -/
theorem services_work_of_ne (hs : Sound c.serviceManager) (hsole : SoleSlices c)
    (h : clusterSystem.step c (.work key env) c') {k : String} {slice : Api.EndpointSlice}
    (hslice : c.endpointsLister.objects k = some slice) (hkey : sliceQueueKey slice ≠ key) :
    c'.serviceManager.services slice.labelKey = c.serviceManager.services slice.labelKey := by
  rcases work_effect hs h with ⟨hsame, -⟩ |
    ⟨slice', svc, bsvc, s₁, hsplit, hslice', hsvc, hnew, hcl, hpub⟩
  · rw [hsame]
  · rw [services_after_work hsvc hnew hcl hpub, if_neg]
    -- one label would make the two slices one, and the keys with them
    intro hlabel
    obtain ⟨rfl, hget⟩ := get_of_listed hslice
    have hobj' : c.endpointsLister.objects (slice'.ns.text ++ "/" ++ slice'.name.text) =
        some slice' := hslice'
    have heq := hsole _ _ _ _ hslice hobj' hlabel
    rw [heq] at hslice
    obtain rfl := Option.some.inj (hslice.symm.trans hobj')
    exact hkey (splitSlash_inj ((splitSlash_sliceQueueKey slice).trans hsplit.symm))

/-- An event queues the key of the slice it is about. -/
theorem mem_deliver_of_mem {k : String} (h : k ∈ c.workqueue.items) (e : StoreEvent) :
    k ∈ (c.deliver e).workqueue.items := by
  change k ∈ (enqueue c.workqueue e.obj).items
  unfold enqueue
  split
  · exact h
  · rw [Typed.mem_add]
    exact Or.inr h

/-- A slice that is listed after an event was listed before it, or the event queued its key. -/
theorem listed_deliver {e : StoreEvent} {k : String} {slice : Api.EndpointSlice}
    (h : (c.deliver e).endpointsLister.objects k = some slice) :
    c.endpointsLister.objects k = some slice ∨
      sliceQueueKey slice ∈ (c.deliver e).workqueue.items := by
  cases e with
  | service d => exact Or.inl h
  | endpointSlice d =>
    cases d with
    | set o =>
      have hput : (c.endpointsLister.put o).objects k = some slice := h
      rw [Store.put_apply] at hput
      split at hput
      · obtain rfl := Option.some.inj hput
        refine Or.inr ?_
        change sliceQueueKey o ∈ (c.workqueue.add (sliceQueueKey o)).items
        rw [Typed.mem_add]
        exact Or.inl rfl
      · exact Or.inl hput
    | deleted o => exact Or.inl (Table.of_erase h)
    | deletedFinalStateUnknown key => exact Or.inl (Table.of_erase h)

theorem tracked_deliver (ht : Tracked c) (e : StoreEvent) : Tracked (c.deliver e) := by
  intro k slice hslice
  rcases listed_deliver hslice with hbefore | hqueued
  · rcases ht _ _ hbefore with hqueued | hdone
    · exact Or.inl (mem_deliver_of_mem hqueued e)
    · -- the manager is not touched by an event
      exact Or.inr (hdone.congr rfl)
  · exact Or.inl hqueued

/-- **The step.** -/
theorem tracked_step (hs : Sound c.serviceManager) (hsole : SoleSlices c) (ht : Tracked c)
    {l : ClusterLabel} (h : clusterSystem.step c l c') : Tracked c' := by
  intro k slice hslice
  cases l with
  | event e =>
    obtain rfl : c' = c.deliver e := h
    exact tracked_deliver ht e k slice hslice
  | work key env =>
    rw [(work_cases h).2.1] at hslice
    by_cases hkey : sliceQueueKey slice = key
    · subst hkey
      have hget := (get_of_listed hslice).2
      cases hsvc : c.serviceLister.get slice.ns.text slice.serviceName.text with
      | none => exact Or.inl ((work_slice_queue h hget).mpr hsvc)
      | some svc => exact Or.inr (upToDate_work hs h hget hsvc)
    · rcases ht _ _ hslice with hqueued | hdone
      · exact Or.inl ((work_queue_of_ne h hkey).mpr hqueued)
      · exact Or.inr (hdone.congr (services_work_of_ne hs hsole h hslice hkey))

/-! ### Runs -/

variable {tr : List (Transition Cluster ClusterLabel)}

theorem tracked_init : Tracked clusterSystem.init := by
  intro k slice hslice
  exact absurd hslice (by simp [clusterSystem, Store.empty])

theorem tracked_of_run (hrun : Run clusterSystem clusterSystem.init tr c)
    (hsole : ∀ t ∈ tr, SoleSlices t.pre) : Tracked c := by
  refine ((hrun.invariant_of (I := fun c => Sound c.serviceManager ∧ Tracked c)
    (C := fun c _ _ => SoleSlices c) ⟨sound_init, tracked_init⟩ ?_ hsole).1).2
  intro a l b hI hC hst
  exact ⟨sound_cluster_step hI.1 hst, tracked_step hI.1 hC hI.2 hst⟩

/-- The frontends are those of the live services, so they count what the slice says, too. -/
theorem UpToDate.frontends {slice : Api.EndpointSlice} {W : Prop} (h : UpToDate c slice)
    (hmirrors : W → Mirrors c.serviceManager) :
    if slice.terminating then c.serviceManager.services slice.labelKey = none
    else ∃ svc, c.serviceManager.services slice.labelKey = some svc ∧
      svc.endpoints = slice.readyAddresses ∧
      (W → ∀ p ∈ svc.portList, c.serviceManager.maps.frontend (svc.frontendKey p) =
        some ⟨svc.serviceId, UInt16.ofNat slice.readyAddresses.length⟩) := by
  unfold UpToDate at h
  split
  · next hterm =>
    rw [if_pos hterm] at h
    exact h
  · next hterm =>
    rw [if_neg hterm] at h
    obtain ⟨svc, hlive, heps⟩ := h
    refine ⟨svc, hlive, heps, fun hw p hp => ?_⟩
    rw [← heps]
    exact (hmirrors hw).frontend hlive hp

/-- **Convergence.** At the end of every run of informer events and workers, in any
interleaving, in which no two slices in the lister are ever labelled with one service: for
every slice in the lister whose key is not on the queue the manager is up to date. It holds
nothing for the service of a terminating slice, and for any other one a service with exactly
the ready addresses of the slice; and as long as the live services are well addressed, every
frontend of that service is in `serviceMap` and counts these addresses. -/
theorem quiescent_upToDate (hrun : Run clusterSystem clusterSystem.init tr c)
    (hsole : ∀ t ∈ tr, SoleSlices t.pre) {k : String} {slice : Api.EndpointSlice}
    (hslice : c.endpointsLister.objects k = some slice)
    (hquiet : sliceQueueKey slice ∉ c.workqueue.items) :
    if slice.terminating then c.serviceManager.services slice.labelKey = none
    else ∃ svc, c.serviceManager.services slice.labelKey = some svc ∧
      svc.endpoints = slice.readyAddresses ∧
      ((∀ t ∈ tr, WellAddressed t.post.serviceManager) → ∀ p ∈ svc.portList,
        c.serviceManager.maps.frontend (svc.frontendKey p) =
          some ⟨svc.serviceId, UInt16.ofNat slice.readyAddresses.length⟩) := by
  have hdone : UpToDate c slice := (tracked_of_run hrun hsole _ _ hslice).resolve_left hquiet
  exact hdone.frontends (mirrors_of_cluster_run hrun)

/-- The web service has one slice, and after both keys have been handled the manager has its
address. -/
theorem quiescent_published :
    ∃ svc, published.serviceManager.services "default/web" = some svc ∧
      svc.endpoints = [0x0100f40a] := by
  -- the slice is the only one that is ever listed
  have honly : ∀ t ∈ publishing, ∀ k slice, t.pre.endpointsLister.objects k = some slice →
      k = Object.key webSliceA := by
    have hput : ∀ k slice, announcedBoth.endpointsLister.objects k = some slice →
        k = Object.key webSliceA := by
      intro k slice hk
      have hlister : (Store.empty.put webSliceA).objects k = some slice := hk
      rw [Store.put_apply] at hlister
      split at hlister
      · next h => exact h
      · exact absurd hlister (by simp [Store.empty])
    have hempty : ∀ k slice, clusterSystem.init.endpointsLister.objects k = some slice →
        k = Object.key webSliceA := by
      intro k slice hk
      exact absurd hk (by simp [clusterSystem, Store.empty])
    intro t ht
    simp only [publishing, List.mem_cons, List.not_mem_nil, or_false] at ht
    rcases ht with rfl | rfl | rfl | rfl
    · exact hempty
    · exact hempty
    · exact hput
    · rw [(work_cases step_serviceHandled).2.1]
      exact hput
  have hsole : ∀ t ∈ publishing, SoleSlices t.pre := fun t ht => soleSlices_of_only (honly t ht)
  have hconv := quiescent_upToDate run_publishing hsole
    (by decide : published.endpointsLister.objects "default/web-a" = some webSliceA) (by decide)
  rw [if_neg (by decide)] at hconv
  obtain ⟨svc, hlive, heps, -⟩ := hconv
  exact ⟨svc, hlive, heps⟩

end EProxy
