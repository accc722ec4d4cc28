import EProxy.Kubernetes.Lifecycle

/-!
# From the API server to the data path

What the lists and watch events of a run have said last is `server`. Three results say how far
the process follows it, whatever the interleaving of reflectors, informers, worker and delays.

* `handled_after_sync`: the worker finds what has been there from the start. No handling fails
  because a list has not been worked off yet.
* `manager_follows_server`: when nothing is waiting, the manager has what the API server has.
* `frontends_follow_server`: so has `serviceMap`.
-/

namespace EProxy

open Framework RateLimitingInterface PendingQueue DeltaQueue

/-! ### The barrier -/

section Barrier

variable {F Q : Type} [DeltaQueue F String Cache.Delta] [PendingQueue Q Item] {p : Proxy F Q}
  {tr : List (Transition (Proxy F Q) ProxyLabel)} {c : QueuedCluster Q}

/-- Once an informer has synced it stays so. -/
theorem Feed.hasSynced_step {α : Type} [Resource α] {f f' : Feed F α} {l : WatchLabel α}
    (hstep : (feedSystem F α).step f l f') (h : hasSynced f.fifo = true) :
    hasSynced f'.fifo = true := by
  cases l with
  | added o =>
    obtain rfl : f' = f.hear .added o := hstep
    exact hasSynced_add _ _ h
  | modified o =>
    obtain rfl : f' = f.hear .updated o := hstep
    exact hasSynced_add _ _ h
  | deleted o =>
    obtain rfl : f' = f.hearGone o := hstep
    exact hasSynced_delete _ _ _ h
  | replace list known =>
    obtain ⟨-, rfl⟩ := hstep
    exact hasSynced_replace _ _ _ h
  | pop =>
    obtain ⟨key, fifo, hpop, rfl⟩ := hstep
    exact hasSynced_pop h hpop

/-- Where there is a worker, both informers have synced. -/
theorem hasSynced_of_working (hrun : Run (proxySystem F Q) (proxySystem F Q).init tr p)
    (hworking : p.working = true) :
    hasSynced p.slices.fifo = true ∧ hasSynced p.services.fifo = true := by
  induction hrun with
  | nil => exact absurd hworking Bool.false_ne_true
  | @snoc p₁ p₂ tr l hrun hstep ih =>
    cases l with
    | service l =>
      obtain ⟨f, hf, rfl⟩ := hstep
      exact ⟨(ih hworking).1, Feed.hasSynced_step hf (ih hworking).2⟩
    | slice l =>
      obtain ⟨f, hf, rfl⟩ := hstep
      exact ⟨Feed.hasSynced_step hf (ih hworking).1, (ih hworking).2⟩
    | synced =>
      -- what `Run` has waited for
      obtain ⟨-, hslices, hservices, rfl⟩ := hstep
      exact ⟨hslices, hservices⟩
    | work key env =>
      obtain ⟨hbefore, _, _, _, _, _, _, -, -, -, -, rfl⟩ := hstep
      exact ih hbefore
    | elapse =>
      obtain ⟨q, -, rfl⟩ := hstep
      exact ih hworking

/-- **No handling comes too early.** Over every run in which both reflectors list before they
watch: when there is a worker, the lister has the slice under every key that all lists have had
and that has not been deleted; and if this holds of the Service that the slice is labelled with,
too, handling the key of the slice returns no error. -/
theorem handled_after_sync (hrun : Run (proxySystem F Q) (proxySystem F Q).init tr p)
    (hfirst : ListsFirst (serviceTrace tr) ∧ ListsFirst (sliceTrace tr))
    (hworking : p.working = true) (hshows : p.Shows c) {k : String}
    (hkept : ∀ t ∈ sliceTrace tr, ¬ t.label.Removes k) :
    ∃ slice, c.endpointsLister.objects k = some slice ∧
      ((∀ t ∈ serviceTrace tr,
          ¬ t.label.Removes (slice.ns.text ++ "/" ++ slice.serviceName.text)) →
        ∀ env w e, ((handler c.serviceLister c.endpointsLister env (sliceQueueKey slice)).run w).1 ≠
          .ret (some e)) := by
  obtain ⟨hslices, hservices⟩ := hasSynced_of_working hrun hworking
  obtain ⟨v, hv⟩ := Option.isSome_iff_exists.mp
    (isSome_of_arriving (arriving_of_run (run_sliceTrace hrun) hfirst.2 hkept) hslices)
  -- both lookups of the handler succeed, so it has no error to return
  obtain ⟨slice, hslice, -⟩ := hshows.slices.objects_of_values hv
  refine ⟨slice, hslice, fun hsvc env w e => ?_⟩
  obtain ⟨u, hu⟩ := Option.isSome_iff_exists.mp
    (isSome_of_arriving (arriving_of_run (run_serviceTrace hrun) hfirst.1 hsvc) hservices)
  obtain ⟨svc, hget, -⟩ := hshows.services.objects_of_values hu
  have hlisted := (get_of_listed (c := c.withKeys .new) hslice).2
  exact handler_ne_error hlisted hget e

end Barrier

/-- After the start the lists have been worked off, and what the watch brings comes later. -/
theorem republished_finds :
    podPublished.endpointsLister.objects "default/web-a" = some webSliceA ∧
      ∀ env w e, ((handler podPublished.serviceLister podPublished.endpointsLister env
        (sliceQueueKey webSliceA)).run w).1 ≠ .ret (some e) := by
  have hslices : sliceTrace republishing =
      [⟨servicesStored.slices, .replace [rawUnready] [], slicesListed.slices⟩,
        ⟨slicesListed.slices, .pop, slicesStored.slices⟩,
        ⟨bootedHeld.slices, .modified (rawSlice "web-a"), readyHeard.slices⟩,
        ⟨readyHeard.slices, .pop, readyStored.slices⟩] := rfl
  have hservices : serviceTrace republishing =
      [⟨Feed.init, .replace [rawService "web"] [], servicesListed.services⟩,
        ⟨servicesListed.services, .pop, servicesStored.services⟩] := rfl
  have hfirst : ListsFirst (serviceTrace republishing) ∧
      ListsFirst (sliceTrace republishing) := by
    simp only [hslices, hservices, ListsFirst, List.forall_mem_cons, List.not_mem_nil,
      false_imp_iff, implies_true, and_true]
    exact ⟨⟨False.elim, False.elim⟩, False.elim, False.elim, fun _ => rfl, False.elim⟩
  have hkept : ∀ t ∈ sliceTrace republishing, ¬ t.label.Removes "default/web-a" := by
    simp only [hslices, List.forall_mem_cons, List.not_mem_nil, false_imp_iff, implies_true,
      and_true]
    exact ⟨fun hnot => hnot (by decide), id, id, id⟩
  obtain ⟨slice, hslice, hfinds⟩ := handled_after_sync run_republishing hfirst rfl
    shows_readyPublished hkept
  obtain rfl : slice = webSliceA := Option.some.inj (hslice.symm.trans rfl)
  refine ⟨hslice, hfinds ?_⟩
  simp only [hservices, List.forall_mem_cons, List.not_mem_nil, false_imp_iff, implies_true,
    and_true]
  exact ⟨fun hnot => hnot (by decide), id⟩

/-! ### What the manager has -/

section Following

variable {F Q : Type} [DeltaQueue F String Cache.Delta] [PendingQueue Q Item] {p : Proxy F Q}
  {tr : List (Transition (Proxy F Q) ProxyLabel)} {c : QueuedCluster Q} {k : String}
  {raw : Discovery.EndpointSlice} {slice : Api.EndpointSlice}

/-- The lister has a slice as the server has it, once nothing waits. -/
theorem listed_of_server (hrun : Run (proxySystem F Q) (proxySystem F Q).init tr p)
    (hshows : p.Shows c) (hidle : pop p.slices.fifo = none)
    (hserver : server (sliceTrace tr) k = some raw) (hreads : sliceView.reads raw slice) :
    c.endpointsLister.objects k = some slice := by
  have htracking := tracking_of_run (run_sliceTrace hrun)
  -- what the server has has not been missed
  have hfound : ¬ missed (sliceTrace tr) k := fun hmissed =>
    absurd (hserver.symm.trans (htracking.astray hmissed).1) (by simp)
  have hvalues : p.slices.informer.values k = some (Resource.custom raw) := by
    rw [← settled_of_idle hidle, htracking.others hfound, hserver]
    rfl
  obtain ⟨o, ho, hreads'⟩ := hshows.slices.objects_of_values hvalues
  rw [ho, sliceView_functional hreads' (sliceView.custom hreads)]

theorem upToDate_of_idle (hrun : Run (proxySystem F Q) (proxySystem F Q).init tr p)
    (hheard : ∀ t ∈ tr, t.label.Readable)
    (hsole : ∀ t ∈ tr, ∀ {c}, t.pre.Shows c → SoleSlices (c.withKeys .new))
    (hidle : pop p.slices.fifo = none) (hserver : server (sliceTrace tr) k = some raw)
    (hreads : sliceView.reads raw slice)
    (hquiet : ¬ Pending p.controller.workqueue (.string (sliceQueueKey slice))) :
    ∃ c, p.Shows c ∧ UpToDate (c.withKeys .new) slice := by
  obtain ⟨c, hshows, hlifts⟩ := lifts_invariant tracked_invariant hrun hheard
    fun t ht _ _ hpre _ _ _ hrep _ => hrep.soleSlices (hsole t ht hpre)
  rw [hshows.controller] at hquiet
  exact ⟨c, hshows, hlifts.upToDate (listed_of_server hrun hshows hidle hserver hreads) hquiet⟩

/-- **The manager follows the server.** Over every run in which what is heard reads as API objects
and no two slices in the lister are ever labelled with one service: when the slices that have been
heard of are worked off, and the key of a slice is neither on the queue nor delayed, the manager
is up to date with the slice as the API server has it. -/
theorem manager_follows_server (hrun : Run (proxySystem F Q) (proxySystem F Q).init tr p)
    (hheard : ∀ t ∈ tr, t.label.Readable)
    (hsole : ∀ t ∈ tr, ∀ {c}, t.pre.Shows c → SoleSlices (c.withKeys .new))
    (hidle : pop p.slices.fifo = none) (hserver : server (sliceTrace tr) k = some raw)
    (hreads : sliceView.reads raw slice)
    (hquiet : ¬ Pending p.controller.workqueue (.string (sliceQueueKey slice))) :
    if slice.terminating then p.serviceManager.services slice.labelKey = none
    else ∃ svc, p.serviceManager.services slice.labelKey = some svc ∧
      svc.endpoints = slice.readyAddresses := by
  obtain ⟨c, hshows, hdone⟩ := upToDate_of_idle hrun hheard hsole hidle hserver hreads hquiet
  rw [hshows.serviceManager]
  exact hdone

end Following

/-- The lister has no slice but A. -/
theorem soleSlices_of_single {F Q : Type} [PendingQueue Q Item] {p : Proxy F Q}
    {c : QueuedCluster Q} (hshows : p.Shows c)
    (hitems : ∀ k, k ≠ "default/web-a" → p.slices.informer.items k = none) :
    SoleSlices (c.withKeys .new) := by
  have honly : ∀ k slice, (c.withKeys .new).endpointsLister.objects k = some slice →
      k = "default/web-a" := by
    intro k slice hk
    by_contra hne
    obtain ⟨v, hv, -⟩ := hshows.slices.values_of_objects hk
    rw [Informer.values, Informer.contents_of_none (hitems k hne)] at hv
    exact absurd hv (by simp)
  exact soleSlices_of_only honly

theorem sole_republishing :
    ∀ t ∈ republishing, ∀ {c}, t.pre.Shows c → SoleSlices (c.withKeys .new) := by
  have hnone : ∀ k, k ≠ "default/web-a" → servicesStored.slices.informer.items k = none :=
    fun _ _ => rfl
  have hone : ∀ k, k ≠ "default/web-a" → slicesStored.slices.informer.items k = none :=
    fun _ hk => Table.set_of_ne _ _ hk
  have htwo : ∀ k, k ≠ "default/web-a" → readyStored.slices.informer.items k = none :=
    fun _ hk => (Table.set_of_ne _ _ hk).trans (Table.set_of_ne _ _ hk)
  simp only [republishing, booting, List.cons_append, List.nil_append, List.forall_mem_cons,
    List.not_mem_nil, false_imp_iff, implies_true, and_true]
  exact ⟨fun h => soleSlices_of_single h hnone, fun h => soleSlices_of_single h hnone,
    fun h => soleSlices_of_single h hnone, fun h => soleSlices_of_single h hnone,
    fun h => soleSlices_of_single h hone, fun h => soleSlices_of_single h hone,
    fun h => soleSlices_of_single h hone, fun h => soleSlices_of_single h hone,
    fun h => soleSlices_of_single h hone, fun h => soleSlices_of_single h htwo⟩

theorem quiet_readyPublished : ¬ Pending readyPublished.controller.workqueue
    (.string (sliceQueueKey webSliceA)) := by
  rintro (hqueued | hdirty | hwaiting)
  · exact absurd hqueued (by decide)
  · exact absurd hdirty (by decide)
  · exact absurd hwaiting (by decide)

/-- The slice is published without an address first, and then with the one it has got. -/
theorem republished_follows :
    (bootedHeld.serviceManager.services webSliceA.labelKey).map Service.endpoints = some [] ∧
    ∃ svc, readyPublished.serviceManager.services webSliceA.labelKey = some svc ∧
      svc.endpoints = webSliceA.readyAddresses := by
  have hserver : server (sliceTrace republishing) "default/web-a" = some (rawSlice "web-a") := rfl
  have hfollows := manager_follows_server run_republishing readable_republishing sole_republishing
    rfl hserver (⟨⟨rfl, rfl⟩, rfl, rfl, rfl, rfl⟩ : sliceView.reads _ webSliceA)
    quiet_readyPublished
  rw [if_neg (by decide)] at hfollows
  exact ⟨by decide, hfollows⟩

section Frontends

variable {F Q : Type} [DeltaQueue F String Cache.Delta] [PendingQueue Q Item] {p : Proxy F Q}
  {tr : List (Transition (Proxy F Q) ProxyLabel)}

/-- **The data path follows the server.** As long as the live services are well addressed, too,
`serviceMap` holds the frontends of the live services and nothing else; and when the slices that
have been heard of are worked off, and the key of a slice is neither on the queue nor delayed,
the frontends of its service count exactly the ready addresses that the slice has on the API
server. -/
theorem frontends_follow_server (hrun : Run (proxySystem F Q) (proxySystem F Q).init tr p)
    (hheard : ∀ t ∈ tr, t.label.Readable)
    (hsole : ∀ t ∈ tr, ∀ {c}, t.pre.Shows c → SoleSlices (c.withKeys .new))
    (hwa : ∀ t ∈ tr, WellAddressed t.post.serviceManager) :
    Mirrors p.serviceManager ∧
    ∀ k raw slice, pop p.slices.fifo = none → server (sliceTrace tr) k = some raw →
      sliceView.reads raw slice → slice.terminating = false →
      ¬ Pending p.controller.workqueue (.string (sliceQueueKey slice)) →
      ∃ svc, p.serviceManager.services slice.labelKey = some svc ∧
        ∀ port ∈ svc.portList, p.serviceManager.maps.frontend (svc.frontendKey port) =
          some ⟨svc.serviceId, UInt16.ofNat slice.readyAddresses.length⟩ := by
  obtain ⟨c, hshows, hlifts⟩ := lifts_invariant mirrors_invariant hrun hheard
    fun t ht _ _ _ hpost _ _ _ hrep => by
      rw [hrep.serviceManager, ← hpost.serviceManager]
      exact hwa t ht
  have hmirrors := hlifts.mirrors
  rw [hshows.serviceManager]
  refine ⟨hmirrors, fun k raw slice hidle hserver hreads hlives hquiet => ?_⟩
  obtain ⟨c', hshows', hdone⟩ := upToDate_of_idle hrun hheard hsole hidle hserver hreads hquiet
  -- both invariants are about the one cluster that the process shows
  obtain rfl := hshows'.unique hshows
  have hfront := hdone.frontends fun _ : True => hmirrors
  rw [if_neg (by rw [hlives]; exact Bool.false_ne_true)] at hfront
  obtain ⟨svc, hlive, -, hports⟩ := hfront
  exact ⟨svc, hlive, hports trivial⟩

end Frontends

theorem wellAddressed_webHeld : WellAddressed webHeld.serviceManager := by
  have hset : webHeld.serviceManager.services = Table.empty.set "default/web"
      { serviceOf webObject webSliceUnready with serviceId := 1 } := rfl
  exact wellAddressed_single hset rfl (by decide) (by decide)

theorem wellAddressed_podPublished : WellAddressed podPublished.serviceManager := by
  have hset : podPublished.serviceManager.services =
      ((Table.empty.set "default/web" { serviceOf webObject webSliceUnready with
        serviceId := 1 }).erase "default/web").set "default/web"
          { serviceOf webObject webSliceA with serviceId := 1 } := rfl
  rw [Table.erase_set, Table.set_set] at hset
  exact wellAddressed_single hset rfl (by decide) (by decide)

theorem republished_frontends :
    ∃ svc, readyPublished.serviceManager.services webSliceA.labelKey = some svc ∧
      ∀ port ∈ svc.portList, readyPublished.serviceManager.maps.frontend (svc.frontendKey port) =
        some ⟨svc.serviceId, UInt16.ofNat webSliceA.readyAddresses.length⟩ := by
  have hwa : ∀ t ∈ republishing, WellAddressed t.post.serviceManager := by
    simp only [republishing, booting, List.cons_append, List.nil_append, List.forall_mem_cons,
      List.not_mem_nil, false_imp_iff, implies_true, and_true]
    exact ⟨wellAddressed_init, wellAddressed_init, wellAddressed_init, wellAddressed_init,
      wellAddressed_init, wellAddressed_init, wellAddressed_webHeld, wellAddressed_webHeld,
      wellAddressed_webHeld, wellAddressed_podPublished⟩
  have hserver : server (sliceTrace republishing) "default/web-a" = some (rawSlice "web-a") := rfl
  exact (frontends_follow_server run_republishing readable_republishing sole_republishing
    hwa).2 _ _ webSliceA rfl hserver ⟨⟨rfl, rfl⟩, rfl, rfl, rfl, rfl⟩ rfl quiet_readyPublished

end EProxy
