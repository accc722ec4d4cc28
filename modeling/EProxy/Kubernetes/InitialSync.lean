import EProxy.DataPath.Restart
import EProxy.Kubernetes.Traffic

/-!
# The first handling of every slice

When the process starts, or starts again after a crash, its manager is empty while the BPF
maps are whatever is pinned under their names: the leftovers of an earlier process, cut off at
any point. The informers list all objects, every slice gets its key queued, and the worker
handles the keys in some order.

Each service is new to the manager when its slice is handled, so nothing has to be deleted and
no handling can fail, whatever the maps hold (`handle_job`). `initial_sync_recovers` runs
through all slices: in every order the process survives, ends with exactly the services of the
slices, and `serviceMap` holds for every frontend what the last of its writers has written,
and under the frontends of no slice what was pinned there before.
-/

namespace EProxy

open Framework Machine

/-- A slice to be handled, with its Service and what the handling meets. -/
structure SyncJob where
  slice : Api.EndpointSlice
  svc : Api.Service
  env : Env

namespace SyncJob

/-- The key of the slice on the queue. -/
def key (j : SyncJob) : String := sliceQueueKey j.slice

/-- What the manager is to hold for the service of the slice. -/
def held (j : SyncJob) : Option Service :=
  if j.slice.terminating then none else some { serviceOf j.svc j.slice with serviceId := 1 }

/-- The frontends that handling the slice writes. -/
def frontends (j : SyncJob) : List Service4Key :=
  if j.slice.terminating then [] else (serviceOf j.svc j.slice).frontends

/-- What it writes there. -/
def value (j : SyncJob) : Service4Value := ⟨1, UInt16.ofNat j.slice.readyAddresses.length⟩

end SyncJob

/-- The job can be done: both objects are in the listers, the key is on the queue,
`NewService` accepts the slice, the cluster IP is IPv4 if it is needed, and the kernel fails
nothing. -/
structure Doable (c : Cluster) (j : SyncJob) : Prop where
  slice : c.endpointsLister.get j.slice.ns.text j.slice.name.text = some j.slice
  service : c.serviceLister.get j.slice.ns.text j.slice.serviceName.text = some j.svc
  queued : j.key ∈ c.workqueue.items
  extractable : Extractable j.slice
  addressable : j.slice.terminating = false →
    j.svc.ports = [] ∨ (IP.encoded (parseIP j.svc.clusterIP)).isSome
  calm : ∀ i, j.env.fault i = none

/-- The manager is one no id but `0` is marked in. -/
structure Unmarked (s : ServiceManager) : Prop where
  sound : Sound s
  cache : ∀ id, id ≠ 0 → s.cacheSerivceId id = none

/-- What doing a job makes of the cluster. -/
structure Done (c : Cluster) (j : SyncJob) (c' : Cluster) : Prop where
  serviceLister : c'.serviceLister = c.serviceLister
  endpointsLister : c'.endpointsLister = c.endpointsLister
  unmarked : Unmarked c'.serviceManager
  queue : ∀ k, k ∈ c'.workqueue.items ↔ k ≠ j.key ∧ k ∈ c.workqueue.items
  services : ∀ k, c'.serviceManager.services k =
    if k = j.slice.labelKey then j.held else c.serviceManager.services k
  frontend : ∀ f, c'.serviceManager.maps.frontend f =
    if f ∈ j.frontends then some j.value else c.serviceManager.maps.frontend f

/-- Handle the keys of the jobs one after the other. -/
def Cluster.workAll (c : Cluster) : List SyncJob → Outcome MapError Cluster
  | [] => .ret c
  | j :: rest => do
    let c' ← c.processNextWorkItem j.env j.key
    c'.workAll rest

/-! ### One job -/

section Job

variable {c c' : Cluster} {j : SyncJob}

/-- With only `0` marked the allocation gives out id `1`. -/
theorem Unmarked.allocated_eq {s : ServiceManager} (h : Unmarked s) (svc : Service) :
    s.allocated svc = { svc with serviceId := 1 } := by
  rw [ServiceManager.allocated, allocate, freeId_eq_one (h.cache 1 (by decide))]
  rfl

/-- A service that is new to the manager is published without a deletion. -/
theorem Unmarked.publishes {s s' : ServiceManager} (h : Unmarked s) {svc : Service}
    {order : List Ports} (hfresh : svc.serviceId = 0) (hpub : Publishes s svc order s') :
    Unmarked s' ∧ ∀ f, s'.maps.frontend f =
      if f ∈ svc.frontends then some ⟨1, UInt16.ofNat svc.endpoints.length⟩
      else s.maps.frontend f := by
  refine ⟨⟨hpub.sound h.sound, fun id hid => ?_⟩, fun f => ?_⟩
  · rw [hpub.cache, allocate_cache_of_fresh _ hfresh hid]
    exact h.cache id hid
  · have hfold := fold_frontend_appendScript (s.allocated svc) order h.sound.nonNil f
    rw [h.allocated_eq] at hfold
    have hkeys : f ∈ order.map (Service.frontendKey { svc with serviceId := 1 }) ↔
        f ∈ svc.frontends := (hpub.perm.map svc.frontendKey).mem_iff
    rw [hpub.maps, h.allocated_eq, hfold, if_congr hkeys rfl rfl]
    rfl

/-- **One job.** -/
theorem handle_job (hm : Unmarked c.serviceManager) (hj : Doable c j)
    (hfree : c.serviceManager.services j.slice.labelKey = none) :
    ∃ c', c.processNextWorkItem j.env j.key = .ret c' ∧ Done c j c' := by
  -- nothing to clear, and what is to be appended can be
  have hret : (c.processNextWorkItem j.env j.key).Returned := by
    refine (handling_returned_iff hm.sound hj.slice hj.service).mpr
      ⟨hj.extractable, 0, (clears_of_absent hfree).mpr rfl, fun hterm => ?_⟩
    exact ⟨rfl, (addressable_serviceOf_iff j.svc j.slice).mpr (hj.addressable hterm),
      fun i _ _ => hj.calm i⟩
  cases hproc : c.processNextWorkItem j.env j.key with
  | panic p =>
    rw [hproc] at hret
    exact hret.elim
  | ret c' =>
    have hstep : clusterSystem.step c (.work (sliceQueueKey j.slice) j.env) c' :=
      ⟨hj.queued, hproc⟩
    refine ⟨c', rfl, ?_⟩
    have hqueue : ∀ k, k ∈ c'.workqueue.items ↔ k ≠ j.key ∧ k ∈ c.workqueue.items := by
      intro k
      by_cases hk : k = j.key
      · have hsome : c.serviceLister.get j.slice.ns.text j.slice.serviceName.text ≠ none := by
          rw [hj.service]
          simp
        subst hk
        exact iff_of_false (fun hmem => hsome ((work_slice_queue hstep hj.slice).mp hmem))
          fun h => h.1 rfl
      · rw [work_queue_of_ne hstep hk]
        exact (and_iff_right hk).symm
    rcases work_effect hm.sound hstep with ⟨-, hnone⟩ |
      ⟨slice, svc, bsvc, s₁, hsplit, hslice, hsvc, hnew, hcl, hpub⟩
    · exact absurd hj.service (hnone j.slice j.svc rfl hj.slice)
    · -- the key names this slice, and what was held under its label was nothing
      obtain ⟨hns, hname⟩ : j.slice.ns.text = slice.ns.text ∧ j.slice.name.text = slice.name.text :=
        by simpa using (splitSlash_sliceQueueKey j.slice).symm.trans hsplit
      rw [← hns, ← hname, hj.slice] at hslice
      obtain rfl := Option.some.inj hslice
      obtain rfl := Option.some.inj (hj.service.symm.trans hsvc)
      obtain ⟨-, -, rfl⟩ := (newService_eq_ret_iff j.svc j.slice bsvc).mp hnew
      have hservices := services_after_work hsvc hnew hcl hpub
      obtain ⟨-, rfl⟩ | ⟨old, order, hrem⟩ := hcl
      · rw [hm.allocated_eq] at hservices
        cases hterm : j.slice.terminating with
        | true =>
          rw [hterm, if_pos rfl] at hpub
          refine ⟨(work_cases hstep).1, (work_cases hstep).2.1, hpub ▸ hm, hqueue, fun k => ?_,
            fun f => ?_⟩
          · rw [hservices, SyncJob.held]
          · rw [SyncJob.frontends, if_pos hterm, if_neg List.not_mem_nil, hpub]
        | false =>
          rw [hterm] at hpub
          obtain ⟨order, hpub⟩ := hpub
          obtain ⟨hm', hfront⟩ := hm.publishes rfl hpub
          refine ⟨(work_cases hstep).1, (work_cases hstep).2.1, hm', hqueue, fun k => ?_,
            fun f => ?_⟩
          · rw [hservices, SyncJob.held]
          · have hkeys : j.frontends = (serviceOf j.svc j.slice).frontends := by
              rw [SyncJob.frontends, hterm]
              rfl
            rw [hfront, hkeys]
            rfl
      · exact absurd (hfree.symm.trans hrem.live) (by simp)

end Job

/-! ### All jobs -/

section Jobs

variable {c c' : Cluster} {j j' : SyncJob} {jobs : List SyncJob}

/-- Slices that are listed and have different labels have different keys. -/
theorem Doable.key_ne (hj : Doable c j) (hj' : Doable c j')
    (hlabel : j'.slice.labelKey ≠ j.slice.labelKey) : j'.key ≠ j.key := by
  intro hkey
  have hsplit : splitSlash (sliceQueueKey j'.slice) = splitSlash (sliceQueueKey j.slice) :=
    congrArg splitSlash hkey
  rw [splitSlash_sliceQueueKey, splitSlash_sliceQueueKey] at hsplit
  obtain ⟨hns, hname⟩ : j'.slice.ns.text = j.slice.ns.text ∧
      j'.slice.name.text = j.slice.name.text := by simpa using hsplit
  have hslice := hj'.slice
  rw [hns, hname, hj.slice] at hslice
  exact hlabel (by rw [Option.some.inj hslice])

/-- A job on another service stays to be done. -/
theorem Done.doable (h : Done c j c') (hj : Doable c j) (hj' : Doable c j')
    (hlabel : j'.slice.labelKey ≠ j.slice.labelKey) : Doable c' j' where
  slice := by rw [h.endpointsLister]; exact hj'.slice
  service := by rw [h.serviceLister]; exact hj'.service
  queued := (h.queue _).mpr ⟨hj.key_ne hj' hlabel, hj'.queued⟩
  extractable := hj'.extractable
  addressable := hj'.addressable
  calm := hj'.calm

/-- **All jobs**, on services that are new to the manager. -/
theorem workAll_ret (hm : Unmarked c.serviceManager) (hjobs : ∀ j ∈ jobs, Doable c j)
    (hlabels : (jobs.map fun j => j.slice.labelKey).Nodup)
    (hfree : ∀ j ∈ jobs, c.serviceManager.services j.slice.labelKey = none) :
    ∃ c', c.workAll jobs = .ret c' ∧
      (∀ k, c'.serviceManager.services k =
        (jobs.find? fun j => j.slice.labelKey = k).elim (c.serviceManager.services k)
          SyncJob.held) ∧
      (∀ f, c'.serviceManager.maps.frontend f =
        ((jobs.reverse.find? fun j => f ∈ j.frontends).map SyncJob.value).or
          (c.serviceManager.maps.frontend f)) ∧
      ∀ k, k ∈ c'.workqueue.items ↔ (∀ j ∈ jobs, k ≠ j.key) ∧ k ∈ c.workqueue.items := by
  -- on the jobs still to do, from the cluster the earlier ones have left
  induction jobs generalizing c with
  | nil => exact ⟨c, rfl, fun k => rfl, fun f => rfl, fun k => by simp⟩
  | cons j rest ih =>
    have hj := hjobs j List.mem_cons_self
    rw [List.map_cons, List.nodup_cons] at hlabels
    have hother : ∀ j' ∈ rest, j'.slice.labelKey ≠ j.slice.labelKey := fun j' hj' heq =>
      hlabels.1 (List.mem_map.mpr ⟨j', hj', heq⟩)
    obtain ⟨c₁, hret, hdone⟩ := handle_job hm hj (hfree j List.mem_cons_self)
    obtain ⟨c', hall, hservices, hfront, hqueue⟩ := ih hdone.unmarked
      (fun j' hj' => hdone.doable hj (hjobs j' (List.mem_cons_of_mem _ hj')) (hother j' hj'))
      hlabels.2 (fun j' hj' => by
        rw [hdone.services, if_neg (hother j' hj')]
        exact hfree j' (List.mem_cons_of_mem _ hj'))
    refine ⟨c', ?_, fun k => ?_, fun f => ?_, fun k => ?_⟩
    · rw [Cluster.workAll, hret]
      exact hall
    · rw [hservices, hdone.services]
      by_cases hk : j.slice.labelKey = k
      · -- no later job is about the same service
        subst hk
        have hnone : (rest.find? fun j' => j'.slice.labelKey = j.slice.labelKey) = none := by
          rw [List.find?_eq_none]
          intro j' hj'
          simpa using hother j' hj'
        rw [hnone, List.find?_cons_of_pos (by simp)]
        exact if_pos rfl
      · rw [if_neg (Ne.symm hk), List.find?_cons_of_neg (by simpa using hk)]
    · -- a later job that writes the frontend has the last word
      rw [hfront, hdone.frontend, List.reverse_cons, List.find?_append]
      cases hlate : rest.reverse.find? fun j' => f ∈ j'.frontends with
      | some j' => rfl
      | none =>
        by_cases hf : f ∈ j.frontends
        · rw [if_pos hf]
          simp [hf]
        · rw [if_neg hf]
          simp [hf]
    · rw [hqueue, hdone.queue, List.forall_mem_cons]
      tauto

end Jobs

/-- **Starting over pinned maps.** For every content `m` of the two maps at the start of the
process, and slices of pairwise different services that can all be handled, in whatever order
their keys come up: every handling returns. Afterwards the manager holds for each service what
its slice says and nothing else, `serviceMap` has under each key what the last job with this
frontend has written, and under the frontends of no job what `m` had, and the keys are off the
queue. -/
theorem initial_sync_recovers {c : Cluster} {m : Maps} (hm : m.NonNil)
    (hnew : c.serviceManager = newServiceManager m) (jobs : List SyncJob)
    (hjobs : ∀ j ∈ jobs, Doable c j) (hlabels : (jobs.map fun j => j.slice.labelKey).Nodup) :
    ∃ c', c.workAll jobs = .ret c' ∧
      (∀ k, c'.serviceManager.services k =
        (jobs.find? fun j => j.slice.labelKey = k).bind SyncJob.held) ∧
      (∀ f, c'.serviceManager.maps.frontend f =
        ((jobs.reverse.find? fun j => f ∈ j.frontends).map SyncJob.value).or (m.frontend f)) ∧
      ∀ k, k ∈ c'.workqueue.items ↔ (∀ j ∈ jobs, k ≠ j.key) ∧ k ∈ c.workqueue.items := by
  have hum : Unmarked c.serviceManager := by
    rw [hnew]
    refine ⟨⟨hm, fun h => ?_, fun h => ?_, fun h => ?_⟩, fun _ _ => rfl⟩
    · exact absurd h (by simp [newServiceManager])
    · exact absurd h (by simp [newServiceManager])
    · exact absurd h (by simp [newServiceManager])
  obtain ⟨c', hall, hservices, hfront, hqueue⟩ := workAll_ret hum hjobs hlabels
    fun j _ => by rw [hnew]; rfl
  refine ⟨c', hall, fun k => ?_, fun f => ?_, hqueue⟩
  · rw [hservices, hnew]
    cases jobs.find? fun j => j.slice.labelKey = k with
    | none => rfl
    | some j => rfl
  · rw [hfront, hnew]
    rfl

/-- A new process after the objects of two services have been listed. -/
def restarted : Cluster :=
  { (announcedBoth.deliver (.service (.set mailObject))).deliver
      (.endpointSlice (.set mailSlice)) with
    serviceManager := newServiceManager leftovers }

theorem resolvable_mailSlice : Resolvable mailSlice := ⟨by decide, by decide⟩

/-- The slices of both are to be handled, that of the second service first. -/
def restartJobs : List SyncJob := [⟨mailSlice, mailObject, .calm⟩, ⟨webSliceA, webObject, .calm⟩]

/-- Both services are published, one of them over its old frontend; the frontend of neither is
left, and the key of the web service is still on the queue. -/
theorem initial_sync_restarted :
    ∃ c', restarted.workAll restartJobs = .ret c' ∧
      c'.serviceManager.services "default/web" = some { webService with serviceId := 1 } ∧
      c'.serviceManager.services "default/mail" = some { mailService with serviceId := 1 } ∧
      c'.serviceManager.maps.frontend (webService.frontendKey ⟨.tcp, 80, 8080⟩) = some ⟨1, 1⟩ ∧
      c'.serviceManager.maps.frontend (mailService.frontendKey ⟨.tcp, 25, 2525⟩) = some ⟨1, 1⟩ ∧
      c'.serviceManager.maps.frontend staleKey = some ⟨1, 7⟩ ∧
      "Service/default/web" ∈ c'.workqueue.items := by
  have hmail : Doable restarted ⟨mailSlice, mailObject, .calm⟩ :=
    ⟨by decide, by decide, by decide, ⟨by decide, resolvable_mailSlice.readyIPv4⟩,
      fun _ => Or.inr (by decide), fun _ => rfl⟩
  have hweb : Doable restarted ⟨webSliceA, webObject, .calm⟩ :=
    ⟨by decide, by decide, by decide, ⟨by decide, resolvable_webSliceA.readyIPv4⟩,
      fun _ => Or.inr (by decide), fun _ => rfl⟩
  obtain ⟨c', hret, hservices, hfront, hqueue⟩ := initial_sync_recovers (m := leftovers)
    ⟨rfl, rfl⟩ rfl restartJobs
    (List.forall_mem_cons.mpr ⟨hmail, List.forall_mem_singleton.mpr hweb⟩) (by decide)
  refine ⟨c', hret, ?_, ?_, ?_, ?_, ?_, (hqueue _).mpr (by decide)⟩
  · rw [hservices]
    decide
  · rw [hservices]
    decide
  · rw [hfront]
    decide
  · rw [hfront]
    decide
  · rw [hfront]
    decide

end EProxy
