import EProxy.Kubernetes.Slices

/-!
# Deletions

When a Service or its last slice is deleted, the manager should let go of the service.
The handler returns with the lister's error as soon as one of the two objects is not
there, before it reaches the branch that deletes, so a key that is handled after the
deletion does nothing, and is queued again for ever.

`Backed` is what deletions are supposed to restore: a service the manager holds is in
the service lister and has a slice in the slice lister. A worker changes what is held
under listed keys only (`services_work`), so a service that an event has orphaned stays
held until its objects come back (`orphan_stays`), however often the keys are handled.
Hence the state at the end of a run is backed exactly when each orphaned service has
been listed again (`backed_iff_relisted`).
-/

namespace EProxy

open Framework

/-- The Service `key` is in the lister, and so is a slice labelled with it. -/
def Listed (c : Cluster) (key : String) : Prop :=
  (c.serviceLister.objects key).isSome ∧
  ∃ k slice, c.endpointsLister.objects k = some slice ∧ slice.labelKey = key

/-- The manager holds a service under `key`. -/
def Held (c : Cluster) (key : String) : Prop := (c.serviceManager.services key).isSome

/-- Everything the manager holds is listed. -/
def Backed (c : Cluster) : Prop := ∀ key, Held c key → Listed c key

/-- The step takes the Service, or the last slice, of a held service out of the
listers. -/
structure Orphans (t : Transition Cluster ClusterLabel) (key : String) : Prop where
  held : Held t.pre key
  listed : Listed t.pre key
  gone : ¬ Listed t.post key

/-- The key an event enqueues. -/
def ClusterLabel.enqueues : ClusterLabel → Option String
  | .event e => e.obj.queueKey
  | .work _ _ => none

/-- The key a worker handles. -/
def ClusterLabel.handles : ClusterLabel → Option String
  | .event _ => none
  | .work key _ => some key

/-- Every key that an event of the run enqueues is handled later, by a step that meets
`ok`. -/
def Settled (ok : Transition Cluster ClusterLabel → Prop) :
    List (Transition Cluster ClusterLabel) → Prop
  | [] => True
  | t :: rest =>
    (∀ key ∈ t.label.enqueues, ∃ u ∈ rest, u.label.handles = some key ∧ ok u) ∧
      Settled ok rest

instance decidableSettled (ok : Transition Cluster ClusterLabel → Prop) [DecidablePred ok] :
    (tr : List (Transition Cluster ClusterLabel)) → Decidable (Settled ok tr)
  | [] => isTrue trivial
  | _ :: rest =>
    have := decidableSettled ok rest
    inferInstanceAs (Decidable (_ ∧ _))

/-! ### Steps -/

variable {c c' : Cluster} {key : String}

section Work

variable {qkey : String} {env : Env}

theorem listed_work (h : clusterSystem.step c (.work qkey env) c') (key : String) :
    Listed c' key ↔ Listed c key := by
  obtain ⟨hsvc, hslices, -⟩ := work_cases h
  rw [Listed, Listed, hsvc, hslices]

/-- A worker changes what is held under listed keys only. -/
theorem services_work (hs : Sound c.serviceManager)
    (h : clusterSystem.step c (.work qkey env) c') (hkey : ¬ Listed c key) :
    c'.serviceManager.services key = c.serviceManager.services key := by
  rcases work_effect hs h with ⟨hsame, -⟩ |
    ⟨slice, svc, bsvc, s₁, -, hslice, hsvc, hnew, hcl, hpub⟩
  · rw [hsame]
  · rw [services_after_work hsvc hnew hcl hpub, if_neg]
    rintro rfl
    exact hkey ⟨Option.isSome_iff_exists.mpr ⟨svc, hsvc⟩, _, slice, hslice, rfl⟩

end Work

/-- No step that leaves `key` unlisted changes whether it is held. -/
theorem held_step {l : ClusterLabel} (hs : Sound c.serviceManager)
    (h : clusterSystem.step c l c') (hkey : ¬ Listed c' key) : Held c' key ↔ Held c key := by
  cases l with
  | event e =>
    obtain rfl : c' = c.deliver e := h
    exact Iff.rfl
  | work qkey env =>
    -- a worker leaves the listers alone, so `key` was not listed before either
    rw [listed_work h] at hkey
    rw [Held, Held, services_work hs h hkey]

/-! ### Runs -/

variable {tr : List (Transition Cluster ClusterLabel)}

theorem not_held_init : ¬ Held clusterSystem.init key := by
  simp [Held, clusterSystem, newServiceManager]

theorem sound_of_run (hrun : Run clusterSystem clusterSystem.init tr c) :
    Sound c.serviceManager :=
  (hrun.invariant (I := fun c => Sound c.serviceManager) sound_init
    fun _ _ _ hs hst => sound_cluster_step hs hst).1

/-- **Orphans stay.** A service that is held and not listed stays so until it is
listed. -/
theorem orphan_stays (hs : Sound c.serviceManager) (hrun : Run clusterSystem c tr c')
    (hlater : ∀ u ∈ tr, ¬ Listed u.post key) (hheld : Held c key) (hkey : ¬ Listed c key) :
    Held c' key ∧ ¬ Listed c' key := by
  refine ((hrun.invariant_of
    (I := fun c => Sound c.serviceManager ∧ Held c key ∧ ¬ Listed c key)
    (C := fun _ _ b => ¬ Listed b key) ⟨hs, hheld, hkey⟩ ?_ hlater).1).2
  rintro a l b ⟨hs, hheld, -⟩ hkey hst
  exact ⟨sound_cluster_step hs hst, (held_step hs hst hkey).mpr hheld, hkey⟩

/-- A service that is held and not listed has been orphaned by a step of the run, and
not been listed since. -/
theorem exists_orphans (hrun : Run clusterSystem clusterSystem.init tr c) (hheld : Held c key)
    (hkey : ¬ Listed c key) :
    ∃ tr₁ t tr₂, tr = tr₁ ++ t :: tr₂ ∧ Orphans t key ∧ ∀ u ∈ tr₂, ¬ Listed u.post key := by
  -- the last time that `key` was not orphaned
  obtain ⟨tr₁, t, tr₂, rfl, hpre, hpost, hlater⟩ :=
    hrun.exists_last_exit (P := fun c => Held c key → Listed c key)
      (fun h => absurd h not_held_init) fun h => hkey (h hheld)
  obtain ⟨hrun₁, hstep, -⟩ := hrun.split
  obtain ⟨hheld', hgone⟩ := Classical.not_imp.mp hpost
  have hheld₁ : Held t.pre key := (held_step (sound_of_run hrun₁) hstep hgone).mp hheld'
  exact ⟨tr₁, t, tr₂, rfl, ⟨hheld₁, hpre hheld₁, hgone⟩,
    fun u hu => (Classical.not_imp.mp (hlater u hu)).2⟩

/-- **Exactly when deletions have reached the data path.** At the end of every run of
informer events and workers, everything the manager holds is listed if and only if,
whenever an event of the run took the Service, or the last slice, of a held service out
of the listers, both were there again at some later point of the run. -/
theorem backed_iff_relisted (hrun : Run clusterSystem clusterSystem.init tr c) :
    Backed c ↔ ∀ key tr₁ t tr₂, tr = tr₁ ++ t :: tr₂ → Orphans t key →
      ∃ u ∈ tr₂, Listed u.post key := by
  constructor
  · rintro hb key tr₁ t tr₂ rfl ⟨hheld, -, hgone⟩
    -- otherwise it is orphaned to the end of the run
    by_contra hnever
    have hlater : ∀ u ∈ tr₂, ¬ Listed u.post key := fun u hu hl => hnever ⟨u, hu, hl⟩
    obtain ⟨hrun₁, hstep, hrun₂⟩ := hrun.split
    have hs := sound_of_run hrun₁
    have hheld' : Held t.post key := (held_step hs hstep hgone).mpr hheld
    obtain ⟨hend, hkey⟩ := orphan_stays (sound_cluster_step hs hstep) hrun₂ hlater hheld' hgone
    exact hkey (hb key hend)
  · intro h key hheld
    by_contra hkey
    obtain ⟨tr₁, t, tr₂, htr, ht, hnever⟩ := exists_orphans hrun hheld hkey
    obtain ⟨u, hu, hlisted⟩ := h key tr₁ t tr₂ htr ht
    exact hnever u hu hlisted

/-- The informers have heard of the web service. -/
def announced : Cluster := clusterSystem.init.deliver (.service (.set webObject))

/-- They have heard of its slice A, too. -/
def announcedBoth : Cluster := announced.deliver (.endpointSlice (.set webSliceA))

/-- The key of the service has been handled. -/
def serviceHandled : Cluster := announcedBoth.handled "Service/default/web"

/-- Both keys have been handled. -/
def published : Cluster := serviceHandled.handled "EndpointSlice/default/web-a"

/-- How the web service gets published. -/
def publishing : List (Transition Cluster ClusterLabel) :=
  [⟨clusterSystem.init, .event (.service (.set webObject)), announced⟩,
    ⟨announced, .event (.endpointSlice (.set webSliceA)), announcedBoth⟩,
    ⟨announcedBoth, .work "Service/default/web" .calm, serviceHandled⟩,
    ⟨serviceHandled, .work "EndpointSlice/default/web-a" .calm, published⟩]

theorem step_serviceHandled :
    clusterSystem.step announcedBoth (.work "Service/default/web" .calm) serviceHandled :=
  step_handled (by decide) (by decide)

theorem run_publishing : Run clusterSystem clusterSystem.init publishing published :=
  .snoc (.snoc (.snoc (.snoc (.nil _) rfl) rfl) step_serviceHandled)
    (step_handled (by decide) (by decide))

theorem held_published : Held published "default/web" :=
  (by decide : (published.serviceManager.services "default/web").isSome)

/-- Nothing is orphaned on the way, and the service ends up held and listed. -/
theorem backed_published : Held published "default/web" ∧ Backed published := by
  refine ⟨held_published, (backed_iff_relisted run_publishing).mpr fun key tr₁ t tr₂ htr ht => ?_⟩
  have hmgr : serviceHandled.serviceManager = announcedBoth.serviceManager :=
    work_service (by decide : (Obj.service webObject).queueKey = some "Service/default/web")
      step_serviceHandled
  -- the manager is empty in every state a step of the run leaves
  have hpre : t.pre.serviceManager = clusterSystem.init.serviceManager := by
    have hmem : t ∈ publishing := by
      rw [htr]
      exact List.mem_append_right _ List.mem_cons_self
    simp only [publishing, List.mem_cons, List.not_mem_nil, or_false] at hmem
    rcases hmem with rfl | rfl | rfl | rfl
    · rfl
    · rfl
    · rfl
    · exact hmgr
  have hheld := ht.held
  rw [Held, hpre] at hheld
  exact absurd hheld not_held_init

/-- The slice is deleted. -/
def sliceDeleted : Cluster := published.deliver (.endpointSlice (.deleted webSliceA))

/-- Its key has been handled again. -/
def deletionHandled : Cluster := sliceDeleted.handled "EndpointSlice/default/web-a"

/-- The run through the deletion. -/
def deleting : List (Transition Cluster ClusterLabel) :=
  publishing ++ [⟨published, .event (.endpointSlice (.deleted webSliceA)), sliceDeleted⟩] ++
    [⟨sliceDeleted, .work "EndpointSlice/default/web-a" .calm, deletionHandled⟩]

theorem step_deletionHandled :
    clusterSystem.step sliceDeleted (.work "EndpointSlice/default/web-a" .calm) deletionHandled :=
  step_handled (by decide) (by decide)

theorem not_listed_sliceDeleted : ¬ Listed sliceDeleted "default/web" := by
  rintro ⟨-, k, slice, hk, -⟩
  have hlister : sliceDeleted.endpointsLister =
      (Store.empty.put webSliceA).remove (Object.key webSliceA) := rfl
  rw [hlister, Store.remove_apply, Store.put_apply] at hk
  split at hk
  · exact absurd hk (by simp)
  · exact absurd hk (by simp [Store.empty])

/-- All keys have been handled after the last event on their object, and the manager
still holds a service without a slice. -/
theorem deletion_leaves_service :
    Run clusterSystem clusterSystem.init deleting deletionHandled ∧
      Settled (fun _ => True) deleting ∧ Held deletionHandled "default/web" ∧
      ¬ Listed deletionHandled "default/web" := by
  have hdelete : clusterSystem.step published (.event (.endpointSlice (.deleted webSliceA)))
      sliceDeleted := rfl
  have hrun := run_publishing.snoc hdelete
  have hgone : ¬ Listed deletionHandled "default/web" := by
    rw [listed_work step_deletionHandled]
    exact not_listed_sliceDeleted
  -- the event left the manager alone, and the worker keeps what is not listed
  have hheld : Held sliceDeleted "default/web" := held_published
  exact ⟨hrun.snoc step_deletionHandled, by decide,
    (held_step (sound_of_run hrun) step_deletionHandled hgone).mpr hheld, hgone⟩

end EProxy
