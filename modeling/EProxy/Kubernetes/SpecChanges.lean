import EProxy.Kubernetes.Deletions
import EProxy.Manager.Frontends

/-!
# Changes of a Service

What the manager holds for a service is made of two objects, the Service and one of its
slices, which change independently. Only the keys of slices do any work, though: the
handler of a slice looks the Service up, and the handler of a Service does nothing. So a
change of the Service alone waits for the next time one of its slices is handled.

`Carries` compares what the manager holds with the Service in the lister. Handling a slice
establishes it (`carries_work`), and from then on every step keeps it that is not an
event on that very Service (`carries_step`), whatever else happens in between.
-/

namespace EProxy

open Framework

/-- `svc` has the VIP of the object and its ports, as a set. -/
structure HasSpecOf (svc : Service) (o : Api.Service) : Prop where
  vip : svc.ipAddress = to4 (parseIP o.clusterIP)
  ports : ∀ p, p ∈ svc.portList ↔ ∃ q ∈ o.ports,
    p = ⟨q.protocol, UInt16.ofInt q.port, UInt16.ofInt q.targetPort.intValue⟩

/-- What the manager holds under `key` has the spec of the Service in the lister. -/
def Carries (c : Cluster) (key : String) : Prop :=
  ∀ svc o, c.serviceManager.services key = some svc → c.serviceLister.objects key = some o →
    HasSpecOf svc o

/-- The label is an event on the Service `key`. -/
def ClusterLabel.OnService (key : String) : ClusterLabel → Prop
  | .event (.service d) => d.key = key
  | _ => False

/-- The handler of the step returned without an error: its key is not queued again. -/
def Succeeds (t : Transition Cluster ClusterLabel) : Prop :=
  ∀ key ∈ t.label.handles, key ∉ t.post.workqueue.items

instance : DecidablePred Succeeds := fun t =>
  inferInstanceAs (Decidable (∀ key ∈ t.label.handles, key ∉ t.post.workqueue.items))

/-! ### What `NewService` takes from the Service -/

theorem hasSpecOf_newService {o : Api.Service} {slice : Api.EndpointSlice} {svc : Service}
    (h : (newService o slice : Outcome MapError Service) = .ret svc) : HasSpecOf svc o := by
  obtain ⟨eps, -, rfl⟩ := newService_eq_ret h
  refine ⟨rfl, fun p => ?_⟩
  have hmem := mem_newServicePorts o.ports Typed.new p
  have hnew : p ∉ (Typed.new : Typed Ports).items := List.not_mem_nil
  rwa [or_iff_right hnew] at hmem

/-- The id the manager gives out is not part of the spec. -/
theorem HasSpecOf.allocated {svc : Service} {o : Api.Service} (h : HasSpecOf svc o)
    (s : ServiceManager) : HasSpecOf (s.allocated svc) o where
  vip := (allocated_ipAddress ⟨s, []⟩ svc).trans h.vip
  ports p := by
    rw [show (s.allocated svc).portList = svc.portList from allocated_portList ⟨s, []⟩ svc]
    exact h.ports p

/-! ### Steps -/

variable {c c' : Cluster} {key : String} {env : Env}

/-- Handling a slice brings the manager up to date with its Service. -/
theorem carries_slice (hs : Sound c.serviceManager) {slice : Api.EndpointSlice}
    (h : clusterSystem.step c (.work (sliceQueueKey slice) env) c')
    (hslice : c.endpointsLister.get slice.ns.text slice.name.text = some slice) :
    Carries c' slice.labelKey := by
  intro svc o hsvc ho
  rw [(work_cases h).1] at ho
  obtain ⟨bsvc, hnew, hheld⟩ := services_after_slice hs h hslice ho
  rw [hheld] at hsvc
  split at hsvc
  · exact absurd hsvc (by simp)
  · rw [← Option.some.inj hsvc]
    exact (hasSpecOf_newService hnew).allocated _

/-- Handling any key keeps the manager up to date. -/
theorem carries_work {qkey : String} (hs : Sound c.serviceManager) (hc : Carries c key)
    (h : clusterSystem.step c (.work qkey env) c') : Carries c' key := by
  intro svc o hsvc ho
  rw [(work_cases h).1] at ho
  rcases work_effect hs h with ⟨hsame, -⟩ |
    ⟨slice, o', bsvc, s₁, -, -, ho', hnew, hcl, hpub⟩
  · rw [hsame] at hsvc
    exact hc svc o hsvc ho
  · rw [services_after_work ho' hnew hcl hpub] at hsvc
    split at hsvc
    · next hkey =>
      -- published again, from the Service that is in the lister
      subst hkey
      obtain rfl := Option.some.inj (ho'.symm.trans ho)
      split at hsvc
      · exact absurd hsvc (by simp)
      · rw [← Option.some.inj hsvc]
        exact (hasSpecOf_newService hnew).allocated _
    · exact hc svc o hsvc ho

theorem carries_step {l : ClusterLabel} (hs : Sound c.serviceManager) (hc : Carries c key)
    (hl : ¬ l.OnService key) (h : clusterSystem.step c l c') : Carries c' key := by
  cases l with
  | work qkey env => exact carries_work hs hc h
  | event e =>
    obtain rfl : c' = c.deliver e := h
    cases e with
    -- an event on a slice touches neither side
    | endpointSlice d => exact hc
    | service d =>
      intro svc o hsvc ho
      rw [show (c.deliver (.service d)).serviceLister = c.serviceLister.process d from rfl,
        Store.process_apply_of_ne _ _ hl] at ho
      exact hc svc o hsvc ho

theorem mirrors_cluster_step {l : ClusterLabel} (hs : Sound c.serviceManager)
    (hwa : WellAddressed c.serviceManager) (hwa' : WellAddressed c'.serviceManager)
    (hmir : Mirrors c.serviceManager) (h : clusterSystem.step c l c') :
    Mirrors c'.serviceManager := by
  cases l with
  | event e =>
    obtain rfl : c' = c.deliver e := h
    exact hmir
  | work qkey env =>
    rcases (work_cases h).2.2 with ⟨hsame, -⟩ | ⟨ns, name, call, -, -, hstep⟩
    · rw [hsame]
      exact hmir
    · exact mirrors_step hs hwa hwa' hmir ⟨hstep.1.updateOrDelete, hstep.2⟩

/-! ### Runs -/

theorem mirrors_of_cluster_run {tr : List (Transition Cluster ClusterLabel)}
    (hrun : Run clusterSystem clusterSystem.init tr c)
    (hwa : ∀ u ∈ tr, WellAddressed u.post.serviceManager) : Mirrors c.serviceManager := by
  refine ((hrun.invariant_of (I := fun c => Sound c.serviceManager ∧
      WellAddressed c.serviceManager ∧ Mirrors c.serviceManager)
    (C := fun _ _ b => WellAddressed b.serviceManager)
    ⟨sound_init, wellAddressed_init, mirrors_init⟩ ?_ hwa).1).2.2
  rintro a l b ⟨hs, hwa, hmir⟩ hwa' hst
  exact ⟨sound_cluster_step hs hst, hwa', mirrors_cluster_step hs hwa hwa' hmir hst⟩

/-- **A Service reaches the data path with the next slice.** In every run of informer
events and workers in which a slice of a Service is handled after the last event on
that Service, the manager ends with the VIP and the ports of the Service in the lister;
and `serviceMap` with their frontends, as long as the live services are well addressed.
Handling the key of a Service changes nothing in the manager. -/
theorem held_spec_of_slice_handled {tr₁ tr₂ : List (Transition Cluster ClusterLabel)}
    {t : Transition Cluster ClusterLabel}
    (hrun : Run clusterSystem clusterSystem.init (tr₁ ++ t :: tr₂) c)
    {slice : Api.EndpointSlice} (hlabel : t.label = .work (sliceQueueKey slice) env)
    (hslice : t.pre.endpointsLister.get slice.ns.text slice.name.text = some slice)
    (hlast : ∀ u ∈ tr₂, ¬ u.label.OnService slice.labelKey) :
    Carries c slice.labelKey ∧
    ((∀ u ∈ tr₁ ++ t :: tr₂, WellAddressed u.post.serviceManager) → Mirrors c.serviceManager) ∧
    ∀ u ∈ tr₁ ++ t :: tr₂, ∀ o qkey env, u.label = .work qkey env →
      (Obj.service o).queueKey = some qkey → u.post.serviceManager = u.pre.serviceManager := by
  refine ⟨?_, mirrors_of_cluster_run hrun, fun u hu o qkey env hu' hkey => ?_⟩
  · obtain ⟨hrun₁, hstep, hrun₂⟩ := hrun.split
    have hs := sound_of_run hrun₁
    rw [hlabel] at hstep
    -- the slice brings `Carries`, the rest of the run keeps it
    refine ((hrun₂.invariant_of
      (I := fun c => Sound c.serviceManager ∧ Carries c slice.labelKey)
      (C := fun _ l _ => ¬ l.OnService slice.labelKey)
      ⟨sound_cluster_step hs hstep, carries_slice hs hstep hslice⟩ ?_ hlast).1).2
    rintro a l b ⟨hs, hc⟩ hl hst
    exact ⟨sound_cluster_step hs hst, carries_step hs hc hl hst⟩
  · have hstep := hrun.step_of_mem hu
    rw [hu'] at hstep
    exact work_service hkey hstep

/-- The web service moves to another VIP. -/
def webMoved : Api.Service := { webObject with clusterIP := "10.96.0.11" }

/-- The informers have heard of the web service and of its slice, whose pod is not ready. -/
def idleAnnounced : Cluster := announced.deliver (.endpointSlice (.set webSliceUnready))

/-- The slice has been handled, so the service is held without an endpoint. -/
def idleHeld : Cluster := idleAnnounced.handled "EndpointSlice/default/web-a"

/-- The service has moved. -/
def idleMoved : Cluster := idleHeld.deliver (.service (.set webMoved))

def idleMoveHandled : Cluster := idleMoved.handled "Service/default/web"

/-- The pod has become ready. -/
def readyAnnounced : Cluster := idleMoveHandled.deliver (.endpointSlice (.set webSliceA))

def movedPublished : Cluster := readyAnnounced.handled "EndpointSlice/default/web-a"

/-- How the web service moves before its first pod is ready, up to the last step. -/
def movingIdle : List (Transition Cluster ClusterLabel) :=
  [⟨clusterSystem.init, .event (.service (.set webObject)), announced⟩,
    ⟨announced, .event (.endpointSlice (.set webSliceUnready)), idleAnnounced⟩,
    ⟨idleAnnounced, .work "EndpointSlice/default/web-a" .calm, idleHeld⟩,
    ⟨idleHeld, .event (.service (.set webMoved)), idleMoved⟩,
    ⟨idleMoved, .work "Service/default/web" .calm, idleMoveHandled⟩,
    ⟨idleMoveHandled, .event (.endpointSlice (.set webSliceA)), readyAnnounced⟩]

theorem step_idleHeld :
    clusterSystem.step idleAnnounced (.work "EndpointSlice/default/web-a" .calm) idleHeld :=
  step_handled (by decide) (by decide)

theorem step_idleMoveHandled :
    clusterSystem.step idleMoved (.work "Service/default/web" .calm) idleMoveHandled :=
  step_handled (by decide) (by decide)

theorem run_movingIdle : Run clusterSystem clusterSystem.init movingIdle readyAnnounced := by
  have hmove : clusterSystem.step idleHeld (.event (.service (.set webMoved))) idleMoved := rfl
  have hready : clusterSystem.step idleMoveHandled (.event (.endpointSlice (.set webSliceA)))
      readyAnnounced := rfl
  exact .snoc (.snoc (.snoc (.snoc (.snoc (.snoc (.nil _) rfl) rfl) step_idleHeld) hmove)
    step_idleMoveHandled) hready

theorem wellAddressed_idleHeld : WellAddressed idleHeld.serviceManager := by
  have hset : idleHeld.serviceManager.services = Table.empty.set "default/web"
      { serviceOf webObject webSliceUnready with serviceId := 1 } := rfl
  exact wellAddressed_single hset rfl (by decide) (by decide)

theorem wellAddressed_movedPublished : WellAddressed movedPublished.serviceManager := by
  have hset : movedPublished.serviceManager.services =
      ((Table.empty.set "default/web" { serviceOf webObject webSliceUnready with
        serviceId := 1 }).erase "default/web").set "default/web"
          { serviceOf webMoved webSliceA with serviceId := 1 } := rfl
  rw [Table.erase_set, Table.set_set] at hset
  exact wellAddressed_single hset rfl (by decide) (by decide)

/-- The service is held when it moves; once its slice is handled again the manager holds the
new VIP, and `serviceMap` the frontends of it. -/
theorem held_spec_moved :
    (idleMoveHandled.serviceManager.services "default/web").map Service.ipAddress =
      some [10, 96, 0, 10] ∧
    (movedPublished.serviceManager.services "default/web").map Service.ipAddress =
      some [10, 96, 0, 11] ∧
    Carries movedPublished "default/web" ∧ Mirrors movedPublished.serviceManager := by
  have hkey : sliceQueueKey webSliceA = "EndpointSlice/default/web-a" := by decide
  have hslice : readyAnnounced.endpointsLister.get webSliceA.ns.text webSliceA.name.text =
      some webSliceA := by decide
  have hlast : clusterSystem.step readyAnnounced (.work "EndpointSlice/default/web-a" .calm)
      movedPublished := step_handled (by decide) (by decide)
  have hsame : idleMoveHandled.serviceManager = idleMoved.serviceManager :=
    work_service (by decide : (Obj.service webMoved).queueKey = some "Service/default/web")
      step_idleMoveHandled
  have hwa : ∀ u ∈ movingIdle ++ [⟨readyAnnounced, .work "EndpointSlice/default/web-a" .calm,
      movedPublished⟩], WellAddressed u.post.serviceManager := by
    simp only [movingIdle, List.cons_append, List.nil_append, List.forall_mem_cons,
      List.not_mem_nil, false_imp_iff, implies_true, and_true]
    refine ⟨wellAddressed_init, wellAddressed_init, wellAddressed_idleHeld,
      wellAddressed_idleHeld, ?_, ?_, wellAddressed_movedPublished⟩
    · rw [hsame]
      exact wellAddressed_idleHeld
    · change WellAddressed idleMoveHandled.serviceManager
      rw [hsame]
      exact wellAddressed_idleHeld
  obtain ⟨hcarries, hmirrors, -⟩ := held_spec_of_slice_handled (run_movingIdle.snoc hlast)
    (by rw [hkey]) hslice fun u hu => absurd hu List.not_mem_nil
  exact ⟨by rw [hsame]; decide, by decide, hcarries, hmirrors hwa⟩

/-- The service moves after it has been published. -/
def moved : Cluster := published.deliver (.service (.set webMoved))

def moveHandled : Cluster := moved.handled "Service/default/web"

/-- The run through the move. -/
def moving : List (Transition Cluster ClusterLabel) :=
  publishing ++ [⟨published, .event (.service (.set webMoved)), moved⟩] ++
    [⟨moved, .work "Service/default/web" .calm, moveHandled⟩]

/-- All keys have been handled without an error after the last event on their object,
and the manager still holds the old VIP. -/
theorem move_not_held :
    Run clusterSystem clusterSystem.init moving moveHandled ∧ Settled Succeeds moving ∧
      Held moveHandled "default/web" ∧ Listed moveHandled "default/web" ∧
      ¬ Carries moveHandled "default/web" := by
  have hset : clusterSystem.step published (.event (.service (.set webMoved))) moved := rfl
  have hwork : clusterSystem.step moved (.work "Service/default/web" .calm) moveHandled :=
    step_handled (by decide) (by decide)
  -- the key of a Service is handled without a word to the manager
  have hsame : moveHandled.serviceManager = moved.serviceManager :=
    work_service (by decide : (Obj.service webMoved).queueKey = some "Service/default/web") hwork
  have hheld : (moveHandled.serviceManager.services "default/web").map Service.ipAddress =
      some [10, 96, 0, 10] := by
    rw [hsame]
    decide
  have ho : moveHandled.serviceLister.objects "default/web" = some webMoved := by decide
  refine ⟨(run_publishing.snoc hset).snoc hwork, by decide, ?_, ?_, fun hc => ?_⟩
  · rw [Held, ← Option.isSome_map, hheld]
    rfl
  · exact ⟨by rw [ho]; rfl, "default/web-a", webSliceA, by decide, by decide⟩
  · obtain ⟨svc, hsvc, hvip⟩ := Option.map_eq_some_iff.mp hheld
    have hspec := (hc svc webMoved hsvc ho).vip
    rw [hvip] at hspec
    exact absurd hspec (by decide)

end EProxy
