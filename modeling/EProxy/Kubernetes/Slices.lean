import EProxy.Kubernetes.Handling
import EProxy.Manager.Extraction

/-!
# Services with several endpoint slices

Kubernetes may spread the endpoints of a service over several slices. The handler looks
at the slice its key names and at no other one: the object it hands to `UpdateService`
has the ready addresses of that slice (`readyAddresses`), and `DeleteService` is called
when that slice is terminating, whatever the others are. What the manager holds for a
service is therefore decided by the slice handled last
(`endpointHandler_takes_slice_alone`).
-/

namespace EProxy

open Framework

/-! ### One slice decides -/

/-- **The handled slice alone decides.** For every content of the two listers, every
slice in them with every `Ready` set and IPv4 addresses in its ready endpoints, whose
service is there too, and every manager as runs leave it: the handler hands
`UpdateService` the object with the ready addresses of this slice, or calls
`DeleteService` if this slice is terminating; and whenever the handling of its key returns
the manager holds exactly that, whatever slices of the service were handled before. -/
theorem endpointHandler_takes_slice_alone {c : Cluster} (hs : Sound c.serviceManager)
    {slice : Api.EndpointSlice} {svc : Api.Service}
    (hslice : c.endpointsLister.get slice.ns.text slice.name.text = some slice)
    (hsvc : c.serviceLister.get slice.ns.text slice.serviceName.text = some svc)
    (hready : ∀ endpoint ∈ slice.endpoints, endpoint.ready.isSome)
    (hipv4 : ReadyIPv4 slice.endpoints) :
    endpointCall c.serviceLister c.endpointsLister slice.ns.text slice.name.text =
      .ret (.ok (if slice.terminating then .deleteService slice.labelKey
        else .updateService (serviceOf svc slice))) ∧
    ∀ env c', clusterSystem.step c (.work (sliceQueueKey slice) env) c' →
      c'.serviceManager.services slice.labelKey =
        if slice.terminating then none
        else some (c.serviceManager.allocated (serviceOf svc slice)) := by
  have hnew : (newService svc slice : Outcome MapError Service) = .ret (serviceOf svc slice) :=
    (newService_eq_ret_iff svc slice _).mpr ⟨hready, hipv4, rfl⟩
  refine ⟨?_, fun env c' hstep => ?_⟩
  · rw [endpointCall_eq_ok_iff]
    exact ⟨slice, svc, _, hslice, hsvc, hnew, by rw [newService_serviceKey hsvc hnew]⟩
  · -- the handler built its object from this slice too, so it is the same one
    obtain ⟨bsvc, hnew', hheld⟩ := services_after_slice hs hstep hslice hsvc
    obtain rfl := Outcome.ret.inj (hnew.symm.trans hnew')
    exact hheld

def webSliceA : Api.EndpointSlice := webSlice ⟨"web-a", by decide⟩ "10.244.0.1"

def webSliceB : Api.EndpointSlice := webSlice ⟨"web-b", by decide⟩ "10.244.0.2"

theorem resolvable_webSliceA : Resolvable webSliceA := ⟨by decide, by decide⟩

theorem resolvable_webSliceB : Resolvable webSliceB := ⟨by decide, by decide⟩

/-- Slice A before its pod is ready. -/
def webSliceUnready : Api.EndpointSlice :=
  { webSliceA with endpoints := [⟨["10.244.0.1", "fd00::1"], some false⟩] }

/-- The informers have heard of the service, of slice A before its pod is ready and of
slice B. -/
def firstUnready : Cluster :=
  ((clusterSystem.init.deliver (.service (.set webObject))).deliver
    (.endpointSlice (.set webSliceUnready))).deliver (.endpointSlice (.set webSliceB))

/-- Slice A has been handled, so the service is held without an endpoint. -/
def siblingHandled : Cluster := firstUnready.handled "EndpointSlice/default/web-a"

/-- Slice B has been handled, too. -/
def bothHandled : Cluster := siblingHandled.handled "EndpointSlice/default/web-b"

/-- After slice A of the same service, handling slice B hands over the address of slice B and
leaves exactly that. -/
theorem endpointHandler_takes_webSliceB :
    (siblingHandled.serviceManager.services "default/web").map (·.endpoints) = some [] ∧
    endpointCall siblingHandled.serviceLister siblingHandled.endpointsLister "default" "web-b" =
      .ret (.ok (.updateService (serviceOf webObject webSliceB))) ∧
    bothHandled.serviceManager.services "default/web" =
      some (siblingHandled.serviceManager.allocated (serviceOf webObject webSliceB)) := by
  have hfirst : clusterSystem.step firstUnready (.work "EndpointSlice/default/web-a" .calm)
      siblingHandled := step_handled (by decide) (by decide)
  have hsecond : clusterSystem.step siblingHandled (.work (sliceQueueKey webSliceB) .calm)
      bothHandled := step_handled (by decide) (by decide)
  have hslice : siblingHandled.endpointsLister.get webSliceB.ns.text webSliceB.name.text =
      some webSliceB := by decide
  have hsvc : siblingHandled.serviceLister.get webSliceB.ns.text webSliceB.serviceName.text =
      some webObject := by decide
  obtain ⟨hcall, hheld⟩ := endpointHandler_takes_slice_alone (sound_cluster_step sound_init hfirst)
    hslice hsvc (by decide) (resolvable_webSliceB.readyIPv4)
  exact ⟨by decide, hcall, hheld .calm bothHandled hsecond⟩

/-- The informers have heard of the service and of both of its slices. -/
def twoSlices : Cluster :=
  ((clusterSystem.init.deliver (.service (.set webObject))).deliver
    (.endpointSlice (.set webSliceA))).deliver (.endpointSlice (.set webSliceB))

/-- Handling slice A hands over an object without the ready address of slice B. -/
theorem endpointHandler_ignores_sibling :
    ∃ svc, endpointCall twoSlices.serviceLister twoSlices.endpointsLister "default" "web-a" =
        .ret (.ok (.updateService svc)) ∧
      twoSlices.endpointsLister.get "default" "web-b" = some webSliceB ∧
      webSliceB.labelKey = webSliceA.labelKey ∧ webSliceB.terminating = false ∧
      Resolvable webSliceA ∧ Resolvable webSliceB ∧
      ∃ ip ∈ webSliceB.readyAddresses, ip ∉ svc.endpoints := by
  refine ⟨serviceOf webObject webSliceA, ?_, by decide, by decide, by decide,
    resolvable_webSliceA, resolvable_webSliceB, 0x0200f40a, by decide, by decide⟩
  exact endpointCall_eq_ok_iff.mpr ⟨webSliceA, webObject, _, by decide, by decide,
    newService_eq_serviceOf resolvable_webSliceA webObject, rfl⟩

end EProxy
