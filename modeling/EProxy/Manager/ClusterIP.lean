import EProxy.Manager.Extraction
import EProxy.Manager.Slots

/-!
# Cluster IPs

The informer selects Services by a label, whatever their cluster IP is. `NewService`
parses the IP and keeps a nil address when it is not IPv4 (an IPv6 address, `None` or
an empty text); nothing looks at it until the visitors of `AppendService` and
`DeleteService` encode it, once for each port. A nil address has no four bytes, so a
Service with such an IP and at least one port panics at its first port.

`updateService_survives_iff` puts the three functions together, for a key that is not
live. The handles may be nil, and the kernel may fail operations: the number of map
updates a call issues is `appendCount`.
-/

namespace EProxy

open Framework Machine

/-! ### Addresses -/

theorem to4_to4 (ip : IP) : to4 (to4 ip) = to4 ip := by
  unfold to4
  split
  · rfl
  · split
    · next h =>
      have hlen : (ip.drop 12).length = 4 := by rw [List.length_drop, h.1]
      rw [if_pos hlen]
    · rfl

/-- What `NewService` stores encodes to what the cluster IP encodes to. -/
theorem encoded_to4 (ip : IP) : IP.encoded (to4 ip) = IP.encoded ip := by
  unfold IP.encoded
  rw [to4_to4]

/-- The set of `NewService` is empty only without ports. -/
theorem newServicePorts_items_eq_nil_iff (ports : List Api.ServicePort) :
    (newServicePorts ports Typed.new).items = [] ↔ ports = [] := by
  constructor
  · intro h
    refine List.eq_nil_iff_forall_not_mem.mpr fun q hq => ?_
    have hmem := (mem_newServicePorts ports Typed.new _).mpr (Or.inr ⟨q, hq, rfl⟩)
    rw [h] at hmem
    exact absurd hmem List.not_mem_nil
  · rintro rfl
    rfl

theorem addressable_serviceOf_iff (svc : Api.Service) (slice : Api.EndpointSlice) :
    (serviceOf svc slice).Addressable ↔
      svc.ports = [] ∨ (IP.encoded (parseIP svc.clusterIP)).isSome := by
  have hlist : (serviceOf svc slice).portList = (newServicePorts svc.ports Typed.new).items := rfl
  have hip : (serviceOf svc slice).ipAddress = to4 (parseIP svc.clusterIP) := rfl
  rw [Service.Addressable, hlist, hip, encoded_to4, newServicePorts_items_eq_nil_iff]

/-! ### The updates of a call -/

/-- The number of map updates `AppendService` issues for a service. -/
def Maps.appendCount (m : Maps) (svc : Service) : ℕ :=
  if m.serviceMap.isNone then 0
  else svc.portList.length * (1 + if m.endpointsMap.isNone then 0 else svc.endpoints.length)

theorem length_appendScriptOn (m : Maps) {svc : Service} {order : List Ports}
    (hperm : order.Perm svc.portList) :
    (appendScriptOn m svc order).length = m.appendCount svc := by
  unfold Maps.appendCount
  split
  · next hnil => rw [appendScriptOn_of_nil hnil, List.length_nil]
  · next hset =>
    rw [← hperm.length_eq]
    refine length_flatMap_of_forall (fun port => ?_) order
    rw [appendPortOpsOn, if_neg hset, List.length_cons, Nat.add_comm]
    congr 1
    split
    · rfl
    · simp [appendEndpointOps]

theorem appendCount_allocated (m : Maps) (w : World) (svc : Service) :
    m.appendCount (w.allocated svc) = m.appendCount svc := by
  unfold Maps.appendCount
  rw [allocated_portList, allocated_endpoints]

/-! ### Building and publishing -/

/-- The object `NewService` builds of the two is published by `UpdateService`, and if
the cluster IP is not IPv4 then without an entry in `serviceMap`. -/
def Survives (s : ServiceManager) (env : Env) (svc : Api.Service) (slice : Api.EndpointSlice) :
    Prop :=
  ∃ bsvc, (newService svc slice : Outcome MapError Service) = .ret bsvc ∧
    (s.invoke env (.updateService bsvc)).1 = .ret () ∧
    (IP.encoded (parseIP svc.clusterIP) = none →
      ∀ f, (s.invoke env (.updateService bsvc)).2.mgr.maps.frontend f = s.maps.frontend f)

/-- On a key that is not live `UpdateService` is `AppendService`. -/
theorem invoke_updateService_of_absent {s : ServiceManager} (svc : Service) (env : Env)
    (hfree : s.services svc.serviceKey = none) :
    s.invoke env (.updateService svc) = s.invoke env (.appendService svc) := by
  have habsent : (⟨s, []⟩ : World).mgr.services svc.serviceKey = none := hfree
  change (updateService env svc).discard.run _ = (appendService env svc).discard.run _
  rcases happ : (appendService env svc).run ⟨s, []⟩ with ⟨r | p, w⟩
  · rw [Go.run_discard_ret happ]
    refine Go.run_discard_ret (a := none) ?_
    rw [updateService_run_of_absent habsent, Go.run_bind_ret happ]
    rfl
  · rw [Go.run_discard_panic happ]
    refine Go.run_discard_panic ?_
    rw [updateService_run_of_absent habsent, Go.run_bind_panic happ]

/-- A service without ports changes no map. -/
theorem appendService_maps_of_no_port {env : Env} {w : World} {svc : Service} {set : Typed Ports}
    (hset : svc.ports = some set) (hnil : svc.portList = []) :
    ((appendService env svc).run w).2.mgr.maps = w.mgr.maps := by
  have hvisit : env.appendOrder.visit set.items = [] := by
    have hperm := visit_perm_portList env.appendOrder hset
    rw [hnil] at hperm
    exact List.perm_nil.mp hperm
  rw [appendService_run_on hset (Or.inl hnil), hvisit]
  rfl

/-- The call returns when the object is addressable and its updates are spared. -/
theorem updateService_serviceOf_ret_iff (s : ServiceManager) (env : Env) {svc : Api.Service}
    {slice : Api.EndpointSlice}
    (hfree : s.services (svc.ns.text ++ "/" ++ svc.name.text) = none) :
    (s.invoke env (.updateService (serviceOf svc slice))).1 = .ret () ↔
      (svc.ports = [] ∨ (IP.encoded (parseIP svc.clusterIP)).isSome) ∧
      Spares env.fault 0 (s.maps.appendCount (serviceOf svc slice)) := by
  have hset : (serviceOf svc slice).ports = some (newServicePorts svc.ports Typed.new) := rfl
  rw [invoke_updateService_of_absent (serviceOf svc slice) env hfree, ServiceManager.invoke,
    Call.computation, Go.run_discard_fst_eq_ret_iff, appendService_returned_iff hset,
    addressable_serviceOf_iff, length_appendScriptOn, appendCount_allocated]
  · rfl
  · rw [allocated_portList]
    exact visit_perm_portList env.appendOrder hset

/-- The object of a Service without ports changes no map. -/
theorem updateService_serviceOf_maps (s : ServiceManager) (env : Env) {svc : Api.Service}
    {slice : Api.EndpointSlice}
    (hfree : s.services (svc.ns.text ++ "/" ++ svc.name.text) = none) (hports : svc.ports = []) :
    (s.invoke env (.updateService (serviceOf svc slice))).2.mgr.maps = s.maps := by
  have hset : (serviceOf svc slice).ports = some (newServicePorts svc.ports Typed.new) := rfl
  have hnil : (serviceOf svc slice).portList = [] :=
    (newServicePorts_items_eq_nil_iff svc.ports).mpr hports
  rw [invoke_updateService_of_absent (serviceOf svc slice) env hfree, ServiceManager.invoke,
    Call.computation, Go.run_discard_snd]
  exact appendService_maps_of_no_port hset hnil

/-- **Exactly when a cluster IP is survived.** For every Service with whatever cluster
IP and ports, every slice with every `Ready` set and IPv4 addresses, every manager and
whatever the call meets, if the key of the service is not live: exactly when the
Service has no ports or an IPv4 cluster IP, and the kernel fails none of the updates. -/
theorem updateService_survives_iff (s : ServiceManager) (env : Env) {svc : Api.Service}
    {slice : Api.EndpointSlice} (hres : Resolvable slice)
    (hfree : s.services (svc.ns.text ++ "/" ++ svc.name.text) = none) :
    Survives s env svc slice ↔
      (svc.ports = [] ∨ (IP.encoded (parseIP svc.clusterIP)).isSome) ∧
      Spares env.fault 0 (s.maps.appendCount (serviceOf svc slice)) := by
  have hnew : (newService svc slice : Outcome MapError Service) = .ret (serviceOf svc slice) :=
    newService_eq_serviceOf hres svc
  rw [← updateService_serviceOf_ret_iff s env hfree]
  constructor
  · rintro ⟨bsvc, hbsvc, hok, -⟩
    obtain rfl := Outcome.ret.inj (hnew.symm.trans hbsvc)
    exact hok
  · intro hok
    refine ⟨_, hnew, hok, fun hip f => ?_⟩
    -- a service without an IPv4 address gets through only if there is no port
    have hports : svc.ports = [] :=
      ((updateService_serviceOf_ret_iff s env hfree).mp hok).1.resolve_right (by simp [hip])
    rw [updateService_serviceOf_maps s env hfree hports]

/-- The web service survives: its cluster IP is IPv4. -/
theorem updateService_survives_web :
    Survives (newServiceManager Maps.empty) .calm webObject
      (webSlice ⟨"web-a", by decide⟩ "10.244.0.1") :=
  (updateService_survives_iff _ _ ⟨by decide, by decide⟩ (by decide)).mpr
    ⟨Or.inr (by decide), fun _ _ _ => rfl⟩

/-- The web service as a headless one. -/
def headlessWeb : Api.Service := { webObject with clusterIP := "None" }

/-- `NewService` accepts it and `UpdateService` panics on its port. -/
theorem headless_panics :
    (newService headlessWeb (webSlice ⟨"web-a", by decide⟩ "10.244.0.1") :
      Outcome MapError Service) =
        .ret (serviceOf headlessWeb (webSlice ⟨"web-a", by decide⟩ "10.244.0.1")) ∧
    ((newServiceManager Maps.empty).invoke .calm (.updateService
      (serviceOf headlessWeb (webSlice ⟨"web-a", by decide⟩ "10.244.0.1")))).1 =
        .panic .indexOutOfRange :=
  ⟨newService_eq_serviceOf ⟨by decide, by decide⟩ headlessWeb, by decide⟩

end EProxy
